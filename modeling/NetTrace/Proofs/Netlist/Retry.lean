import NetTrace.Proofs.Netlist.Completeness

/-!
Groups in braces around concatenations. All braces are taken for delimiters first; where too few of
them close, the first is tried alone. Which of the two attempts succeeds depends on where the first
comma stands among the closing braces, and the written form has it in the same place.
-/

namespace NetTrace.Netlist

open Text (Blanks Lexeme Stops Alike)
open Scan

variable {text rest inner : Text}

theorem Opened.visible_ne {c : Char} {count : Nat} (opened : Opened c count text rest) :
    rest.visible? ≠ some c := by
  induction opened with
  | none other =>
    rw [(Alike.dropWhile _).visible]
    exact other
  | more seen opened ih => exact ih

theorem Opened.second {c : Char} {count : Nat} (opened : Opened c (count + 1) text rest)
    (more : 0 < count) : Text.visible? (text.dropWhile Text.isBlank).tail = some c := by
  cases opened with
  | more seen opened =>
    rw [seen, List.tail_cons]
    cases opened with
    | none => omega
    | more seen' _ => exact Text.visible?_cons seen'

theorem closed?_of_comma (comma : text.visible? = some ',') (count : Nat) :
    Text.closed? '\x7d' (count + 1) text = none := by
  rw [Text.closed?, comma]
  rfl

theorem first_of_commaList {α : Type} {item : Scan Text α} (passes : Passes 0 item)
    {values : List α} (run : commaList item text = .ok values rest) :
    ∃ first others middle, values = first :: others ∧ item text = .ok first middle ∧
      (others = [] → Alike middle rest) ∧ (others ≠ [] → middle.visible? = some ',') := by
  rcases (commaList_eq_ok passes).mp run with ⟨first, others, middle, rfl, item, ending⟩
  refine ⟨first, others, middle, rfl, item, ?_⟩
  rcases ending with ⟨absent, rfl, rfl⟩ | ⟨next, seen, run'⟩
  · exact ⟨fun _ => (Alike.dropWhile middle).symm, fun some => absurd rfl some⟩
  · refine ⟨fun none => ?_, fun _ => Text.visible?_cons seen⟩
    rcases (commaList_eq_ok passes).mp run' with ⟨_, _, _, same, -⟩
    rw [same] at none
    contradiction

theorem concatenation_of_brace {others : Text} {operand : Operand}
    (seen : text.dropWhile Text.isBlank = '\x7b' :: others)
    (run : Operand.scan text = .ok operand rest) :
    ∃ items middle, operand = .concatenation items ∧
      commaList Operand.scan others = .ok items middle ∧
      middle.dropWhile Text.isBlank = '\x7d' :: rest := by
  have visible := Text.visible?_cons seen
  rcases operand_eq_ok.mp run with ⟨opened, items, middle, seen', run, closed, rfl⟩ | ⟨_, run, -⟩ |
    ⟨_, run, -⟩
  · rw [seen, List.cons.injEq] at seen'
    rcases seen' with ⟨-, rfl⟩
    exact ⟨items, middle, rfl, run, closed⟩
  · exact absurd visible (not_brace_of_literal run)
  · exact absurd visible (not_brace_of_selection run)

/-- The phrases that a brace may start, which are those that braces can be tried around twice. -/
def Phrase.Braced (phrase : Phrase) : Prop :=
  phrase = .connectedElement ∨ phrase = .connectedElementList ∨ phrase = .connection ∨
    phrase = .connectionList

/-- Whether the phrase reads to the end of such a list of operands, instead of its first item. -/
def Phrase.Exhausts (phrase : Phrase) (operands : List Operand) : Prop :=
  phrase = .connectedElementList ∨ phrase = .connectionList ∨ operands.length = 1

/-- Whether so many concatenations in one another, each the only item of the one around it, lead to
    a list that the phrase reads to the end. -/
def Tight (phrase : Phrase) : Nat → Operand → Prop
  | 0, .concatenation items => phrase.Exhausts items
  | count + 1, .concatenation [item] => Tight phrase count item
  | _, _ => False

theorem connection_of_operand {operand : Operand} (run : Operand.scan text = .ok operand rest) :
    Association.scanConnection text = .ok (.positional operand) rest := by
  have other : (text.visible? == some '.') = false := by
    rw [beq_eq_false_iff_ne]
    rcases reads_operand run with ⟨front, blanks, rfl, -, spells⟩
    exact spells.leads.ne (by decide) _
  refine phrase_eq_ok.mpr ?_
  rw [Association.scan, bind_facing]
  refine ite_eq_ok.mpr (.inr ⟨?_, ?_⟩)
  · rw [show ((text.dropWhile Text.isBlank).head? == some '.') = false from other]
    decide
  · exact bind_eq_ok.mpr ⟨operand, rest, operand_dropWhile.mpr run, rfl⟩

theorem operand_of_connection {association : Association Operand}
    (brace : text.visible? = some '\x7b')
    (run : Association.scanConnection text = .ok association rest) :
    ∃ operand, association = .positional operand ∧ Operand.scan text = .ok operand rest := by
  have runs := phrase_eq_ok.mp run
  rw [Association.scan, bind_facing, show (text.dropWhile Text.isBlank).head? = _ from brace] at runs
  rcases bind_eq_ok.mp runs with ⟨operand, _, run, same⟩
  cases same
  exact ⟨operand, rfl, operand_dropWhile.mp run⟩

theorem passes_connection : Passes 0 (Association.scanConnection : Scan Text _) :=
  reads_connection.passes fun _ _ _ => Nat.zero_le _

theorem connections_of_operands {operands : List Operand}
    (run : commaList Operand.scan text = .ok operands rest) :
    commaList Association.scanConnection text = .ok (operands.map .positional) rest := by
  induction operands generalizing text with
  | nil =>
    rcases (commaList_eq_ok passes_operand).mp run with ⟨first, others, _, same, -⟩
    cases same
  | cons operand operands ih =>
    rcases (commaList_eq_ok passes_operand).mp run with ⟨first, others, middle, same, run, ending⟩
    rcases List.cons.inj same with ⟨rfl, rfl⟩
    refine (commaList_eq_ok passes_connection).mpr
      ⟨_, _, middle, rfl, connection_of_operand run, ?_⟩
    rcases ending with ⟨absent, rfl, rfl⟩ | ⟨next, seen, run'⟩
    · exact .inl ⟨absent, rfl, rfl⟩
    · exact .inr ⟨next, seen, ih run'⟩

/-- Where a list of operands is read, such a phrase is read as well, to the end of the list or of
    its first item. -/
theorem read_of_operands {phrase : Phrase} (braced : phrase.Braced) {operands : List Operand}
    (run : commaList Operand.scan text = .ok operands rest) :
    ∃ reading left, phrase.read text = .ok reading left ∧
      (phrase.Exhausts operands → Alike left rest) ∧
      (¬ phrase.Exhausts operands → left.visible? = some ',') := by
  rcases first_of_commaList passes_operand run with ⟨first, others, middle, rfl, item, ends, stays⟩
  have single : ∀ {phrase : Phrase}, phrase ≠ .connectedElementList → phrase ≠ .connectionList →
      (phrase.Exhausts (first :: others) ↔ others = []) := by
    intro phrase list connections
    simp [Phrase.Exhausts, list, connections]
  rcases braced with rfl | rfl | rfl | rfl
  · rw [single (by decide) (by decide)]
    exact ⟨_, middle, map_ok _ item, ends, stays⟩
  · refine ⟨_, rest, map_ok _ (phrase_eq_ok.mpr run), fun _ => .refl rest, fun part => ?_⟩
    exact absurd (.inl rfl) part
  · rw [single (by decide) (by decide)]
    exact ⟨_, middle, map_ok _ (connection_of_operand item), ends, stays⟩
  · refine ⟨_, rest, map_ok _ (phrase_eq_ok.mpr (connections_of_operands run)), fun _ => .refl rest,
      fun part => ?_⟩
    exact absurd (.inr (.inl rfl)) part

theorem read_after_braces {phrase : Phrase} (braced : phrase.Braced) {count : Nat}
    (opened : Opened '\x7b' (count + 1) text inner) {operand : Operand}
    (run : Operand.scan text = .ok operand rest) :
    ∃ reading left, phrase.read inner = .ok reading left ∧
      (Tight phrase count operand → Text.closed? '\x7d' (count + 1) left = some rest) ∧
      (¬ Tight phrase count operand → ∀ more, count < more → Text.closed? '\x7d' more left = none) := by
  -- By induction on the number of braces: what is read after all of them, and whether as many
  -- close. Where they do, nothing but them stands between the end of what is read and that of the
  -- operand; where they do not, a comma is in the way.
  induction count generalizing text operand rest with
  | zero =>
    cases opened with
    | @more _ _ others _ seen opened =>
      rcases concatenation_of_brace seen run with ⟨items, middle, rfl, list, closed⟩
      have list' : commaList Operand.scan inner = .ok items middle := by
        cases opened
        exact (commaList_dropWhile passes_operand operand_dropWhile).mpr list
      rcases read_of_operands braced list' with ⟨reading, left, run', ends, stays⟩
      refine ⟨reading, left, run', fun tight => ?_, fun loose more above => ?_⟩
      · rw [Text.closed?_congr (ends tight)]
        exact Text.closed?_one.mpr closed
      · obtain ⟨more, rfl⟩ : ∃ less, more = less + 1 := ⟨more - 1, by omega⟩
        exact closed?_of_comma (stays loose) more
  | succ count ih =>
    cases opened with
    | @more _ _ others _ seen opened =>
      rcases concatenation_of_brace seen run with ⟨items, middle, rfl, list, closed⟩
      rcases (commaList_eq_ok passes_operand).mp list with ⟨first, more, last, rfl, item, ending⟩
      rcases ih opened item with ⟨reading, left, run', tight, loose⟩
      rcases ending with ⟨absent, rfl, rfl⟩ | ⟨next, seen', others'⟩
      · refine ⟨reading, left, run', fun whole => ?_, fun part more above => ?_⟩
        · rw [Text.closed?_add (count + 1) 1, tight whole, Option.bind_some]
          rw [Text.dropWhile_dropWhile] at closed
          exact Text.closed?_one.mpr closed
        · exact loose part more (by omega)
      · obtain ⟨second, others', rfl⟩ : ∃ second rest, more = second :: rest := by
          rcases (commaList_eq_ok passes_operand).mp others' with ⟨second, rest, _, same, -⟩
          exact ⟨second, rest, same⟩
        refine ⟨reading, left, run', fun whole => whole.elim, fun _ more above => ?_⟩
        by_cases whole : Tight phrase count first
        · obtain ⟨less, rfl⟩ : ∃ less, more = count + 1 + (less + 1) := ⟨more - (count + 2), by omega⟩
          rw [Text.closed?_add, tight whole, Option.bind_some]
          exact closed?_of_comma (Text.visible?_cons seen') less
        · exact loose whole more (by omega)

theorem visible_renderItems {items : List Operand} {front : Text}
    (spells : Separated Operand.Spelled items front) (rest more : Text) :
    (Operand.renderItems items ++ more).visible? = (front ++ rest).visible? := by
  have leads : ∀ {text}, Separated Operand.Spelled items text →
      Leads Operand.begins (Operand.renderItems items) text := by
    intro text spells
    rw [Operand.renderItems_eq_commaJoin]
    exact .separated (fun _ _ spells => spells.leads) spells
  rw [(leads spells.canonicalItems).visible, (leads spells).visible]

theorem renderItems_cons (first : Operand) (others : List Operand) :
    ∃ more, Operand.renderItems (first :: others) = first.render ++ more := by
  cases others with
  | nil => exact ⟨[], (List.append_nil _).symm⟩
  | cons second others => exact ⟨_, List.append_assoc ..⟩

theorem seen_concatenation (items : List Operand) (more : Text) :
    ((Operand.concatenation items).render ++ more).dropWhile Text.isBlank =
      '\x7b' :: (Operand.renderItems items ++ ('\x7d' :: more)) := by
  rw [Operand.render, List.append_assoc]
  rfl

theorem opened_render {count : Nat} (opened : Opened '\x7b' (count + 1) text inner)
    {operand : Operand} (run : Operand.scan text = .ok operand rest) (more : Text) :
    ∃ left, Opened '\x7b' (count + 1) (operand.render ++ more) left := by
  induction count generalizing text operand rest more with
  | zero =>
    cases opened with
    | @more _ _ others _ seen opened =>
      rcases concatenation_of_brace seen run with ⟨items, middle, rfl, list, closed⟩
      rcases reads_commaList reads_operand list with ⟨front, blanks, rfl, -, spells⟩
      have other : (Operand.renderItems items ++ ('\x7d' :: more)).visible? ≠ some '\x7b' := by
        rw [visible_renderItems spells (blanks ++ middle)]
        cases opened with
        | none other => exact other
      exact ⟨_, .more (seen_concatenation items more) (.none other)⟩
  | succ count ih =>
    cases opened with
    | @more _ _ others _ seen opened =>
      rcases concatenation_of_brace seen run with ⟨items, middle, rfl, list, closed⟩
      rcases (commaList_eq_ok passes_operand).mp list with ⟨first, others', last, rfl, item, -⟩
      rcases renderItems_cons first others' with ⟨tail, same⟩
      rcases ih opened item (tail ++ ('\x7d' :: more)) with ⟨left, opened'⟩
      rw [← List.append_assoc, ← same] at opened'
      exact ⟨left, .more (seen_concatenation _ more) opened'⟩

/-- The operand that a reading starts with and whether it is all of it, unless a name comes first. -/
def Reading.leading? : Reading → Option (Operand × Bool)
  | .operand value => some (value, true)
  | .operands (value :: others) => some (value, others.isEmpty)
  | .connection (.positional value) => some (value, true)
  | .connections (.positional value :: others) => some (value, others.isEmpty)
  | _ => none

theorem leading_of_brace {phrase : Phrase} {reading : Reading}
    (brace : text.visible? = some '\x7b') (run : phrase.read text = .ok reading rest) :
    phrase.Braced ∧ ∃ operand alone middle, reading.leading? = some (operand, alone) ∧
      Operand.scan text = .ok operand middle ∧
      (alone = true → Alike middle rest) ∧ (alone = false → middle.visible? = some ',') := by
  rcases reads_phrase phrase run with ⟨front, blanks, same, -, derives⟩
  have begins : phrase.begins '\x7b' = true := by
    rcases derives.leads with ⟨c, -, admitted, visible⟩
    rw [same, visible, Option.some.injEq] at brace
    rwa [← brace]
  cases phrase with
  | connectedElement =>
    rcases map_eq_ok.mp run with ⟨operand, item, rfl⟩
    exact ⟨.inl rfl, operand, true, rest, rfl, item, fun _ => .refl rest, fun h => by contradiction⟩
  | connectedElementList =>
    rcases map_eq_ok.mp run with ⟨operands, list, rfl⟩
    obtain ⟨first, others, middle, rfl, item, ends, stays⟩ :=
      first_of_commaList passes_operand (phrase_eq_ok.mp list)
    refine ⟨.inr (.inl rfl), first, others.isEmpty, middle, rfl, item, ?_⟩
    simpa using And.intro ends stays
  | connection =>
    rcases map_eq_ok.mp run with ⟨association, item, rfl⟩
    rcases operand_of_connection brace item with ⟨operand, rfl, item'⟩
    exact ⟨.inr (.inr (.inl rfl)), operand, true, rest, rfl, item', fun _ => .refl rest,
      fun h => by contradiction⟩
  | connectionList =>
    rcases map_eq_ok.mp run with ⟨associations, list, rfl⟩
    obtain ⟨first, others, middle, rfl, item, ends, stays⟩ :=
      first_of_commaList passes_connection (phrase_eq_ok.mp list)
    rcases operand_of_connection brace item with ⟨operand, rfl, item'⟩
    refine ⟨.inr (.inr (.inr rfl)), operand, others.isEmpty, middle, rfl, item', ?_⟩
    simpa using And.intro ends stays
  | _ => exact absurd begins (by simp only [Phrase.begins]; decide)

theorem render_leading {reading : Reading} {operand : Operand} {alone : Bool}
    (leading : reading.leading? = some (operand, alone)) :
    ∃ more, reading.render = operand.render ++ more := by
  unfold Reading.leading? at leading
  split at leading
  · cases leading
    exact ⟨[], (List.append_nil _).symm⟩
  · cases leading
    exact renderItems_cons _ _
  · cases leading
    exact ⟨[], (List.append_nil _).symm⟩
  · rename_i value others
    cases leading
    cases others with
    | nil =>
      refine ⟨[], ?_⟩
      rw [Reading.render, Association.renderOperands, List.map_singleton, Text.commaJoin_singleton,
        List.append_nil]
      rfl
    | cons second others =>
      rw [Reading.render, Association.renderOperands, List.map_cons, List.map_cons,
        Text.commaJoin_cons, List.append_assoc]
      exact ⟨_, rfl⟩
  · cases leading

end NetTrace.Netlist
