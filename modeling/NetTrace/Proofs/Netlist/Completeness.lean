import NetTrace.Proofs.Netlist.Operands
import NetTrace.Proofs.Netlist.Rendering

namespace NetTrace

open Text (Blanks Lexeme Stops Alike Remains)

/-- In front of what may follow, every spelling is passed and its value is given. What is left may
    have lost the blanks in front of it, and the spelling may have lost its own before. -/
def Scan.Takes {α : Type} (scan : Scan Text α) (spelled : α → Text → Prop) (follow : Text → Prop) :
    Prop :=
  ∀ ⦃value front rest text⦄, spelled value front → follow rest → Alike text (front ++ rest) →
    ∃ left, scan text = .ok value left ∧ Remains left rest

namespace Scan.Takes

variable {α β : Type} {scan : Scan Text α} {spelled : α → Text → Prop} {follow : Text → Prop}

theorem phrase (name : String) (takes : Takes scan spelled follow) :
    Takes (Scan.phrase name scan) spelled follow := by
  intro value front rest text spells follows alike
  rcases takes spells follows alike with ⟨left, run, same⟩
  exact ⟨left, phrase_eq_ok.mpr run, same⟩

theorem map {value : α} {front rest text : Text} (f : α → β) (takes : Takes scan spelled follow)
    (spells : spelled value front) (follows : follow rest) (alike : Alike text (front ++ rest)) :
    ∃ left, (f <$> scan) text = .ok (f value) left ∧ Remains left rest := by
  rcases takes spells follows alike with ⟨left, run, same⟩
  exact ⟨left, map_ok f run, same⟩

end Scan.Takes

namespace Netlist

open Scan

variable {α : Type}

def Breaks (c : Char) : Prop :=
  Name.continues c = false ∧ Text.isBlank c = false ∧ c ≠ '\'' ∧ c ≠ '['

instance (c : Char) : Decidable (Breaks c) := inferInstanceAs (Decidable (_ ∧ _ ∧ _ ∧ _))

def Ends (rest : Text) : Prop :=
  Stops Name.continues rest ∧ rest.visible? ≠ some '\'' ∧ rest.visible? ≠ some '['

def EndsList (rest : Text) : Prop := Ends rest ∧ rest.visible? ≠ some ','

theorem stops_blank {b : Char} (blank : Text.isBlank b = true) (rest : Text) :
    Stops Name.continues (b :: rest) := by
  refine Text.stops_cons.mpr ?_
  by_contra continues
  have visible := visible_of_continues (Bool.not_eq_false _ ▸ continues)
  rw [blank] at visible
  contradiction

theorem stops_padded {blanks rest : Text} (blank : Blanks blanks)
    (stops : Stops Name.continues rest) : Stops Name.continues (blanks ++ rest) := by
  cases blanks with
  | nil => exact stops
  | cons b blanks => exact stops_blank (blank b (List.mem_cons_self ..)) _

theorem Ends.padded {blanks rest : Text} (blank : Blanks blanks) (ends : Ends rest) :
    Ends (blanks ++ rest) := by
  obtain ⟨stops, tick, bracket⟩ := ends
  have same := (blank.alike rest).visible
  exact ⟨stops_padded blank stops, same ▸ tick, same ▸ bracket⟩

theorem stops_of_visible {c : Char} {text : Text} (visible : text.visible? = some c)
    (other : Name.continues c = false) : Stops Name.continues text := by
  cases text with
  | nil => exact Text.stops_nil _
  | cons b text =>
    by_cases blank : Text.isBlank b = true
    · exact stops_blank blank text
    · have seen : (b :: text).dropWhile Text.isBlank = b :: text := List.dropWhile_cons_of_neg blank
      rw [Text.visible?_cons seen, Option.some.injEq] at visible
      rw [visible]
      exact Text.stops_cons.mpr other

theorem stops_lexeme {c : Char} {others front : Text} (lexeme : Lexeme (c :: others) front)
    (other : Name.continues c = false) (rest : Text) : Stops Name.continues (front ++ rest) := by
  rcases lexeme with ⟨blanks, blank, rfl⟩
  rw [List.append_assoc]
  exact stops_padded blank (Text.stops_cons.mpr other)

theorem visible_lexeme {c : Char} {others front : Text} (lexeme : Lexeme (c :: others) front)
    (visible : Text.isBlank c = false) (rest : Text) : (front ++ rest).visible? = some c :=
  Text.visible?_cons (lexeme.seen visible (.refl _))

theorem ends_lexeme {c : Char} {front : Text} (lexeme : Lexeme [c] front) (breaks : Breaks c)
    (rest : Text) : Ends (front ++ rest) := by
  rcases breaks with ⟨other, visible, tick, bracket⟩
  have seen := visible_lexeme lexeme visible rest
  refine ⟨stops_lexeme lexeme other rest, ?_, ?_⟩
  · rw [seen]
    exact fun same => tick (Option.some.inj same)
  · rw [seen]
    exact fun same => bracket (Option.some.inj same)

theorem endsList_lexeme {c : Char} {front : Text} (lexeme : Lexeme [c] front) (breaks : Breaks c)
    (other : c ≠ ',') (rest : Text) : EndsList (front ++ rest) := by
  refine ⟨ends_lexeme lexeme breaks rest, ?_⟩
  rw [visible_lexeme lexeme breaks.2.1]
  exact fun same => other (Option.some.inj same)

theorem stops_digit {rest : Text} (stops : Stops Name.continues rest) : Stops Char.isDigit rest := by
  intro c head
  have other := stops c head
  by_contra digit
  rw [continues_of_isDigit (Bool.not_eq_false _ ▸ digit)] at other
  contradiction

theorem stops_radix {rest : Text} (radix : Radix) (stops : Stops Name.continues rest) :
    Stops radix.isDigit rest := by
  intro c head
  have other := stops c head
  by_contra digit
  rw [continues_of_radix radix (Bool.not_eq_false _ ▸ digit)] at other
  contradiction

theorem seen_name {name front rest text : Text} (spells : Name.Spelled name front)
    (alike : Alike text (front ++ rest)) : text.dropWhile Text.isBlank = name ++ rest := by
  rcases spells with ⟨⟨first, others, rfl, starts, -⟩ | ⟨body, terminator, rfl, -⟩, lexeme⟩
  · exact lexeme.seen (visible_of_continues (continues_of_starts starts)) alike
  · exact lexeme.seen (by decide) alike

theorem seen_digits {digits front rest text : Text} (run : DigitRun Char.isDigit digits)
    (lexeme : Lexeme digits front) (alike : Alike text (front ++ rest)) :
    text.dropWhile Text.isBlank = digits ++ rest := by
  rcases run.exists_cons with ⟨first, others, rfl, digit⟩
  exact lexeme.seen (visible_of_continues (continues_of_isDigit digit)) alike

theorem takes_name : Takes Name.scan Name.Spelled (Stops Name.continues) := by
  intro name front rest text spells stops alike
  refine ⟨rest, name_eq_ok.mpr ⟨seen_name spells alike, ?_⟩, .refl _⟩
  exact spells.1.imp (fun simple => ⟨simple, stops⟩) id

theorem takes_simple : Takes Name.simple (fun name text => SimpleName name ∧ Lexeme name text)
    (Stops Name.continues) := by
  intro name front rest text spells stops alike
  have seen := seen_name ⟨.inl spells.1, spells.2⟩ alike
  exact ⟨rest, simple_eq_ok.mpr ⟨seen, spells.1, stops⟩, .refl _⟩

theorem takes_escaped : Takes Name.escaped (fun name text => EscapedName name ∧ Lexeme name text)
    (fun _ => True) := by
  intro name front rest text spells _ alike
  have seen := seen_name ⟨.inr spells.1, spells.2⟩ alike
  exact ⟨rest, escaped_eq_ok.mpr ⟨seen, spells.1⟩, .refl _⟩

theorem takes_digits : Takes Literal.scanDigits
    (fun digits text => DigitRun Char.isDigit digits ∧ Lexeme digits text) (Stops Char.isDigit) := by
  intro digits front rest text spells stops alike
  have seen := seen_digits spells.1 spells.2 alike
  exact ⟨rest, digits_eq_ok.mpr ⟨seen, spells.1, stops⟩, .refl _⟩

theorem takes_sized (radix : Radix) : Takes (Literal.scanSized radix)
    (fun value text => (∃ width digits, value = .sized width radix digits) ∧
      Literal.Spelled value text) (Stops Name.continues) := by
  intro value front rest text spells stops alike
  rcases spells with ⟨⟨width, digits, rfl⟩, spells⟩
  cases spells with
  | @sized _ _ _ front back run lexeme run' tick =>
    rw [List.append_assoc] at alike
    have seen := seen_digits run lexeme alike
    have seen' := tick.seen (by decide) (.refl (back ++ rest))
    rw [radix.letter_eq] at seen'
    refine ⟨rest, sized_eq_ok.mpr ⟨width, digits, _, rfl, seen, run, ?_, seen', run'.of_figures, ?_⟩,
      .refl _⟩
    · exact stops_digit (stops_lexeme tick (by decide) _)
    · exact stops_radix radix stops

theorem takes_string : Takes Literal.scanString
    (fun value text => (∃ body, value = .string body) ∧ Literal.Spelled value text)
    (fun _ => True) := by
  intro value front rest text spells _ alike
  rcases spells with ⟨⟨body, rfl⟩, spells⟩
  cases spells with
  | string all lexeme =>
    have seen : text.dropWhile Text.isBlank = '"' :: (body ++ ['"']) ++ rest :=
      lexeme.seen (by decide) alike
    refine ⟨rest, string_eq_ok.mpr ⟨body, rfl, ?_, all⟩, .refl _⟩
    rw [seen, List.cons_append, List.append_assoc]
    rfl

theorem takes_literal : Takes Literal.scan Literal.Spelled
    (fun rest => Stops Name.continues rest ∧ rest.visible? ≠ some '\'') := by
  intro value front rest text spells follows alike
  cases spells with
  | unsized run lexeme =>
    rcases takes_digits ⟨run, lexeme⟩ (stops_digit follows.1) alike with ⟨_, taken, -⟩
    rcases digits_eq_ok.mp taken with ⟨seen, -, stops⟩
    have same := List.append_cancel_left ((seen_digits run lexeme alike).symm.trans seen)
    subst same
    refine ⟨rest.dropWhile Text.isBlank, literal_eq_ok.mpr (.inr (number_eq_ok.mpr (.inr ?_))),
      .inr rfl⟩
    exact ⟨_, rest, rfl, taken, follows.2, rfl⟩
  | sized run lexeme run' tick =>
    obtain ⟨left, taken, same⟩ :=
      takes_sized _ ⟨⟨_, _, rfl⟩, .sized run lexeme run' tick⟩ follows.1 alike
    exact ⟨left, literal_eq_ok.mpr (.inr (number_eq_ok.mpr (.inl ⟨_, taken⟩))), same⟩
  | string all lexeme =>
    rcases takes_string ⟨⟨_, rfl⟩, .string all lexeme⟩ trivial alike with ⟨left, taken, same⟩
    exact ⟨left, literal_eq_ok.mpr (.inl taken), same⟩

theorem Bound.taken {value : UInt32} {front rest text : Text} (bound : Bound value front)
    (stops : Stops Char.isDigit rest) (alike : Alike text (front ++ rest)) :
    Bound.Taken value text rest := by
  rcases bound with ⟨digits, run, fits, lexeme⟩
  exact ⟨digits, digits_eq_ok.mpr ⟨seen_digits run lexeme alike, run, stops⟩,
    run.decimal_value_eq.trans fits⟩

theorem takes_bounds : Takes Bounds.scan Bounds.Spelled (fun _ => True) := by
  intro bounds front rest text spells _ alike
  cases spells with
  | @index value opened digits closed lexeme bound lexeme' =>
    simp only [List.append_assoc] at alike
    have seen := lexeme.seen (by decide) alike
    have seen' := lexeme'.seen (by decide) (.refl (closed ++ rest))
    have taken := bound.taken (stops_digit (stops_lexeme lexeme' (by decide) rest)) (.refl _)
    exact ⟨rest, bounds_eq_ok.mpr ⟨_, _, seen, taken, .inl ⟨seen', rfl⟩⟩, .refl _⟩
  | @range first second opened digits colon digits' closed lexeme bound tick bound' lexeme' =>
    simp only [List.append_assoc] at alike
    have seen := lexeme.seen (by decide) alike
    have seen' := tick.seen (by decide) (.refl (colon ++ (digits' ++ (closed ++ rest))))
    have seen'' := lexeme'.seen (by decide) (.refl (closed ++ rest))
    have stops := stops_lexeme tick (by decide) (digits' ++ (closed ++ rest))
    have taken := bound.taken (stops_digit stops) (.refl _)
    have taken' := bound'.taken (stops_digit (stops_lexeme lexeme' (by decide) rest)) (.refl _)
    exact ⟨rest, bounds_eq_ok.mpr ⟨_, _, seen, taken, .inr ⟨_, _, seen', taken', seen''⟩⟩, .refl _⟩

theorem Bounds.Spelled.stops {bounds : Bounds} {front : Text} (spells : Bounds.Spelled bounds front)
    (rest : Text) : Stops Name.continues (front ++ rest) := by
  obtain ⟨c, -, admitted, visible⟩ := spells.leads
  obtain rfl : c = '[' := beq_iff_eq.mp admitted
  exact stops_of_visible (visible rest) (by decide)

theorem takes_selection : Takes Selection.scan Selection.Spelled
    (fun rest => Stops Name.continues rest ∧ rest.visible? ≠ some '[') := by
  intro selection front rest text spells follows alike
  cases spells with
  | whole named =>
    rcases takes_name named follows.1 alike with ⟨left, run, same⟩
    refine ⟨left, selection_alone run fun bounds last runs => ?_, same⟩
    rcases bounds_eq_ok.mp runs with ⟨opened, _, seen, -⟩
    have visible := Text.visible?_cons seen
    rw [same.alike.visible] at visible
    exact follows.2 visible
  | @part name bounds front back named spells =>
    rw [List.append_assoc] at alike
    rcases takes_name named (spells.stops rest) alike with ⟨middle, run, same⟩
    rcases takes_bounds spells trivial same.alike with ⟨left, run', same'⟩
    refine ⟨left, bind_eq_ok.mpr ⟨_, middle, run, ?_⟩, same'⟩
    exact bind_eq_ok.mpr ⟨some bounds, left, optionally_eq_some.mpr run', rfl⟩

theorem takes_commaList {item : Scan Text α} {spelled : α → Text → Prop}
    (takes : Takes item spelled Ends) (passes : Passes 0 item) :
    Takes (commaList item) (Separated spelled) EndsList := by
  -- By induction on the spelling: after each item but the last a comma is seen, which is no part of
  -- the item before it.
  intro values front rest text spells follows alike
  induction spells generalizing text with
  | one spells =>
    rcases takes spells follows.1 alike with ⟨left, run, same⟩
    have absent : left.visible? ≠ some ',' := by
      rw [same.alike.visible]
      exact follows.2
    refine ⟨left.dropWhile Text.isBlank, ?_, .inr same.alike⟩
    exact (commaList_eq_ok passes).mpr ⟨_, [], left, rfl, run, .inl ⟨absent, rfl, rfl⟩⟩
  | @more value values front comma back spells lexeme others ih =>
    simp only [List.append_assoc] at alike
    rcases takes spells (ends_lexeme lexeme (by decide) _) alike with ⟨left, run, same⟩
    have seen : left.dropWhile Text.isBlank = ',' :: (back ++ rest) :=
      lexeme.seen (by decide) same.alike
    rcases ih (.refl (back ++ rest)) with ⟨last, run', same'⟩
    exact ⟨last, (commaList_eq_ok passes).mpr ⟨_, _, left, rfl, run, .inr ⟨_, seen, run'⟩⟩, same'⟩

theorem Delimiters.opened {c : Char} {count : Nat} {front rest text : Text}
    (delimiters : Delimiters c count front) (visible : Text.isBlank c = false)
    (other : rest.visible? ≠ some c) (alike : Alike text (front ++ rest)) :
    Opened c count text (rest.dropWhile Text.isBlank) := by
  induction delimiters generalizing text with
  | none =>
    rw [← show text.dropWhile Text.isBlank = rest.dropWhile Text.isBlank from alike]
    refine .none ?_
    rw [alike.visible]
    exact other
  | more lexeme others ih =>
    rw [List.append_assoc] at alike
    exact .more (lexeme.seen visible alike) (ih (.refl _))

theorem takes_enclosed {content : Scan Text α} {spelled : α → Text → Prop}
    {follow : Text → Prop} {opening closing : Char} (takes : Takes content spelled follow)
    (visible : Text.isBlank opening = false) (visible' : Text.isBlank closing = false)
    (other : ∀ value front rest, spelled value front → (front ++ rest).visible? ≠ some opening)
    (follows : ∀ back rest, Lexeme [closing] back → follow (back ++ rest)) :
    Takes (Enclosed.scan opening closing content) (Enclosed.Spelled opening closing spelled)
      (fun _ => True) := by
  intro group front rest text spells _ alike
  cases spells with
  | @intro depth value opened middle closed positive delimiters spells delimiters' =>
    obtain ⟨count, rfl⟩ : ∃ count, depth = count + 1 := ⟨depth - 1, by omega⟩
    simp only [List.append_assoc] at alike
    have start := delimiters.opened visible (other _ _ (closed ++ rest) spells) alike
    have follow : follow (closed ++ rest) := by
      cases delimiters' with
      | more lexeme others =>
        rw [List.append_assoc]
        exact follows _ _ lexeme
    rcases takes spells follow (Alike.dropWhile (middle ++ (closed ++ rest))) with ⟨left, run, same⟩
    have ending := delimiters'.closed? positive visible' same.alike
    exact ⟨rest, enclosed_eq_ok.mpr ⟨count, _, value, left, start, run, .inl ⟨ending, rfl⟩⟩, .refl _⟩

theorem takes_operand : Takes Operand.scan Operand.Spelled Ends := by
  -- By induction on the spelling: the items in braces are read as operands by hypothesis.
  intro operand front rest text spells
  refine spells.induct (motive := fun operand front => ∀ rest text, Ends rest →
    Alike text (front ++ rest) → ∃ left, Operand.scan text = .ok operand left ∧ Remains left rest)
    ?_ ?_ ?_ rest text
  · intro value front spells rest text follows alike
    rcases takes_literal spells ⟨follows.1, follows.2.1⟩ alike with ⟨left, run, same⟩
    exact ⟨left, operand_eq_ok.mpr (.inr (.inl ⟨_, run, rfl⟩)), same⟩
  · intro selection front spells rest text follows alike
    rcases takes_selection spells ⟨follows.1, follows.2.2⟩ alike with ⟨left, run, same⟩
    exact ⟨left, operand_eq_ok.mpr (.inr (.inr ⟨_, run, rfl⟩)), same⟩
  · intro items opened middle closed lexeme ih lexeme' rest text follows alike
    simp only [List.append_assoc] at alike
    have seen := lexeme.seen (by decide) alike
    have follow := endsList_lexeme lexeme' (by decide) (by decide) rest
    obtain ⟨left, run, same⟩ :=
      takes_commaList (fun _ _ rest text takes => takes rest text) passes_operand ih follow (.refl _)
    have seen' := lexeme'.seen (by decide) same.alike
    exact ⟨rest, operand_eq_ok.mpr (.inl ⟨_, items, left, seen, run, seen', rfl⟩), .refl _⟩

theorem takes_association {value : Scan Text α} {spelled : α → Text → Prop} {render : α → Text}
    {admits : Char → Bool} (takes : Takes value spelled Ends)
    (leads : ∀ value text, spelled value text → Leads admits (render value) text)
    (opening : admits '(' = false) (point : admits '.' = false)
    (again : ∀ text rest found, value (text.dropWhile Text.isBlank) = .ok found rest ↔
      value text = .ok found rest) :
    Takes (Association.scan value) (Association.Spelled spelled) Ends := by
  intro association front rest text spells follows alike
  rw [Association.scan, bind_facing]
  cases spells with
  | positional spells =>
    have other : ((text.dropWhile Text.isBlank).head? == some '.') = false := by
      rw [beq_eq_false_iff_ne]
      have visible := (leads _ _ spells).ne point rest
      rw [← alike.visible] at visible
      exact visible
    rcases takes spells follows alike with ⟨left, run, same⟩
    refine ⟨left, ite_eq_ok.mpr (.inr ⟨by simp [other], ?_⟩), same⟩
    exact bind_eq_ok.mpr ⟨_, left, (again _ _ _).mpr run, rfl⟩
  | @named pin target first name group lexeme named spells =>
    simp only [List.append_assoc] at alike
    have seen := lexeme.seen (by decide) alike
    have stops : Stops Name.continues (group ++ rest) := by
      cases spells with
      | intro positive opened _ _ =>
        cases opened with
        | none => contradiction
        | more lexeme _ =>
          simp only [List.append_assoc]
          exact stops_lexeme lexeme (by decide) _
    rcases takes_name named stops (.refl _) with ⟨middle, run, same⟩
    obtain ⟨left, run', same'⟩ := takes_enclosed takes (by decide) (by decide)
      (fun _ _ rest spells => (leads _ _ spells).ne opening rest)
      (fun back rest lexeme => ends_lexeme lexeme (by decide) rest) spells trivial same.alike
    refine ⟨left, ite_eq_ok.mpr (.inl ⟨by rw [seen]; rfl, ?_⟩), same'⟩
    rw [bind_next, seen]
    exact bind_eq_ok.mpr ⟨_, middle, run, bind_eq_ok.mpr ⟨_, left, run', rfl⟩⟩

theorem takes_setting : Takes Setting.scan Setting.Spelled Ends := by
  intro setting front rest text spells follows alike
  cases spells with
  | literal spells =>
    rcases takes_literal spells ⟨follows.1, follows.2.1⟩ alike with ⟨left, run, same⟩
    exact ⟨left, setting_eq_ok.mpr (.inl ⟨_, run, rfl⟩), same⟩
  | name named =>
    rcases takes_name named follows.1 alike with ⟨left, run, same⟩
    exact ⟨left, setting_eq_ok.mpr (.inr ⟨_, run, rfl⟩), same⟩

theorem takes_connection :
    Takes Association.scanConnection (Association.Spelled Operand.Spelled) Ends :=
  .phrase _ (takes_association takes_operand (fun _ _ spells => spells.leads) (by decide) (by decide)
    fun _ _ _ => operand_dropWhile)

theorem takes_parameter :
    Takes Association.scanParameter (Association.Spelled Setting.Spelled) Ends :=
  .phrase _ (takes_association takes_setting (fun _ _ spells => spells.leads) (by decide) (by decide)
    fun _ _ _ => setting_dropWhile)

theorem takes_parameters :
    Takes Association.scanParameters (Separated (Association.Spelled Setting.Spelled)) EndsList :=
  .phrase _ (takes_commaList takes_parameter (reads_parameter.passes fun _ _ _ => Nat.zero_le _))

theorem takes_block : Takes ParameterBlock.scan ParameterBlock.Spelled EndsList := by
  refine .phrase _ fun block front rest text spells follows alike => ?_
  cases spells with
  | @intro mark group lexeme spells =>
    rw [List.append_assoc] at alike
    have seen := lexeme.seen (by decide) alike
    have other : ∀ values front rest,
        Separated (Association.Spelled Setting.Spelled) values front →
        (front ++ rest).visible? ≠ some '(' := by
      intro values front rest spells
      have leads : Leads (fun c => Setting.begins c || c == '.')
          (Association.renderSettings values) front :=
        .separated (fun _ _ spells => spells.leads fun _ _ spells => spells.leads) spells
      exact leads.ne (by decide) rest
    obtain ⟨left, run, same⟩ := takes_enclosed takes_parameters (by decide) (by decide) other
      (fun back rest lexeme => endsList_lexeme lexeme (by decide) (by decide) rest) spells trivial
      (.refl (group ++ rest))
    exact ⟨left, bind_eq_ok.mpr ⟨_, _, symbol_eq_ok.mpr ⟨rfl, seen⟩, run⟩, same⟩

theorem takes_phrase (phrase : Phrase) : Takes phrase.read phrase.Derives EndsList := by
  intro reading front rest text derives follows alike
  have names : Passes 0 Name.scan := reads_name.passes fun _ _ _ => Nat.zero_le _
  have connections : Passes 0 Association.scanConnection :=
    reads_connection.passes fun _ _ _ => Nat.zero_le _
  have stops : Takes Name.scan Name.Spelled Ends :=
    fun _ _ _ _ named ends => takes_name named ends.1
  cases derives with
  | identifier named => exact Takes.map _ takes_name named follows.1.1 alike
  | simpleIdentifier simple lexeme =>
    exact Takes.map _ takes_simple ⟨simple, lexeme⟩ follows.1.1 alike
  | escapedIdentifier escaped lexeme =>
    exact Takes.map _ takes_escaped ⟨escaped, lexeme⟩ trivial alike
  | identifierList spells =>
    exact Takes.map _ (.phrase _ (takes_commaList stops names)) spells follows alike
  | immediate spells =>
    exact Takes.map _ takes_literal spells ⟨follows.1.1, follows.1.2.1⟩ alike
  | unbasedImmediate run lexeme =>
    exact Takes.map _ takes_digits ⟨run, lexeme⟩ (stops_digit follows.1.1) alike
  | basedImmediate spells =>
    exact Takes.map _ (takes_sized _) ⟨⟨_, _, rfl⟩, spells⟩ follows.1.1 alike
  | stringLiteral spells => exact Takes.map _ takes_string ⟨⟨_, rfl⟩, spells⟩ trivial alike
  | bitRange spells => exact Takes.map _ takes_bounds spells trivial alike
  | connectedElement spells => exact Takes.map _ takes_operand spells follows.1 alike
  | connectedElementList spells =>
    exact Takes.map _ (.phrase _ (takes_commaList takes_operand passes_operand)) spells follows alike
  | connection spells => exact Takes.map _ takes_connection spells follows.1 alike
  | connectionList spells =>
    exact Takes.map _ (.phrase _ (takes_commaList takes_connection connections)) spells follows alike
  | parameterConnectedElement spells => exact Takes.map _ takes_setting spells follows.1 alike
  | parameterConnection spells => exact Takes.map _ takes_parameter spells follows.1 alike
  | parameterList spells => exact Takes.map _ takes_parameters spells follows alike
  | moduleParameters spells => exact Takes.map _ takes_block spells follows alike

end Netlist

end NetTrace
