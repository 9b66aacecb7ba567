import NetTrace.Proofs.Vcd.Changes

namespace NetTrace.Vcd

open Scan Text
open Netlist (DigitRun)

variable {α : Type} {text rest word value : Text} {words others : List Text}

section Fronts

/-- What is read stands at the front of a word. The rest of the word is left as a word. -/
def Front (spelled : α → Text → Prop) (test : Char → Bool) : WordGrammar α :=
  fun words value others => ∃ front more rest, words = (front ++ more) :: rest ∧
    spelled value front ∧ Stops test more ∧ others = Text.words more ++ rest

def Marked (mark : Char) (test : Char → Bool) (value front : Text) : Prop :=
  value = front ∧ ∃ run, front = mark :: run ∧ DigitRun test run

theorem stops_append {test : Char → Bool} (stops : Stops test word) (stops' : Stops test rest) :
    Stops test (word ++ rest) := by
  cases word with
  | nil => exact stops'
  | cons c word => exact stops_cons.mpr (stops_cons.mp stops)

theorem byWords_front {scan : Scan Text α} {spelled : α → Text → Prop} {test : Char → Bool}
    (eq_ok : ∀ {text rest : Text} {value : α}, scan text = .ok value rest ↔
      ∃ front, text.dropWhile isBlank = front ++ rest ∧ spelled value front ∧ Stops test rest)
    (isWord : ∀ {value front}, spelled value front → IsWord front)
    (inside : ∀ {c}, test c = true → isBlank c = false) : ByWords scan (Front spelled test) := by
  intro text value others
  constructor
  · rintro ⟨rest, runs, rfl⟩
    obtain ⟨front, split, spells, stops⟩ := eq_ok.mp runs
    obtain ⟨more, tail, rfl, visible, parts⟩ : ∃ more tail, rest = more ++ tail ∧
        (∀ c ∈ more, isBlank c = false) ∧ Parts tail :=
      ⟨_, _, List.takeWhile_append_dropWhile.symm,
        fun c member => by simpa using List.mem_takeWhile_imp member, stops_dropWhile _ rest⟩
    have whole : IsWord (front ++ more) := by
      refine ⟨List.append_ne_nil_of_left_ne_nil (isWord spells).1 _, fun c member => ?_⟩
      exact (List.mem_append.mp member).elim ((isWord spells).2 c) (visible c)
    have same : text.words = (front ++ more) :: Text.words tail := by
      rw [← words_dropWhile, split, ← List.append_assoc, whole.words_append parts]
    have stops' : Stops test more := by
      intro c head
      apply stops c
      rw [List.head?_append, head]
      rfl
    exact ⟨front, more, Text.words tail, same, spells, stops', words_append parts more⟩
  · rintro ⟨front, more, others, same, spells, stops, rfl⟩
    rcases text.words_cases with ⟨-, none⟩ | ⟨first, tail, -, parts, split, some⟩
    · rw [none] at same
      contradiction
    · rw [some] at same
      obtain ⟨rfl, rfl⟩ := List.cons.inj same
      have stops' := parts.stops fun c holds => inside (c := c) holds
      refine ⟨more ++ tail, eq_ok.mpr ⟨front, ?_, spells, stops_append stops stops'⟩, ?_⟩
      · rw [split, List.append_assoc]
      · rw [words_append parts]

theorem Marked.isWord {mark : Char} {test : Char → Bool} (visible : isBlank mark = false)
    (inside : ∀ {c}, test c = true → isBlank c = false) {value front : Text}
    (marked : Marked mark test value front) : IsWord front := by
  obtain ⟨-, run, rfl, -, all⟩ := marked
  refine ⟨List.cons_ne_nil _ _, fun c member => ?_⟩
  rcases List.mem_cons.mp member with rfl | member
  · exact visible
  · exact inside (all c member)

theorem marked_eq_ok {mark : Char} {test : Char → Bool} {cause : Text → Cause}
    {other : Option Char → Text → Cause} :
    (peek >>= fun found =>
      if found = some mark then
        next >>= fun _ => span test >>= fun run =>
          if run = [] then refuse cause else pure (mark :: run)
      else refuse (other found) : Scan Text Text) text = .ok value rest ↔
      ∃ front, text = front ++ rest ∧ Marked mark test value front ∧ Stops test rest := by
  rw [bind_peek, ite_eq_ok, bind_next]
  simp only [@bind_eq_ok _ _ _ _ (span test), span_eq_ok, ite_eq_ok, run_pure, run_refuse,
    reduceCtorEq, and_false, false_or, or_false, EStateM.Result.ok.injEq]
  constructor
  · rintro ⟨head, run, left, ⟨same, all, stops⟩, some, rfl, rfl⟩
    have whole := List.eq_cons_of_mem_head? head
    rw [same] at whole
    exact ⟨mark :: run, whole, ⟨rfl, run, rfl, some, all⟩, stops⟩
  · rintro ⟨_, rfl, ⟨rfl, run, rfl, some, all⟩, stops⟩
    exact ⟨rfl, run, rest, ⟨rfl, all, stops⟩, some, rfl, rfl⟩

theorem byWords_time : ByWords Command.scanTime (Front (Marked '#' Char.isDigit) Char.isDigit) := by
  refine byWords_front ?_ (Marked.isWord rfl visible_of_isDigit) visible_of_isDigit
  intro text rest value
  rw [Command.scanTime, phrase_eq_ok, bind_skipBlanks]
  exact marked_eq_ok

theorem byWords_anyTag :
    ByWords Word.scanAnyTag (Front (Marked '$' Word.continuesTag) Word.continuesTag) := by
  have visible : ∀ {c}, Word.continuesTag c = true → isBlank c = false :=
    visible_of_test (by decide)
  refine byWords_front ?_ (Marked.isWord rfl visible) visible
  intro text rest value
  rw [Word.scanAnyTag, phrase_eq_ok, bind_skipBlanks]
  exact marked_eq_ok

theorem byWords_bit : ByWords ValueChange.scanBit
    (Front (fun bit front => front = [bit] ∧ ValueChange.isBit bit = true) fun _ => false) := by
  apply byWords_front
  · intro text rest bit
    rw [ValueChange.scanBit, phrase_eq_ok, bind_skipBlanks, bitHere_eq_ok]
    constructor
    · rintro ⟨split, holds⟩
      exact ⟨[bit], split, ⟨rfl, holds⟩, fun _ _ => rfl⟩
    · rintro ⟨_, split, ⟨rfl, holds⟩, -⟩
      exact ⟨split, holds⟩
  · rintro bit _ ⟨rfl, holds⟩
    refine ⟨List.cons_ne_nil _ _, fun c member => ?_⟩
    rw [List.mem_singleton.mp member]
    exact visible_of_isBit holds
  · intro c holds
    contradiction

end Fronts

section Changes

def ScalarChange : WordGrammar ValueChange := fun words change others =>
  ∃ value code, words = (value :: code) :: others ∧ ValueChange.isBit value = true ∧ code ≠ [] ∧
    change = .scalar value code

def VectorChange : WordGrammar ValueChange := fun words change others =>
  ∃ kind bits code, words = (kind :: bits) :: code :: others ∧ (kind = 'b' ∨ kind = 'B') ∧
    bits ≠ [] ∧ (∀ c ∈ bits, ValueChange.isBit c = true) ∧ change = .vector bits code

def RealChange : WordGrammar ValueChange := fun words change others =>
  ∃ kind written number code, words = (kind :: written) :: code :: others ∧
    (kind = 'r' ∨ kind = 'R') ∧ Binary64.read? written = some number ∧ change = .real number code

def Change : WordGrammar ValueChange := fun words change others =>
  (ScalarChange words change others ∨ VectorChange words change others) ∨
    RealChange words change others

theorem byWords_scalar : ByWords ValueChange.scanScalar ScalarChange := by
  intro text change others
  simp only [scalar_eq_ok]
  constructor
  · intro given
    obtain ⟨rest, ⟨_, _, code, split, leads, isWord, parts, rfl⟩, rfl⟩ := given
    cases leads with
    | @scalar bit isBit =>
      have whole : IsWord (bit :: code) := isWord_cons (visible_of_isBit isBit) isWord.2
      exact ⟨bit, code, words_eq_cons.mpr ⟨rest, split, whole, parts, rfl⟩, isBit, isWord.1, rfl⟩
  · intro holds
    obtain ⟨bit, code, same, isBit, some, rfl⟩ := holds
    obtain ⟨rest, split, whole, parts, rfl⟩ := words_eq_cons.mp same
    have isWord : IsWord code := ⟨some, fun c member => whole.2 c (List.mem_cons_of_mem _ member)⟩
    exact ⟨rest, ⟨_, [bit], code, split, .scalar isBit, isWord, parts, rfl⟩, rfl⟩

theorem byWords_vector : ByWords ValueChange.scanVector VectorChange := by
  intro text change others
  simp only [vector_eq_ok]
  constructor
  · intro given
    obtain ⟨rest, ⟨_, _, code, split, leads, isWord, parts, rfl⟩, rfl⟩ := given
    cases leads with
    | @vector kind bits blanks either run apart blank =>
      have visible : isBlank kind = false := by rcases either with rfl | rfl <;> rfl
      have isWord' : IsWord (kind :: bits) :=
        isWord_cons visible fun c member => visible_of_isBit (run.2 c member)
      exact ⟨kind, bits, code, words_eq_pair.mpr ⟨blanks, rest, split, isWord', apart, blank, isWord,
        parts, rfl⟩, either, run.1, run.2, rfl⟩
  · intro holds
    obtain ⟨kind, bits, code, same, either, some, all, rfl⟩ := holds
    obtain ⟨blanks, rest, split, -, apart, blank, isWord, parts, rfl⟩ := words_eq_pair.mp same
    have leads := Phrase.Leads.vector either ⟨some, all⟩ apart blank
    exact ⟨rest, ⟨_, _, code, split, leads, isWord, parts, rfl⟩, rfl⟩

theorem byWords_real : ByWords ValueChange.scanReal RealChange := by
  intro text change others
  simp only [real_eq_ok]
  constructor
  · intro given
    obtain ⟨rest, ⟨_, _, code, split, leads, isWord, parts, rfl⟩, rfl⟩ := given
    cases leads with
    | @real kind written number blanks either all read apart blank =>
      have visible : isBlank kind = false := by rcases either with rfl | rfl <;> rfl
      exact ⟨kind, written, number, code, words_eq_pair.mpr ⟨blanks, rest, split,
        isWord_cons visible all, apart, blank, isWord, parts, rfl⟩, either, read, rfl⟩
  · intro holds
    obtain ⟨kind, written, number, code, same, either, read, rfl⟩ := holds
    obtain ⟨blanks, rest, split, isWord', apart, blank, isWord, parts, rfl⟩ := words_eq_pair.mp same
    have leads := Phrase.Leads.real either
      (fun c member => isWord'.2 c (List.mem_cons_of_mem _ member)) read apart blank
    exact ⟨rest, ⟨_, _, code, split, leads, isWord, parts, rfl⟩, rfl⟩

theorem byWords_change : ByWords ValueChange.scan Change := by
  intro text change others
  rw [Change, ← byWords_scalar text change others, ← byWords_vector text change others,
    ← byWords_real text change others]
  simp only [change_eq_ok, scalar_eq_ok, vector_eq_ok, real_eq_ok]
  constructor
  · intro given
    obtain ⟨rest, ⟨phrase, holds⟩, same⟩ := given
    have whole := holds
    obtain ⟨_, _, _, -, leads, -⟩ := whole
    cases leads with
    | scalar => exact .inl (.inl ⟨rest, holds, same⟩)
    | vector => exact .inl (.inr ⟨rest, holds, same⟩)
    | real => exact .inr ⟨rest, holds, same⟩
  · intro given
    rcases given with (⟨rest, holds, same⟩ | ⟨rest, holds, same⟩) | ⟨rest, holds, same⟩
    · exact ⟨rest, ⟨_, holds⟩, same⟩
    · exact ⟨rest, ⟨_, holds⟩, same⟩
    · exact ⟨rest, ⟨_, holds⟩, same⟩

def Starts (test : Char → Bool) (words : List Text) : Prop :=
  ∃ c word rest, words = (c :: word) :: rest ∧ test c = true

theorem Starts.apart {test test' : Char → Bool} (starts : Starts test words)
    (apart : ∀ c, test c = true → test' c = false) : ¬ Starts test' words := by
  rintro ⟨c', word', rest', same', holds'⟩
  obtain ⟨c, word, rest, same, holds⟩ := starts
  rw [same] at same'
  obtain ⟨rfl, -⟩ := List.cons.inj (List.cons.inj same').1
  rw [apart c holds] at holds'
  contradiction

def isRealKind (c : Char) : Bool := c == 'r' || c == 'R'

def startsChange (c : Char) : Bool := ValueChange.isBit c || isVectorKind c || isRealKind c

theorem ScalarChange.starts {change : ValueChange} (reads : ScalarChange words change others) :
    Starts ValueChange.isBit words := by
  obtain ⟨value, code, same, bit, -⟩ := reads
  exact ⟨value, code, _, same, bit⟩

theorem VectorChange.starts {change : ValueChange} (reads : VectorChange words change others) :
    Starts isVectorKind words := by
  obtain ⟨kind, bits, code, same, either, -⟩ := reads
  exact ⟨kind, bits, _, same, by simpa [isVectorKind] using either⟩

theorem RealChange.starts {change : ValueChange} (reads : RealChange words change others) :
    Starts isRealKind words := by
  obtain ⟨kind, written, number, code, same, either, -⟩ := reads
  exact ⟨kind, written, _, same, by simpa [isRealKind] using either⟩

theorem Change.starts {change : ValueChange} (reads : Change words change others) :
    Starts startsChange words := by
  have wider : ∀ {test : Char → Bool}, (∀ c, test c = true → startsChange c = true) →
      Starts test words → Starts startsChange words := by
    rintro test among ⟨c, word, rest, same, holds⟩
    exact ⟨c, word, rest, same, among c holds⟩
  rcases reads with (scalar | vector) | real
  · exact wider (fun c holds => by simp [startsChange, holds]) scalar.starts
  · exact wider (fun c holds => by simp [startsChange, holds]) vector.starts
  · exact wider (fun c holds => by simp [startsChange, holds]) real.starts

end Changes

section Commands

def Values : WordGrammar Text := fun words value others =>
  ∃ keyword middle changes, words = keyword :: middle ∧ keyword ∈ Command.simulationKeywords ∧
    Many Change middle changes (Word.endTag :: others) ∧
    value = keyword ++ changes.flatMap (fun change => ' ' :: change.render) ++ ' ' :: Word.endTag

def Simulation : WordGrammar Text := fun words value others =>
  (((∃ change, Change words change others ∧ change.render = value) ∨
    Front (Marked '#' Char.isDigit) Char.isDigit words value others) ∨
    Values words value others) ∨ CommandOf ["$comment".toList] words value others

def Definitions : WordGrammar Text := fun words value others =>
  ∃ declarations middle commands, Many (CommandOf Command.declarationKeywords) words declarations
    middle ∧ Many Simulation middle commands others ∧
    value = List.intercalate ['\n'] (declarations ++ commands)

theorem byWords_values : ByWords Command.scanValues Values := by
  have keyword : ByWords (Word.scanKeyword "SimulationKeyword" Command.simulationKeywords) _ :=
    byWords_keyword _ (by decide)
  have tag : ByWords (Word.scanTag "end".toList) (Exactly Word.endTag) := byWords_tag (by decide)
  refine .phrase _ ((keyword.bind fun keyword =>
    (byWords_change.collectAll passes_change).bind fun changes => tag.bind fun _ => .pure _).congr ?_)
  intro words value others _
  constructor
  · rintro ⟨keyword, _, ⟨rfl, member⟩, changes, _, many, _, _, ⟨rfl, rfl⟩, rfl, rfl⟩
    exact ⟨keyword, _, changes, rfl, member, many, rfl⟩
  · rintro ⟨keyword, middle, changes, rfl, member, many, rfl⟩
    exact ⟨keyword, middle, ⟨rfl, member⟩, changes, _, many, _, _, ⟨rfl, rfl⟩, rfl, rfl⟩

theorem byWords_comment : ByWords Command.scanComment (CommandOf ["$comment".toList]) := by
  have tag : ByWords (Word.scanTag "comment".toList) (OneOf ["$comment".toList]) := by
    have exactly : ByWords (Word.scanTag "comment".toList) (Exactly "$comment".toList) :=
      byWords_tag (by decide)
    refine exactly.congr ?_
    intro words value others _
    constructor
    · rintro ⟨rfl, rfl⟩
      exact ⟨rfl, List.mem_singleton.mpr rfl⟩
    · rintro ⟨rfl, member⟩
      have same := List.mem_singleton.mp member
      exact ⟨congrArg (· :: others) same, same⟩
  exact .phrase _ (byWords_command tag)

theorem Values.starts (reads : Values words value others) :
    ∃ keyword rest, words = keyword :: rest ∧ keyword ∈ Command.simulationKeywords := by
  obtain ⟨keyword, middle, changes, same, member, -⟩ := reads
  exact ⟨keyword, middle, same, member⟩

theorem starts_of_keyword {keywords : List Text} {test : Char → Bool}
    (leads : ∀ keyword ∈ keywords, keyword.head?.any test = true)
    (reads : ∃ keyword rest, words = keyword :: rest ∧ keyword ∈ keywords) : Starts test words := by
  obtain ⟨keyword, rest, rfl, member⟩ := reads
  have first := leads keyword member
  cases keyword with
  | nil => contradiction
  | cons c word => exact ⟨c, word, rest, rfl, first⟩

theorem Front.starts {mark : Char} {test : Char → Bool}
    (reads : Front (Marked mark test) test words value others) : Starts (· == mark) words := by
  obtain ⟨_, more, rest, same, ⟨rfl, run, rfl, -⟩, -⟩ := reads
  exact ⟨mark, run ++ more, rest, same, beq_self_eq_true mark⟩

theorem Change.not_starts {change : ValueChange} {mark : Char} (other : startsChange mark = false)
    (reads : Change words change others) : ¬ Starts (· == mark) words := by
  refine reads.starts.apart fun c holds => ?_
  rw [beq_eq_false_iff_ne]
  rintro rfl
  rw [other] at holds
  contradiction

theorem Front.not_starts {mark other : Char} {test : Char → Bool} (differ : mark ≠ other)
    (reads : Front (Marked mark test) test words value others) : ¬ Starts (· == other) words := by
  refine reads.starts.apart fun c holds => ?_
  rw [eq_of_beq holds]
  exact beq_eq_false_iff_ne.mpr differ

theorem Values.starts_dollar (reads : Values words value others) : Starts (· == '$') words :=
  starts_of_keyword (by decide) reads.starts

theorem byWords_simulation : ByWords Command.scanSimulation Simulation := by
  have change : Restores (ValueChange.render <$> ValueChange.scan : Scan Text Text) :=
    (restores_phrase _ _).map _
  have time : Restores (Command.scanTime : Scan Text Text) := restores_phrase _ _
  have values : Restores (Command.scanValues : Scan Text Text) := restores_phrase _ _
  have comment : ∀ {words value others}, CommandOf ["$comment".toList] words value others →
      Starts (· == '$') words := fun reads => starts_of_keyword (by decide) reads.starts
  -- No two alternatives start with the same character, but for values and comments, whose keywords
  -- differ.
  refine .phrase _ (.otherwise (.otherwise (.otherwise (byWords_change.map _) change byWords_time
    ?_) (change.otherwise time) byWords_values ?_) ((change.otherwise time).otherwise values)
    byWords_comment ?_)
  · rintro words _ _ _ _ ⟨change, reads, -⟩ reads'
    exact reads.not_starts rfl reads'.starts
  · rintro words _ _ _ _ (⟨change, reads, -⟩ | reads) reads'
    · exact reads.not_starts rfl reads'.starts_dollar
    · exact reads.not_starts (by decide) reads'.starts_dollar
  · rintro words _ _ _ _ ((⟨change, reads, -⟩ | reads) | reads) reads'
    · exact reads.not_starts rfl (comment reads')
    · exact reads.not_starts (by decide) (comment reads')
    · obtain ⟨keyword, rest, same, member⟩ := reads.starts
      obtain ⟨keyword', rest', same', member'⟩ := reads'.starts
      rw [same] at same'
      obtain ⟨rfl, -⟩ := List.cons.inj same'
      rw [List.mem_singleton.mp member'] at member
      revert member
      decide

theorem byWords_definitions : ByWords Command.scanAll Definitions := by
  refine .phrase _ (((byWords_declaration.collectAll passes_declaration).bind fun declarations =>
    (byWords_simulation.collectAll passes_simulation).bind fun commands => .pure _).congr ?_)
  intro words value others _
  constructor
  · rintro ⟨declarations, middle, many, commands, _, many', rfl, rfl⟩
    exact ⟨declarations, middle, commands, many, many', rfl⟩
  · rintro ⟨declarations, middle, commands, many, many', rfl⟩
    exact ⟨declarations, middle, many, commands, _, many', rfl, rfl⟩

end Commands

end NetTrace.Vcd
