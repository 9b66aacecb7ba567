import NetTrace.Proofs.Vcd.Sentences

namespace NetTrace.Vcd

open Scan Text
open Netlist (DigitRun)

variable {text rest front code : Text} {change : ValueChange} {phrase other : Phrase}
  {value : Text → ValueChange}

def isVectorKind (c : Char) : Bool := c == 'b' || c == 'B'

/-- What stands before a code and tells the value: a bit that the code follows directly, or a letter,
    what it announces and at least one blank. -/
inductive Phrase.Leads : Phrase → (Text → ValueChange) → Text → Prop
  | scalar {bit} : ValueChange.isBit bit = true → Leads scalarValueChange (.scalar bit) [bit]
  | vector {kind bits blanks} : kind = 'b' ∨ kind = 'B' → DigitRun ValueChange.isBit bits →
      blanks ≠ [] → Blanks blanks → Leads binaryVectorValueChange (.vector bits) (kind :: bits ++ blanks)
  | real {kind written number blanks} : kind = 'r' ∨ kind = 'R' → (∀ c ∈ written, isBlank c = false) →
      Binary64.read? written = some number → blanks ≠ [] → Blanks blanks →
      Leads realVectorValueChange (.real number) (kind :: written ++ blanks)

def Phrase.Holds (phrase : Phrase) (change : ValueChange) (text rest : Text) : Prop :=
  ∃ value front code, text.dropWhile isBlank = front ++ (code ++ rest) ∧ phrase.Leads value front ∧
    IsWord code ∧ Parts rest ∧ change = value code

section Parts

theorem visible_of_isBit {c : Char} (bit : ValueChange.isBit c = true) : isBlank c = false :=
  visible_of_test (by decide) bit

theorem bitHere_eq_ok {found : Char} :
    ValueChange.scanBitHere text = .ok found rest ↔
      text = found :: rest ∧ ValueChange.isBit found = true := by
  rw [ValueChange.scanBitHere, bind_peek]
  cases text with
  | nil => simp
  | cons c others =>
    simp only [List.head?_cons, ite_eq_ok, bind_next, run_pure, run_refuse, reduceCtorEq,
      and_false, or_false, EStateM.Result.ok.injEq, List.tail_cons]
    constructor
    · rintro ⟨bit, rfl, rfl⟩
      exact ⟨rfl, bit⟩
    · rintro ⟨same, bit⟩
      obtain ⟨rfl, rfl⟩ := List.cons.inj same
      exact ⟨bit, rfl, rfl⟩

theorem kind_eq_ok {lower upper : Char} : ValueChange.scanKind lower upper text = .ok () rest ↔
    ∃ kind, (kind = lower ∨ kind = upper) ∧ text.dropWhile isBlank = kind :: rest := by
  rw [ValueChange.scanKind, bind_skipBlanks, bind_peek, ite_eq_ok, bind_next]
  constructor
  · rintro (⟨head, runs⟩ | ⟨-, runs⟩)
    · cases runs
      rcases head with head | head
      · exact ⟨lower, .inl rfl, List.eq_cons_of_mem_head? head⟩
      · exact ⟨upper, .inr rfl, List.eq_cons_of_mem_head? head⟩
    · cases runs
  · rintro ⟨kind, either, split⟩
    refine .inl ⟨?_, ?_⟩
    · rw [split]
      exact either.imp (congrArg some) (congrArg some)
    · rw [split]
      rfl

theorem separator_eq_ok : ValueChange.scanSeparator text = .ok () rest ↔
    text.takeWhile isBlank ≠ [] ∧ rest = text.dropWhile isBlank := by
  rw [ValueChange.scanSeparator, bind_skipBlanks, ite_eq_ok]
  constructor
  · rintro (⟨-, runs⟩ | ⟨some, runs⟩)
    · cases runs
    · cases runs
      exact ⟨some, rfl⟩
  · rintro ⟨some, rfl⟩
    exact .inr ⟨some, rfl⟩

theorem coded_eq_ok : (Word.scanCode >>= fun code => pure (value code)) text = .ok change rest ↔
    ∃ code, text.dropWhile isBlank = code ++ rest ∧ IsWord code ∧ Parts rest ∧ change = value code := by
  simp only [Word.scanCode, bind_eq_ok, phrase_eq_ok, word_eq_ok, run_pure, EStateM.Result.ok.injEq]
  constructor
  · intro runs
    obtain ⟨code, left, ⟨same, isWord, parts⟩, rfl, rfl⟩ := runs
    exact ⟨code, same, isWord, parts, rfl⟩
  · intro given
    obtain ⟨code, same, isWord, parts, rfl⟩ := given
    exact ⟨code, rest, ⟨same, isWord, parts⟩, rfl, rfl⟩

theorem separated_eq_ok (value : Text → ValueChange) {test : Char → Bool} {run : Text}
    (inside : ∀ c, test c = true → isBlank c = false) :
    (text.takeWhile test = run ∧ (ValueChange.scanSeparator >>= fun _ => Word.scanCode >>= fun code =>
      pure (value code)) (text.dropWhile test) = .ok change rest) ↔
    ∃ blanks code, text = run ++ blanks ++ (code ++ rest) ∧ (∀ c ∈ run, test c = true) ∧
      blanks ≠ [] ∧ Blanks blanks ∧ IsWord code ∧ Parts rest ∧ change = value code := by
  rw [bind_eq_ok]
  constructor
  · intro runs
    obtain ⟨rfl, ⟨⟩, middle, separated, runs⟩ := runs
    obtain ⟨some, rfl⟩ := separator_eq_ok.mp separated
    obtain ⟨code, same, isWord, parts, rfl⟩ := coded_eq_ok.mp runs
    rw [dropWhile_dropWhile] at same
    refine ⟨(text.dropWhile test).takeWhile isBlank, code, ?_,
      fun c member => List.mem_takeWhile_imp member, some, blanks_takeWhile _, isWord, parts, rfl⟩
    rw [← same, List.append_assoc, List.takeWhile_append_dropWhile,
      List.takeWhile_append_dropWhile]
  · intro given
    obtain ⟨blanks, code, rfl, all, some, blank, isWord, parts, rfl⟩ := given
    have stops := isWord.stops rest
    have ended := (blank.parts some (code ++ rest)).stops inside
    rw [List.append_assoc, takeWhile_of_stops all ended, dropWhile_of_stops all ended]
    refine ⟨rfl, (), code ++ rest, separator_eq_ok.mpr ⟨?_, (dropWhile_of_stops blank stops).symm⟩,
      coded_eq_ok.mpr ⟨code, isWord.dropWhile rest, isWord, parts, rfl⟩⟩
    rwa [takeWhile_of_stops blank stops]

end Parts

section Scans

theorem scalar_eq_ok : ValueChange.scanScalar text = .ok change rest ↔
    Phrase.scalarValueChange.Holds change text rest := by
  rw [ValueChange.scanScalar, phrase_eq_ok, bind_skipBlanks, bind_eq_ok]
  constructor
  · intro runs
    obtain ⟨bit, middle, run, runs⟩ := runs
    obtain ⟨same, isBit⟩ := bitHere_eq_ok.mp run
    rw [bind_peek, ite_eq_ok] at runs
    obtain ⟨-, runs⟩ | ⟨here, runs⟩ := runs
    · cases runs
    · obtain ⟨code, same', isWord, parts, rfl⟩ := coded_eq_ok.mp runs
      have settled : middle.dropWhile isBlank = middle := by
        cases middle with
        | nil => rfl
        | cons c others => exact List.dropWhile_cons_of_neg here
      rw [settled] at same'
      exact ⟨_, [bit], code, by rw [same, same']; rfl, .scalar isBit, isWord, parts, rfl⟩
  · intro given
    obtain ⟨_, _, code, same, leads, isWord, parts, rfl⟩ := given
    cases leads with
    | @scalar bit isBit =>
      refine ⟨bit, code ++ rest, bitHere_eq_ok.mpr ⟨same, isBit⟩, ?_⟩
      rw [bind_peek, ite_eq_ok]
      refine .inr ⟨?_, coded_eq_ok.mpr ⟨code, isWord.dropWhile rest, isWord, parts, rfl⟩⟩
      obtain ⟨c, others, rfl⟩ := List.exists_cons_of_ne_nil isWord.1
      simp [isWord.2 c (List.mem_cons_self ..)]

theorem vector_eq_ok : ValueChange.scanVector text = .ok change rest ↔
    Phrase.binaryVectorValueChange.Holds change text rest := by
  have inside : ∀ c, ValueChange.isBit c = true → isBlank c = false := fun c => visible_of_isBit
  rw [ValueChange.scanVector, phrase_eq_ok, bind_eq_ok]
  constructor
  · intro runs
    obtain ⟨⟨⟩, middle, run, runs⟩ := runs
    obtain ⟨kind, either, same⟩ := kind_eq_ok.mp run
    rw [bind_span, ite_eq_ok] at runs
    obtain ⟨-, runs⟩ | ⟨some, runs⟩ := runs
    · cases runs
    · obtain ⟨blanks, code, left, all, apart, blank, isWord, parts, rfl⟩ :=
        (separated_eq_ok _ inside).mp ⟨rfl, runs⟩
      have leads := Phrase.Leads.vector either ⟨some, all⟩ apart blank
      exact ⟨_, _, code, same.trans (congrArg (kind :: ·) left), leads, isWord, parts, rfl⟩
  · intro given
    obtain ⟨_, _, code, same, leads, isWord, parts, rfl⟩ := given
    cases leads with
    | @vector kind bits blanks either run apart blank =>
      obtain ⟨whole, runs⟩ := (separated_eq_ok (.vector bits) inside).mpr
        ⟨blanks, code, rfl, run.2, apart, blank, isWord, parts, rfl⟩
      refine ⟨(), bits ++ blanks ++ (code ++ rest),
        kind_eq_ok.mpr ⟨kind, either, same⟩, ?_⟩
      rw [bind_span, whole, if_neg run.1]
      exact runs

theorem real_eq_ok : ValueChange.scanReal text = .ok change rest ↔
    Phrase.realVectorValueChange.Holds change text rest := by
  have inside : ∀ c, (!isBlank c) = true → isBlank c = false := fun c => Bool.not_eq_true' _ |>.mp
  rw [ValueChange.scanReal, phrase_eq_ok, bind_eq_ok]
  constructor
  · intro runs
    obtain ⟨⟨⟩, middle, run, runs⟩ := runs
    obtain ⟨kind, either, same⟩ := kind_eq_ok.mp run
    rw [bind_mark, bind_span] at runs
    cases read : Binary64.read? (middle.takeWhile (!isBlank ·)) with
    | none =>
      rw [read] at runs
      cases runs
    | some number =>
      rw [read] at runs
      obtain ⟨blanks, code, left, all, apart, blank, isWord, parts, rfl⟩ :=
        (separated_eq_ok _ inside).mp ⟨rfl, runs⟩
      have leads := Phrase.Leads.real either
        (fun c member => inside c (all c member)) read apart blank
      exact ⟨_, _, code, same.trans (congrArg (kind :: ·) left), leads, isWord, parts, rfl⟩
  · intro given
    obtain ⟨_, _, code, same, leads, isWord, parts, rfl⟩ := given
    cases leads with
    | @real kind written number blanks either visible read apart blank =>
      have all : ∀ c ∈ written, (!isBlank c) = true := fun c member => by simp [visible c member]
      obtain ⟨whole, runs⟩ := (separated_eq_ok (.real number) inside).mpr
        ⟨blanks, code, rfl, all, apart, blank, isWord, parts, rfl⟩
      refine ⟨(), written ++ blanks ++ (code ++ rest),
        kind_eq_ok.mpr ⟨kind, either, same⟩, ?_⟩
      rw [bind_mark, bind_span, whole, read]
      exact runs

end Scans

section Kinds

def Phrase.ofFirst (c : Char) : Phrase :=
  if ValueChange.isBit c then scalarValueChange
  else if isVectorKind c then binaryVectorValueChange else realVectorValueChange

theorem Phrase.Leads.first (leads : phrase.Leads value front) :
    ∃ c others, front = c :: others ∧ phrase = ofFirst c := by
  cases leads with
  | scalar isBit => exact ⟨_, [], rfl, (if_pos isBit).symm⟩
  | vector either =>
    refine ⟨_, _, rfl, ?_⟩
    rcases either with rfl | rfl <;> rfl
  | real either =>
    refine ⟨_, _, rfl, ?_⟩
    rcases either with rfl | rfl <;> rfl

theorem Phrase.Holds.kind {change' : ValueChange} {rest' : Text}
    (holds : phrase.Holds change text rest) (holds' : other.Holds change' text rest') :
    other = phrase := by
  obtain ⟨value, front, code, same, leads, -⟩ := holds
  obtain ⟨value', front', code', same', leads', -⟩ := holds'
  obtain ⟨c, others, rfl, rfl⟩ := leads.first
  obtain ⟨c', others', rfl, rfl⟩ := leads'.first
  obtain ⟨rfl, -⟩ := List.cons.inj (same'.symm.trans same)
  rfl

/-- A change of any kind is read, and it does not matter which kind is tried first. -/
theorem change_eq_ok : ValueChange.scan text = .ok change rest ↔
    ∃ phrase : Phrase, phrase.Holds change text rest := by
  have scalar : Restores (ValueChange.scanScalar : Scan Text ValueChange) :=
    Scan.restores_phrase _ _
  have vector : Restores (ValueChange.scanVector : Scan Text ValueChange) :=
    Scan.restores_phrase _ _
  simp only [ValueChange.scan, phrase_eq_ok, otherwise_eq_ok (scalar.otherwise vector),
    otherwise_eq_ok scalar, ne_eq, scalar_eq_ok, vector_eq_ok, real_eq_ok]
  constructor
  · intro given
    rcases given with (holds | ⟨-, holds⟩) | ⟨-, holds⟩
    · exact ⟨_, holds⟩
    · exact ⟨_, holds⟩
    · exact ⟨_, holds⟩
  · intro given
    obtain ⟨phrase, holds⟩ := given
    have leads := holds
    obtain ⟨value, front, code, -, leads, -⟩ := leads
    cases leads with
    | scalar => exact .inl (.inl holds)
    | vector =>
      exact .inl (.inr ⟨fun _ _ holds' => absurd (holds.kind holds') (by decide), holds⟩)
    | real =>
      refine .inr ⟨fun _ _ given => ?_, holds⟩
      rcases given with holds' | ⟨-, holds'⟩
      · exact absurd (holds.kind holds') (by decide)
      · exact absurd (holds.kind holds') (by decide)

end Kinds

end NetTrace.Vcd
