import NetTrace.Proofs.Netlist.Grammar
import NetTrace.Proofs.Scan.Limits

namespace NetTrace

namespace Scan

open Text (Stops)

variable {text rest : Text}

theorem span_eq_ok {test : Char → Bool} {found : Text} :
    (span test : Scan Text Text) text = .ok found rest ↔
      text = found ++ rest ∧ (∀ c ∈ found, test c = true) ∧ Stops test rest := by
  rw [run_span]
  constructor
  · intro runs
    rcases EStateM.Result.ok.inj runs with ⟨rfl, rfl⟩
    exact ⟨List.takeWhile_append_dropWhile.symm, fun c member => List.mem_takeWhile_imp member,
      Text.stops_dropWhile test text⟩
  · intro given
    rcases given with ⟨rfl, all, stops⟩
    rw [Text.takeWhile_of_stops all stops, Text.dropWhile_of_stops all stops]

theorem symbol_eq_ok {c found : Char} :
    symbol c text = .ok found rest ↔ found = c ∧ text.dropWhile Text.isBlank = c :: rest := by
  simp only [symbol, rewinding_eq_ok, bind_skipBlanks, bind_peek, ite_eq_ok, bind_next, run_pure,
    run_refuse, EStateM.Result.ok.injEq, reduceCtorEq, and_false, or_false]
  constructor
  · intro given
    rcases given with ⟨head, rfl, rfl⟩
    exact ⟨rfl, List.eq_cons_of_mem_head? head⟩
  · intro given
    rcases given with ⟨rfl, seen⟩
    simp only [seen, List.head?_cons, List.tail_cons, and_self]

end Scan

namespace Netlist

open Text (Blanks Lexeme Stops)
open Scan

variable {text rest : Text}

theorem visible_of_continues {c : Char} (h : Name.continues c = true) : Text.isBlank c = false :=
  Text.visible_of_test (by decide) h

theorem continues_of_starts {c : Char} (h : Name.starts c = true) : Name.continues c = true := by
  simp only [Name.starts, Name.continues, Char.isAlphanum, Bool.or_eq_true] at h ⊢
  tauto

theorem isAlpha_eq (c : Char) : c.isAlpha = (c.isUpper || c.isLower) := rfl

theorem isUpper_iff {c : Char} : c.isUpper = true ↔ 'A' ≤ c ∧ c ≤ 'Z' := by
  have range : c.isUpper = decide ('A' ≤ c ∧ c ≤ 'Z') := rfl
  rw [range, decide_eq_true_eq]

theorem isLower_iff {c : Char} : c.isLower = true ↔ 'a' ≤ c ∧ c ≤ 'z' := by
  have range : c.isLower = (decide ('a' ≤ c) && decide (c ≤ 'z')) := rfl
  rw [range, Bool.and_eq_true, decide_eq_true_eq, decide_eq_true_eq]

theorem continues_of_isAlpha {c : Char} (h : c.isAlpha = true) : Name.continues c = true := by
  simp only [Name.continues, Char.isAlphanum, h, Bool.true_or]

theorem continues_of_isDigit {c : Char} (h : c.isDigit = true) : Name.continues c = true := by
  simp only [Name.continues, Char.isAlphanum, h, Bool.or_true, Bool.true_or]

theorem continues_of_radix (radix : Radix) {c : Char} (h : radix.isDigit c = true) :
    Name.continues c = true := by
  have small : radix.base ≤ 16 := by cases radix <;> decide
  have below : Numeral.digitValue c < radix.base := by simpa [Radix.isDigit] using h
  unfold Numeral.digitValue at below
  split at below
  · exact continues_of_isDigit ‹_›
  · split at below
    · rename_i lower
      have letter : c.isAlpha = true := by rw [isAlpha_eq, isLower_iff.mpr lower, Bool.or_true]
      exact continues_of_isAlpha letter
    · split at below
      · rename_i upper
        have letter : c.isAlpha = true := by rw [isAlpha_eq, isUpper_iff.mpr upper, Bool.true_or]
        exact continues_of_isAlpha letter
      · omega

theorem Radix.letter_eq (radix : Radix) : radix.letter = radix.marker := by
  cases radix <;> rfl

theorem Radix.contains_figures (radix : Radix) : radix.figures.contains = radix.isDigit := by
  have checked : ∀ n < 128,
      radix.figures.contains (Char.ofNat n) = radix.isDigit (Char.ofNat n) := by
    cases radix <;> decide +kernel
  have small : radix.base ≤ 16 := by cases radix <;> decide
  have among : radix.figures.all (·.toNat < 128) = true := by cases radix <;> decide
  funext c
  by_cases ascii : c.toNat < 128
  · have same := checked _ ascii
    rwa [Char.ofNat_toNat] at same
  · have absent : radix.figures.contains c = false := by
      rw [List.contains_eq_mem, decide_eq_false_iff_not]
      exact fun member => ascii (of_decide_eq_true (List.all_eq_true.mp among c member))
    have other : radix.isDigit c = false := by
      rw [isDigit, decide_eq_false_iff_not]
      exact fun below => ascii (Numeral.toNat_of_digitValue (Nat.lt_of_lt_of_le below small))
    rw [absent, other]

theorem DigitRun.of_figures {radix : Radix} {digits : Text}
    (run : DigitRun radix.figures.contains digits) : DigitRun radix.isDigit digits := by
  rwa [← radix.contains_figures]

theorem DigitRun.figures {radix : Radix} {digits : Text} (run : DigitRun radix.isDigit digits) :
    DigitRun radix.figures.contains digits := by
  rwa [radix.contains_figures]

theorem DigitRun.exists_cons {isDigit : Char → Bool} {digits : Text} (run : DigitRun isDigit digits) :
    ∃ first others, digits = first :: others ∧ isDigit first = true := by
  rcases run with ⟨nonempty, all⟩
  rcases List.exists_cons_of_ne_nil nonempty with ⟨first, others, rfl⟩
  exact ⟨first, others, rfl, all first (List.mem_cons_self ..)⟩

theorem DigitRun.head_ne {digits : Text} (run : DigitRun Char.isDigit digits) (more : Text) :
    (digits ++ more).head? ≠ some '"' := by
  obtain ⟨first, others, rfl, digit⟩ := run.exists_cons
  intro head
  obtain rfl : first = '"' := Option.some.inj head
  contradiction

theorem DigitRun.of_decimal {digits : Text} (run : DigitRun Char.isDigit digits) :
    DigitRun Radix.decimal.isDigit digits := by
  refine ⟨run.1, fun c member => ?_⟩
  have digit := run.2 c member
  have bound : c.toNat ≤ 57 := by
    simp [Char.isDigit, UInt32.le_iff_toNat_le] at digit
    exact digit.2
  simp only [Radix.isDigit, Radix.base, Numeral.digitValue_of_isDigit digit, Char.reduceToNat,
    decide_eq_true_eq]
  omega

theorem DigitRun.value_eq {radix : Radix} {digits : Text} (run : DigitRun radix.isDigit digits) :
    Numeral.value radix.base digits = Numeral.positional radix.base digits := by
  refine Numeral.value_eq_positional fun c member => ?_
  have small : radix.base ≤ 16 := by cases radix <;> decide
  have below : Numeral.digitValue c < radix.base := by simpa [Radix.isDigit] using run.2 c member
  omega

theorem DigitRun.decimal_value_eq {digits : Text} (run : DigitRun Char.isDigit digits) :
    Numeral.value 10 digits = Numeral.positional 10 digits := run.of_decimal.value_eq

theorem simple_eq_ok {name : Text} :
    Name.simple text = .ok name rest ↔
      text.dropWhile Text.isBlank = name ++ rest ∧ SimpleName name ∧ Stops Name.continues rest := by
  simp only [Name.simple, phrase_eq_ok, bind_skipBlanks, bind_peek]
  constructor
  · intro runs
    cases seen : text.dropWhile Text.isBlank with
    | nil => rw [seen] at runs; cases runs
    | cons first others =>
      simp only [seen, List.head?_cons, ite_eq_ok, run_refuse, reduceCtorEq, and_false, or_false,
        span_eq_ok] at runs
      rcases runs with ⟨starts, same, all, stops⟩
      refine ⟨same, ?_, stops⟩
      cases name with
      | nil =>
        subst same
        have continues := continues_of_starts starts
        rw [Text.stops_cons.mp stops] at continues
        exact absurd continues Bool.false_ne_true
      | cons c name =>
        rcases List.cons.inj same with ⟨rfl, -⟩
        exact ⟨first, name, rfl, starts, fun d member => all d (List.mem_cons_of_mem _ member)⟩
  · intro given
    rcases given with ⟨seen, ⟨first, others, rfl, starts, all⟩, stops⟩
    have starts : Name.starts first = true := starts
    rw [seen, List.cons_append, List.head?_cons]
    simp only [starts, if_true, span_eq_ok]
    refine ⟨rfl, fun c member => ?_, stops⟩
    rcases List.mem_cons.mp member with rfl | member
    · exact continues_of_starts starts
    · exact all c member

theorem escaped_eq_ok {name : Text} :
    Name.escaped text = .ok name rest ↔
      text.dropWhile Text.isBlank = name ++ rest ∧ EscapedName name := by
  simp only [Name.escaped, phrase_eq_ok, bind_skipBlanks, bind_mark, bind_peek, ite_eq_ok, bind_span,
    bind_next, run_refuse, reduceCtorEq, and_false, or_false]
  constructor
  · intro given
    rcases given with ⟨head, runs⟩
    have seen := List.eq_cons_of_mem_head? head
    have stops := Text.stops_dropWhile (!Text.isBlank ·) (text.dropWhile Text.isBlank)
    have whole := List.takeWhile_append_dropWhile (p := (!Text.isBlank ·))
      (l := text.dropWhile Text.isBlank)
    cases left : (text.dropWhile Text.isBlank).dropWhile (!Text.isBlank ·) with
    | nil => rw [left] at runs; cases runs
    | cons terminator others =>
      rw [left] at runs stops whole
      rcases EStateM.Result.ok.inj runs with ⟨rfl, rfl⟩
      refine ⟨by rw [List.append_assoc]; exact whole.symm, ?_⟩
      rw [seen, List.takeWhile_cons_of_pos (by decide)]
      refine ⟨_, terminator, rfl, fun c member => ?_, by simpa using Text.stops_cons.mp stops⟩
      simpa using List.mem_takeWhile_imp member
  · intro given
    rcases given with ⟨seen, body, terminator, rfl, all, blank⟩
    have visible : ∀ c ∈ '\\' :: body, (!Text.isBlank c) = true := by
      simpa using And.intro (by decide) all
    have stops : Stops (!Text.isBlank ·) (terminator :: rest) := by
      simpa [Text.stops_cons] using blank
    rw [List.append_assoc, List.singleton_append] at seen
    rw [seen, Text.takeWhile_of_stops visible stops, Text.dropWhile_of_stops visible stops]
    exact ⟨rfl, rfl⟩

theorem name_eq_ok {name : Text} :
    Name.scan text = .ok name rest ↔ text.dropWhile Text.isBlank = name ++ rest ∧
      (SimpleName name ∧ Stops Name.continues rest ∨ EscapedName name) := by
  simp only [Name.scan, phrase_eq_ok, bind_facing, ite_eq_ok, simple_eq_ok, escaped_eq_ok,
    Text.dropWhile_dropWhile, beq_iff_eq]
  constructor
  · intro given
    rcases given with ⟨-, seen, escaped⟩ | ⟨-, seen, simple⟩
    · exact ⟨seen, .inr escaped⟩
    · exact ⟨seen, .inl simple⟩
  · intro given
    rcases given with ⟨seen, simple | escaped⟩
    · refine .inr ⟨?_, seen, simple⟩
      rcases simple with ⟨⟨first, others, rfl, starts, -⟩, -⟩
      rw [seen, List.cons_append, List.head?_cons]
      intro given
      rcases given with ⟨⟩
      revert starts
      decide
    · refine .inl ⟨?_, seen, escaped⟩
      rcases escaped with ⟨body, terminator, rfl, -, -⟩
      rw [seen]
      rfl

theorem digits_eq_ok {digits : Text} :
    Literal.scanDigits text = .ok digits rest ↔ text.dropWhile Text.isBlank = digits ++ rest ∧
      DigitRun Char.isDigit digits ∧ Stops Char.isDigit rest := by
  simp only [Literal.scanDigits, phrase_eq_ok, bind_skipBlanks]
  rw [bind_eq_ok]
  simp only [span_eq_ok, ite_eq_ok, run_pure, EStateM.Result.ok.injEq]
  constructor
  · intro given
    rcases given with ⟨found, middle, ⟨seen, all, stops⟩, ⟨-, runs⟩ | ⟨nonempty, rfl, rfl⟩⟩
    · rw [bind_peek] at runs
      cases middle <;> cases runs
    · exact ⟨seen, ⟨nonempty, all⟩, stops⟩
  · intro given
    rcases given with ⟨seen, ⟨nonempty, all⟩, stops⟩
    exact ⟨digits, rest, ⟨seen, all, stops⟩, .inr ⟨nonempty, rfl, rfl⟩⟩

theorem sized_eq_ok {radix : Radix} {value : Literal} :
    Literal.scanSized radix text = .ok value rest ↔
      ∃ width digits middle, value = .sized width radix digits ∧
        text.dropWhile Text.isBlank = width ++ middle ∧ DigitRun Char.isDigit width ∧
        Stops Char.isDigit middle ∧
        middle.dropWhile Text.isBlank = '\'' :: radix.marker :: digits ++ rest ∧
        DigitRun radix.isDigit digits ∧ Stops radix.isDigit rest := by
  simp only [Literal.scanSized, phrase_eq_ok, bind_mark]
  rw [bind_eq_ok]
  simp only [digits_eq_ok, @bind_eq_ok _ _ _ _ (symbol '\'')]
  simp only [symbol_eq_ok, bind_peek, ite_eq_ok, bind_next, run_refuse, reduceCtorEq, and_false,
    or_false]
  simp only [@bind_eq_ok _ _ _ _ (span radix.isDigit), span_eq_ok, ite_eq_ok, run_pure, run_refuseFrom,
    reduceCtorEq, and_false, false_or, EStateM.Result.ok.injEq]
  constructor
  · intro given
    rcases given with ⟨width, middle, ⟨seen, run, stops⟩, _, marked, ⟨rfl, tick⟩, head, digits, left,
      ⟨whole, all, stops'⟩, nonempty, rfl, rfl⟩
    refine ⟨width, digits, middle, rfl, seen, run, stops, ?_, ⟨nonempty, all⟩, stops'⟩
    rw [tick, List.eq_cons_of_mem_head? head, whole]
    rfl
  · intro given
    rcases given with ⟨width, digits, middle, rfl, seen, run, stops, tick, ⟨nonempty, all⟩, stops'⟩
    exact ⟨width, middle, ⟨seen, run, stops⟩, _, _, ⟨rfl, tick⟩, rfl, digits, rest,
      ⟨rfl, all, stops'⟩, nonempty, rfl, rfl⟩

theorem string_eq_ok {value : Literal} :
    Literal.scanString text = .ok value rest ↔
      ∃ body, value = .string body ∧ text.dropWhile Text.isBlank = '"' :: body ++ '"' :: rest ∧
        ∀ c ∈ body, c ≠ '"' := by
  simp only [Literal.scanString, phrase_eq_ok, bind_skipBlanks, bind_mark, bind_peek, ite_eq_ok,
    bind_next, run_refuse, reduceCtorEq, and_false, or_false]
  rw [bind_eq_ok]
  simp only [span_eq_ok, bind_next]
  constructor
  · intro given
    rcases given with ⟨head, body, middle, ⟨seen, all, stops⟩, runs⟩
    cases middle with
    | nil => cases runs
    | cons quote others =>
      cases runs
      have closing : quote = '"' := by simpa using Text.stops_cons.mp stops
      refine ⟨body, rfl, ?_, by simpa using all⟩
      rw [List.eq_cons_of_mem_head? head, seen, closing]
      rfl
  · intro given
    rcases given with ⟨body, rfl, seen, all⟩
    have stops : Stops (· != '"') ('"' :: rest) := by simp [Text.stops_cons]
    rw [seen]
    exact ⟨rfl, body, _, ⟨rfl, by simpa using all, stops⟩, rfl⟩

theorem number_eq_ok {value : Literal} :
    Literal.scanNumber text = .ok value rest ↔
      (∃ radix, Literal.scanSized radix text = .ok value rest) ∨
      ∃ digits middle, value = .unsized digits ∧ Literal.scanDigits text = .ok digits middle ∧
        middle.visible? ≠ some '\'' ∧ rest = middle.dropWhile Text.isBlank := by
  simp only [Literal.scanNumber, bind_mark]
  rw [bind_eq_ok]
  simp only [bind_facing, ite_eq_ok, run_pure, EStateM.Result.ok.injEq, beq_iff_eq]
  constructor
  · intro given
    rcases given with ⟨digits, middle, run, ⟨tick, runs⟩ | ⟨other, rfl, rfl⟩⟩
    · simp only [bind_mark, bind_next, bind_peek] at runs
      cases marked : (middle.dropWhile Text.isBlank).tail.head?.bind Radix.ofMarker? with
      | none => rw [marked] at runs; cases runs
      | some radix => rw [marked] at runs; exact .inl ⟨radix, runs⟩
    · exact .inr ⟨digits, middle, rfl, run, other, rfl⟩
  · intro given
    rcases given with ⟨radix, sized⟩ | ⟨digits, middle, rfl, run, other, rfl⟩
    · rcases sized_eq_ok.mp sized with ⟨width, digits, middle, rfl, seen, run, stops, tick, -⟩
      refine ⟨width, middle, digits_eq_ok.mpr ⟨seen, run, stops⟩, .inl ⟨by rw [tick]; rfl, ?_⟩⟩
      simp only [bind_mark, bind_next, bind_peek, tick, List.cons_append, List.tail_cons,
        List.head?_cons, Option.bind_some, Radix.ofMarker?_marker, bind_rewind]
      exact sized
    · exact ⟨digits, middle, run, .inr ⟨other, rfl, rfl⟩⟩

theorem visible_string {value : Literal} (runs : Literal.scanString text = .ok value rest) :
    text.visible? = some '"' := by
  rcases string_eq_ok.mp runs with ⟨body, -, seen, -⟩
  exact Text.visible?_cons seen

theorem visible_digits {digits : Text} (runs : Literal.scanDigits text = .ok digits rest) :
    ∃ c, text.visible? = some c ∧ c.isDigit = true := by
  rcases digits_eq_ok.mp runs with ⟨seen, run, -⟩
  rcases run.exists_cons with ⟨first, others, rfl, digit⟩
  exact ⟨first, Text.visible?_cons seen, digit⟩

theorem visible_number {value : Literal} (runs : Literal.scanNumber text = .ok value rest) :
    ∃ c, text.visible? = some c ∧ c.isDigit = true := by
  rcases number_eq_ok.mp runs with ⟨radix, sized⟩ | ⟨digits, middle, -, run, -⟩
  · rcases sized_eq_ok.mp sized with ⟨width, digits, middle, -, seen, run, stops, -⟩
    exact visible_digits (digits_eq_ok.mpr ⟨seen, run, stops⟩)
  · exact visible_digits run

theorem literal_eq_ok {value : Literal} :
    Literal.scan text = .ok value rest ↔
      Literal.scanString text = .ok value rest ∨ Literal.scanNumber text = .ok value rest := by
  have string : Literal.scanString (text.dropWhile Text.isBlank) = .ok value rest ↔
      Literal.scanString text = .ok value rest := by
    simp only [string_eq_ok, Text.dropWhile_dropWhile]
  have number : Literal.scanNumber (text.dropWhile Text.isBlank) = .ok value rest ↔
      Literal.scanNumber text = .ok value rest := by
    simp only [number_eq_ok, sized_eq_ok, digits_eq_ok, Text.dropWhile_dropWhile]
  simp only [Literal.scan, phrase_eq_ok, bind_skipBlanks, bind_peek]
  cases visible : text.visible? with
  | none =>
    rw [show (text.dropWhile Text.isBlank).head? = none from visible]
    simp only [run_refuseEnd, reduceCtorEq, false_iff, not_or]
    constructor
    · intro runs
      rw [visible_string runs] at visible
      contradiction
    · intro runs
      rcases visible_number runs with ⟨c, visible', -⟩
      rw [visible'] at visible
      contradiction
  | some c =>
    rw [show (text.dropWhile Text.isBlank).head? = some c from visible]
    simp only [ite_eq_ok, run_refuse, reduceCtorEq, and_false, or_false, string, number]
    constructor
    · intro given
      rcases given with ⟨-, runs⟩ | ⟨-, -, runs⟩
      · exact .inl runs
      · exact .inr runs
    · intro given
      rcases given with runs | runs
      · rw [visible_string runs] at visible
        exact .inl ⟨Option.some.inj visible.symm, runs⟩
      · rcases visible_number runs with ⟨d, visible', digit⟩
        obtain rfl : c = d := Option.some.inj (visible.symm.trans visible')
        refine .inr ⟨?_, digit, runs⟩
        intro given
        rcases given with rfl
        contradiction

theorem word32?_eq_some {base : Nat} {digits : Text} {value : UInt32} :
    Numeral.word32? base digits = some value ↔ Numeral.value base digits = value.toNat := by
  unfold Numeral.word32?
  constructor
  · intro found
    split at found
    · rename_i small
      rw [← Option.some.inj found, UInt32.toNat_ofNat_of_lt' small]
    · contradiction
  · intro same
    rw [same, if_pos value.toNat_lt, UInt32.ofNat_toNat]

def Bound.Taken (value : UInt32) (text rest : Text) : Prop :=
  ∃ digits, Literal.scanDigits text = .ok digits rest ∧ Numeral.value 10 digits = value.toNat

theorem bound_eq_ok {start : Text} {value : UInt32} :
    Bounds.scanBound start text = .ok value rest ↔ Bound.Taken value text rest := by
  simp only [Bounds.scanBound, Bound.Taken, bind_eq_ok, outcome_eq_ok]
  constructor
  · intro given
    rcases given with ⟨_, middle, ⟨digits, run, rfl⟩ | ⟨failure, run, rfl⟩, runs⟩
    · dsimp only at runs
      cases fits : Numeral.word32? 10 digits with
      | none => rw [fits] at runs; cases runs
      | some found =>
        rw [fits] at runs
        cases runs
        exact ⟨digits, run, word32?_eq_some.mp fits⟩
    · cases runs
  · intro given
    rcases given with ⟨digits, run, fits⟩
    refine ⟨_, rest, .inl ⟨digits, run, rfl⟩, ?_⟩
    simp only [word32?_eq_some.mpr fits, run_pure]

theorem bracket_eq_ok {start : Text} {c : Char} {reason : String} {found : Unit} :
    Bounds.scanBracket start c reason text = .ok found rest ↔
      text.dropWhile Text.isBlank = c :: rest := by
  simp only [Bounds.scanBracket, bind_eq_ok, outcome_eq_ok, symbol_eq_ok]
  constructor
  · intro given
    rcases given with ⟨_, middle, ⟨_, ⟨rfl, seen⟩, rfl⟩ | ⟨failure, -, rfl⟩, runs⟩
    · cases runs
      exact seen
    · cases runs
  · intro seen
    exact ⟨_, rest, .inl ⟨c, ⟨rfl, seen⟩, rfl⟩, rfl⟩

theorem bounds_eq_ok {bounds : Bounds} :
    Bounds.scan text = .ok bounds rest ↔ ∃ opened middle,
      text.dropWhile Text.isBlank = '[' :: opened ∧ Bound.Taken bounds.first opened middle ∧
      (middle.dropWhile Text.isBlank = ']' :: rest ∧ bounds.second = bounds.first ∨
       ∃ colon last, middle.dropWhile Text.isBlank = ':' :: colon ∧
        Bound.Taken bounds.second colon last ∧ last.dropWhile Text.isBlank = ']' :: rest) := by
  simp only [Bounds.scan, phrase_eq_ok, bind_skipBlanks, bind_mark, bind_eq_ok, bracket_eq_ok,
    bound_eq_ok, run_facing, ite_eq_ok, run_next, run_pure, EStateM.Result.ok.injEq,
    Text.dropWhile_dropWhile]
  constructor
  · intro given
    rcases given with ⟨_, opened, seen, first, middle, bound, _, _, ⟨rfl, rfl⟩, ⟨colon, runs⟩ | ⟨-, runs⟩⟩
    · rcases runs with ⟨_, _, ⟨rfl, rfl⟩, second, last, bound', _, _, closed, rfl, rfl⟩
      refine ⟨opened, middle, seen, bound, .inr ⟨_, last, ?_, bound', closed⟩⟩
      exact List.eq_cons_of_mem_head? (beq_iff_eq.mp colon)
    · rcases runs with ⟨_, _, ⟨rfl, rfl⟩, _, _, closed, rfl, rfl⟩
      rw [Text.dropWhile_dropWhile] at closed
      exact ⟨opened, middle, seen, bound, .inl ⟨closed, rfl⟩⟩
  · intro given
    rcases given with ⟨opened, middle, seen, bound, ⟨closed, same⟩ | ⟨colon, last, seen', bound', closed⟩⟩
    · rcases bounds with ⟨first, second⟩
      obtain rfl : second = first := same
      refine ⟨(), opened, seen, second, middle, bound, _, _, ⟨rfl, rfl⟩, .inr ⟨?_, ?_⟩⟩
      · rw [Text.visible?_cons closed]
        decide
      · exact ⟨_, _, ⟨rfl, rfl⟩, (), rest, (Text.dropWhile_dropWhile _ _).trans closed, rfl, rfl⟩
    · refine ⟨(), opened, seen, _, middle, bound, _, _, ⟨rfl, rfl⟩, .inl ⟨?_, ?_⟩⟩
      · rw [Text.visible?_cons seen']
        rfl
      · refine ⟨_, colon, ⟨rfl, by rw [seen']; rfl⟩, _, last, bound', (), rest, closed, rfl, rfl⟩

theorem selection_alone {name : Text} (run : Name.scan text = .ok name rest)
    (free : ∀ bounds left, Bounds.scan rest ≠ .ok bounds left) :
    Selection.scan text = .ok ⟨name, none⟩ rest := by
  cases refused : (Bounds.scan rest : EStateM.Result _ _ _) with
  | ok bounds left => exact absurd refused (free bounds left)
  | error failure left =>
    have absent := optionally_eq_none.mpr ⟨rfl, failure, left, refused⟩
    exact bind_eq_ok.mpr ⟨name, rest, run, bind_eq_ok.mpr ⟨none, rest, absent, rfl⟩⟩

end Netlist

end NetTrace
