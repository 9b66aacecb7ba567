import NetTrace.Token
import Mathlib.Data.List.Basic

namespace NetTrace

namespace Scan

variable {α β : Type} {text rest : Text}

@[simp] theorem run_peek (text : Text) : (peek : Scan Text _) text = .ok text.head? text := rfl

@[simp] theorem run_next (text : Text) : (next : Scan Text _) text = .ok text.head? text.tail := rfl

@[simp] theorem run_span (test : Char → Bool) (text : Text) :
    (span test : Scan Text _) text = .ok (text.takeWhile test) (text.dropWhile test) := rfl

@[simp] theorem run_skipBlanks (text : Text) :
    (skipBlanks : Scan Text _) text =
      .ok (text.takeWhile Text.isBlank) (text.dropWhile Text.isBlank) := rfl

@[simp] theorem run_mark (text : Text) : (mark : Scan Text Text) text = .ok text text := rfl

@[simp] theorem run_rewind (place text : Text) :
    (rewind place : Scan Text Unit) text = .ok () place := rfl

@[simp] theorem run_refuseFrom (place : Text) (cause : Text → Cause) (text : Text) :
    (refuseFrom place cause : Scan Text α) text =
      .error { cause := cause (Text.excerpt place) } text := rfl

@[simp] theorem run_refuse (cause : Text → Cause) (text : Text) :
    (refuse cause : Scan Text α) text = .error { cause := cause (Text.excerpt text) } text := rfl

@[simp] theorem run_refuseEnd (expected : String) (text : Text) :
    (refuseEnd expected : Scan Text α) text = .error { cause := .unexpectedEnd expected } text := rfl

@[simp] theorem run_remaining (text : Text) :
    (remaining : Scan Text Nat) text = .ok (Text.byteLength text) text := rfl

@[simp] theorem run_pure (value : α) (text : Text) : (pure value : Scan Text α) text = .ok value text :=
  rfl

@[simp] theorem bind_peek (next : Option Char → Scan Text β) (text : Text) :
    (peek >>= next) text = next text.head? text := rfl

@[simp] theorem bind_next (next' : Option Char → Scan Text β) (text : Text) :
    (next >>= next') text = next' text.head? text.tail := rfl

@[simp] theorem bind_span (test : Char → Bool) (next : Text → Scan Text β) (text : Text) :
    (span test >>= next) text = next (text.takeWhile test) (text.dropWhile test) := rfl

@[simp] theorem bind_skipBlanks (next : Text → Scan Text β) (text : Text) :
    (skipBlanks >>= next) text =
      next (text.takeWhile Text.isBlank) (text.dropWhile Text.isBlank) := rfl

@[simp] theorem bind_mark (next : Text → Scan Text β) (text : Text) :
    (mark >>= next) text = next text text := rfl

@[simp] theorem bind_rewind (place : Text) (next : Unit → Scan Text β) (text : Text) :
    (rewind place >>= next) text = next () place := rfl

@[simp] theorem bind_facing (c : Char) (next : Bool → Scan Text β) (text : Text) :
    (facing c >>= next) text =
      next ((text.dropWhile Text.isBlank).head? == some c) (text.dropWhile Text.isBlank) := rfl

theorem ite_eq_ok {condition : Prop} [Decidable condition] {yes no : Scan Text α} {value : α} :
    (if condition then yes else no) text = .ok value rest ↔
      (condition ∧ yes text = .ok value rest) ∨ (¬ condition ∧ no text = .ok value rest) := by
  split <;> simp_all

theorem bind_ok {scan : Scan Text α} {value : α} (next : α → Scan Text β)
    (h : scan text = .ok value rest) : (scan >>= next) text = next value rest := by
  simp only [Bind.bind, EStateM.bind, h]

theorem bind_eq_ok {scan : Scan Text α} {next : α → Scan Text β} {value : β} :
    (scan >>= next) text = .ok value rest ↔
      ∃ found middle, scan text = .ok found middle ∧ next found middle = .ok value rest := by
  simp only [Bind.bind, EStateM.bind]
  cases scan text <;> simp

theorem bind_eq_error {scan : Scan Text α} {next : α → Scan Text β} {failure : Failure} :
    (scan >>= next) text = .error failure rest ↔ scan text = .error failure rest ∨
      ∃ found middle, scan text = .ok found middle ∧ next found middle = .error failure rest := by
  simp only [Bind.bind, EStateM.bind]
  cases scan text <;> simp

theorem map_eq_ok {scan : Scan Text α} {f : α → β} {value : β} :
    (f <$> scan) text = .ok value rest ↔ ∃ found, scan text = .ok found rest ∧ f found = value := by
  simp only [Functor.map, EStateM.map]
  cases scan text <;> simp [and_comm]

theorem map_eq_error {scan : Scan Text α} {f : α → β} {failure : Failure} :
    (f <$> scan) text = .error failure rest ↔ scan text = .error failure rest := by
  simp only [Functor.map, EStateM.map]
  cases scan text <;> simp

theorem map_ok {scan : Scan Text α} {value : α} (f : α → β) (h : scan text = .ok value rest) :
    (f <$> scan) text = .ok (f value) rest := by
  simp only [Functor.map, EStateM.map, h]

theorem phrase_eq_ok {name : String} {scan : Scan Text α} {value : α} :
    phrase name scan text = .ok value rest ↔ scan text = .ok value rest := by
  simp only [phrase]
  cases scan text <;> simp

theorem phrase_of_error (name : String) {scan : Scan Text α} {failure : Failure}
    (refused : scan text = .error failure rest) :
    phrase name scan text = .error (failure.within name (Text.excerpt text)) text := by
  simp only [phrase, refused]
  rfl

theorem phrase_eq_error {name : String} {scan : Scan Text α} {failure : Failure} :
    phrase name scan text = .error failure rest ↔ rest = text ∧ ∃ reason left,
      scan text = .error reason left ∧ failure = reason.within name (Text.excerpt text) := by
  simp only [phrase]
  cases scan text <;> simp [Input.rewind, Input.mark, Input.quote, and_comm, eq_comm]

theorem rewinding_eq_ok {scan : Scan Text α} {value : α} :
    rewinding scan text = .ok value rest ↔ scan text = .ok value rest := by
  simp only [rewinding]
  cases scan text <;> simp

theorem rewinding_eq_error {scan : Scan Text α} {failure : Failure} :
    rewinding scan text = .error failure rest ↔
      rest = text ∧ ∃ left, scan text = .error failure left := by
  simp only [rewinding]
  cases scan text <;> simp [Input.rewind, Input.mark, and_comm, eq_comm]

theorem outcome_ok {scan : Scan Text α} {value : α} (h : scan text = .ok value rest) :
    outcome scan text = .ok (.ok value) rest := by
  simp only [outcome, h]

theorem outcome_error {scan : Scan Text α} {failure : Failure} (h : scan text = .error failure rest) :
    outcome scan text = .ok (.error failure) rest := by
  simp only [outcome, h]

theorem outcome_eq_ok {scan : Scan Text α} {result : Except Failure α} :
    outcome scan text = .ok result rest ↔
      (∃ value, scan text = .ok value rest ∧ result = .ok value) ∨
      (∃ failure, scan text = .error failure rest ∧ result = .error failure) := by
  simp only [outcome]
  cases scan text <;> simp [and_comm, eq_comm]

theorem optionally_eq_some {scan : Scan Text α} {value : α} :
    optionally scan text = .ok (some value) rest ↔ scan text = .ok value rest := by
  simp only [optionally, Bind.bind, EStateM.bind, outcome, rewinding]
  cases scan text <;> simp [Pure.pure, EStateM.pure]

theorem optionally_eq_none {scan : Scan Text α} :
    optionally scan text = .ok none rest ↔
      rest = text ∧ ∃ failure left, scan text = .error failure left := by
  simp only [optionally, Bind.bind, EStateM.bind, outcome, rewinding]
  cases scan text <;> simp [Pure.pure, EStateM.pure, Input.rewind, Input.mark, eq_comm]

theorem bind_congr {scan : Scan Text α} {next other : α → Scan Text β}
    (same : ∀ value rest, scan text = .ok value rest → next value rest = other value rest) :
    (scan >>= next) text = (scan >>= other) text := by
  simp only [Bind.bind, EStateM.bind]
  cases runs : scan text with
  | ok value rest => exact same value rest runs
  | error failure rest => rfl

theorem map_congr (f : α → β) {scan other : Scan Text α} (same : scan text = other text) :
    (f <$> scan) text = (f <$> other) text := by
  simp only [Functor.map, EStateM.map, same]

theorem phrase_congr (name : String) {scan other : Scan Text α} (same : scan text = other text) :
    phrase name scan text = phrase name other text := by
  simp only [phrase, same]

def Restores (scan : Scan Text α) : Prop :=
  ∀ ⦃text failure rest⦄, scan text = .error failure rest → rest = text

theorem restores_phrase (name : String) (scan : Scan Text α) : Restores (phrase name scan) := by
  intro text failure rest refused
  simp only [phrase] at refused
  cases runs : scan text <;> simp only [runs] at refused
  · cases refused
  · exact (EStateM.Result.error.inj refused).2.symm

theorem restores_rewinding (scan : Scan Text α) : Restores (rewinding scan) := by
  intro text failure rest refused
  simp only [rewinding] at refused
  cases runs : scan text <;> simp only [runs] at refused
  · cases refused
  · exact (EStateM.Result.error.inj refused).2.symm

theorem Restores.map {scan : Scan Text α} (restores : Restores scan) (f : α → β) :
    Restores (f <$> scan) := by
  intro text failure rest refused
  simp only [Functor.map, EStateM.map] at refused
  cases runs : scan text <;> simp only [runs] at refused
  · cases refused
  · rcases EStateM.Result.error.inj refused with ⟨rfl, rfl⟩
    exact restores runs

theorem Restores.otherwise {first second : Scan Text α} (restores : Restores first)
    (restores' : Restores second) : Restores (otherwise first second) := by
  intro text failure rest refused
  simp only [Scan.otherwise, Bind.bind, EStateM.bind, outcome] at refused
  cases runs : first text with
  | ok value left =>
    rw [runs] at refused
    cases refused
  | error reason left =>
    rw [runs] at refused
    have same := restores runs
    subst same
    exact restores' refused

theorem otherwise_eq_ok {first second : Scan Text α} (restores : Restores first) {value : α} :
    otherwise first second text = .ok value rest ↔ first text = .ok value rest ∨
      (∀ found left, first text ≠ .ok found left) ∧ second text = .ok value rest := by
  simp only [otherwise, Bind.bind, EStateM.bind, outcome]
  cases runs : first text with
  | ok found left => simp [Pure.pure, EStateM.pure]
  | error reason left => simp [restores runs]

theorem Restores.andThen {scan : Scan Text α} {next : α → Scan Text β} (restores : Restores scan)
    (goes : ∀ value text, ∃ result rest, next value text = .ok result rest) :
    Restores (scan >>= next) := by
  intro text failure rest refused
  simp only [Bind.bind, EStateM.bind] at refused
  cases runs : scan text with
  | error reason left =>
    rw [runs] at refused
    cases refused
    exact restores runs
  | ok value left =>
    rcases goes value left with ⟨result, rest', runs'⟩
    rw [runs] at refused
    simp only [runs'] at refused
    contradiction

theorem optionally_goes (scan : Scan Text α) (text : Text) :
    ∃ result rest, optionally scan text = .ok result rest := by
  cases runs : scan text with
  | ok value rest => exact ⟨some value, rest, optionally_eq_some.mpr runs⟩
  | error failure left => exact ⟨none, text, optionally_eq_none.mpr ⟨rfl, failure, left, runs⟩⟩

theorem collect_goes {step : Scan Text (Option α)}
    (goes : ∀ text, ∃ result rest, step text = .ok result rest) (limit : Nat) (text : Text) :
    ∃ values rest, collect limit step text = .ok values rest := by
  induction limit generalizing text with
  | zero => exact ⟨[], text, rfl⟩
  | succ limit ih =>
    obtain ⟨found, middle, run⟩ := goes text
    cases found with
    | none => exact ⟨[], middle, bind_eq_ok.mpr ⟨none, middle, run, rfl⟩⟩
    | some value =>
      obtain ⟨values, rest, runs⟩ := ih middle
      exact ⟨value :: values, rest, bind_eq_ok.mpr ⟨some value, middle, run,
        bind_eq_ok.mpr ⟨values, rest, runs, rfl⟩⟩⟩

def Passes (count : Nat) (scan : Scan Text α) : Prop :=
  ∀ ⦃text value rest⦄, scan text = .ok value rest →
    ∃ front, text = front ++ rest ∧ count ≤ front.length

namespace Passes

variable {scan : Scan Text α} {count less more : Nat}

theorem length (passes : Passes count scan) {value : α} (h : scan text = .ok value rest) :
    rest.length + count ≤ text.length := by
  rcases passes h with ⟨front, rfl, enough⟩
  simp only [List.length_append]
  omega

theorem mono (passes : Passes count scan) (h : less ≤ count) : Passes less scan := by
  intro text value rest runs
  rcases passes runs with ⟨front, same, enough⟩
  exact ⟨front, same, by omega⟩

theorem pure (value : α) : Passes 0 (Pure.pure value : Scan Text α) := by
  intro text found rest runs
  cases runs
  exact ⟨[], rfl, Nat.le_refl _⟩

theorem peek : Passes 0 (Scan.peek : Scan Text (Option Char)) := by
  intro text found rest runs
  cases runs
  exact ⟨[], rfl, Nat.le_refl _⟩

theorem mark : Passes 0 (Scan.mark : Scan Text Text) := by
  intro text found rest runs
  cases runs
  exact ⟨[], rfl, Nat.le_refl _⟩

theorem remaining : Passes 0 (Scan.remaining : Scan Text Nat) := by
  intro text found rest runs
  cases runs
  exact ⟨[], rfl, Nat.le_refl _⟩

theorem next : Passes 0 (Scan.next : Scan Text (Option Char)) := by
  intro text found rest runs
  cases runs
  exact ⟨text.take 1, by cases text <;> rfl, Nat.zero_le _⟩

theorem span (test : Char → Bool) : Passes 0 (Scan.span test : Scan Text Text) := by
  intro text found rest runs
  cases runs
  exact ⟨text.takeWhile test, List.takeWhile_append_dropWhile.symm, Nat.zero_le _⟩

theorem skipBlanks : Passes 0 (Scan.skipBlanks : Scan Text Text) := span _

theorem refuseFrom (place : Text) (cause : Text → Cause) :
    Passes count (Scan.refuseFrom place cause : Scan Text α) := by
  intro text found rest runs
  cases runs

theorem refuse (cause : Text → Cause) : Passes count (Scan.refuse cause : Scan Text α) := by
  intro text found rest runs
  cases runs

theorem refuseEnd (expected : String) :
    Passes count (Scan.refuseEnd expected : Scan Text α) := by
  intro text found rest runs
  cases runs

theorem throw (failure : Failure) : Passes count (throw failure : Scan Text α) := by
  intro text found rest runs
  cases runs

theorem bind {next : α → Scan Text β} (first : Passes less scan)
    (second : ∀ value, Passes more (next value)) : Passes (less + more) (scan >>= next) := by
  intro text value rest runs
  rcases bind_eq_ok.mp runs with ⟨found, middle, run, run'⟩
  rcases first run with ⟨front, rfl, enough⟩
  rcases second found run' with ⟨front', rfl, enough'⟩
  refine ⟨front ++ front', by rw [List.append_assoc], ?_⟩
  rw [List.length_append]
  omega

theorem andThen {next : α → Scan Text β} (first : Passes 0 scan)
    (second : ∀ value, Passes count (next value)) : Passes count (scan >>= next) :=
  (first.bind second).mono (by omega)

theorem map (f : α → β) (passes : Passes count scan) : Passes count (f <$> scan) := by
  intro text value rest runs
  rcases map_eq_ok.mp runs with ⟨found, run, rfl⟩
  exact passes run

theorem ite {condition : Prop} [Decidable condition] {other : Scan Text α}
    (positive : condition → Passes count scan) (negative : ¬ condition → Passes count other) :
    Passes count (if condition then scan else other) := by
  split
  · exact positive ‹_›
  · exact negative ‹_›

theorem phrase (name : String) (passes : Passes count scan) : Passes count (Scan.phrase name scan) :=
  fun _ _ _ runs => passes (phrase_eq_ok.mp runs)

theorem rewinding (passes : Passes count scan) : Passes count (Scan.rewinding scan) :=
  fun _ _ _ runs => passes (rewinding_eq_ok.mp runs)

theorem otherwise {first : Scan Text α} (restores : Restores first) (passes : Passes count first)
    (passes' : Passes count scan) : Passes count (Scan.otherwise first scan) := by
  intro text value rest runs
  rcases bind_eq_ok.mp runs with ⟨result, middle, run, run'⟩
  rcases outcome_eq_ok.mp run with ⟨found, success, rfl⟩ | ⟨failure, refused, rfl⟩
  · cases run'
    exact passes success
  · rw [restores refused] at run'
    exact passes' run'

theorem optionally (passes : Passes 0 scan) : Passes 0 (Scan.optionally scan) := by
  intro text value rest runs
  cases value with
  | none => exact ⟨[], (optionally_eq_none.mp runs).1.symm, Nat.le_refl _⟩
  | some value => exact passes (optionally_eq_some.mp runs)

theorem collect {step : Scan Text (Option α)} (passes : Passes 0 step) (limit : Nat) :
    Passes 0 (Scan.collect limit step) := by
  induction limit with
  | zero => exact pure []
  | succ limit ih =>
    refine andThen passes fun found => ?_
    cases found with
    | none => exact pure []
    | some value => exact andThen ih fun _ => pure _

theorem collectAll {step : Scan Text (Option α)} (passes : Passes 0 step) :
    Passes 0 (Scan.collectAll step) :=
  andThen remaining fun _ => collect passes _

end Passes

end Scan

theorem Token.complete_eq_ok {α : Type} {scan : Scan Text α} {name : String} {value : α}
    {token : Text} : complete name scan token = .ok value ↔
      ∃ left, scan token = .ok value left ∧ left.dropWhile Text.isBlank = [] := by
  rw [complete]
  cases run : scan token with
  | error failure left => simp
  | ok found left =>
    simp only [EStateM.Result.ok.injEq]
    constructor
    · intro same
      split at same
      · rename_i ended
        exact ⟨left, ⟨Except.ok.inj same, rfl⟩, ended⟩
      · contradiction
    · intro given
      obtain ⟨_, ⟨rfl, rfl⟩, ended⟩ := given
      exact if_pos ended

end NetTrace
