import NetTrace.Proofs.Scan.Limits
import NetTrace.Proofs.Text.Words

namespace NetTrace

/-- The words to read, the value that they are read as, and the words after that. -/
abbrev WordGrammar (α : Type) := List Text → α → List Text → Prop

namespace Scan

variable {α β : Type} {text : Text}

/-- The scan gives a value and leaves some words exactly where the grammar says so. -/
def ByWords (scan : Scan Text α) (grammar : WordGrammar α) : Prop :=
  ∀ text value others,
    (∃ rest, scan text = .ok value rest ∧ rest.words = others) ↔ grammar text.words value others

variable {scan : Scan Text α} {grammar other : WordGrammar α}

namespace ByWords

theorem words (reads : ByWords scan grammar) {value : α} {rest : Text}
    (runs : scan text = .ok value rest) : grammar text.words value rest.words :=
  (reads text value rest.words).mp ⟨rest, runs, rfl⟩

theorem transfers (reads : ByWords scan grammar) {value : α} {left rest : Text}
    (same : text.words = left.words) (runs : scan text = .ok value rest) :
    ∃ rest', scan left = .ok value rest' ∧ rest'.words = rest.words := by
  have holds := reads.words runs
  rw [same] at holds
  exact (reads left value rest.words).mpr holds

theorem unique (reads : ByWords scan grammar) {value value' : α} {others others' : List Text}
    (first : grammar text.words value others) (second : grammar text.words value' others') :
    value = value' ∧ others = others' := by
  obtain ⟨rest, runs, rfl⟩ := (reads text value others).mpr first
  obtain ⟨rest', runs', rfl⟩ := (reads text value' others').mpr second
  rw [runs] at runs'
  obtain ⟨rfl, rfl⟩ := EStateM.Result.ok.inj runs'
  exact ⟨rfl, rfl⟩

theorem refuses (reads : ByWords scan grammar) (none : ∀ value others, ¬ grammar text.words value others) :
    ∃ failure rest, scan text = .error failure rest := by
  cases runs : scan text with
  | ok value rest => exact (none value rest.words (reads.words runs)).elim
  | error failure rest => exact ⟨failure, rest, rfl⟩

theorem none_of_refused (reads : ByWords scan grammar) {failure : Failure} {rest : Text}
    (refused : scan text = .error failure rest) (value : α) (others : List Text) :
    ¬ grammar text.words value others := by
  intro holds
  obtain ⟨left, runs, -⟩ := (reads text value others).mpr holds
  rw [refused] at runs
  contradiction

theorem areWords (reads : ByWords scan grammar) {words others : List Text} {value : α}
    (all : ∀ word ∈ words, Text.IsWord word) (holds : grammar words value others) :
    ∀ word ∈ others, Text.IsWord word := by
  rw [← Text.words_joined all] at holds
  obtain ⟨rest, -, rfl⟩ := (reads _ value others).mpr holds
  exact fun word member => Text.isWord_of_mem_words member

theorem congr (reads : ByWords scan grammar)
    (same : ∀ words value others, (∀ word ∈ words, Text.IsWord word) →
      (grammar words value others ↔ other words value others)) : ByWords scan other := by
  intro text value others
  rw [reads text value others]
  exact same _ _ _ fun word member => Text.isWord_of_mem_words member

theorem phrase (name : String) (reads : ByWords scan grammar) : ByWords (Scan.phrase name scan) grammar := by
  intro text value others
  rw [← reads text value others]
  simp only [phrase_eq_ok]

theorem pure (value : α) :
    ByWords (Pure.pure value) fun words found others => found = value ∧ others = words := by
  intro text found others
  constructor
  · rintro ⟨rest, runs, rfl⟩
    cases runs
    exact ⟨rfl, rfl⟩
  · rintro ⟨rfl, rfl⟩
    exact ⟨text, rfl, rfl⟩

theorem map (f : α → β) (reads : ByWords scan grammar) :
    ByWords (f <$> scan) fun words value others => ∃ found, grammar words found others ∧ f found = value := by
  intro text value others
  constructor
  · rintro ⟨rest, runs, rfl⟩
    obtain ⟨found, run, same⟩ := map_eq_ok.mp runs
    exact ⟨found, reads.words run, same⟩
  · rintro ⟨found, holds, same⟩
    obtain ⟨rest, run, left⟩ := (reads text found others).mpr holds
    exact ⟨rest, map_eq_ok.mpr ⟨found, run, same⟩, left⟩

theorem bind {next : α → Scan Text β} {after : α → WordGrammar β} (reads : ByWords scan grammar)
    (reads' : ∀ found, ByWords (next found) (after found)) :
    ByWords (scan >>= next) fun words value others =>
      ∃ found middle, grammar words found middle ∧ after found middle value others := by
  intro text value others
  constructor
  · rintro ⟨rest, runs, rfl⟩
    obtain ⟨found, middle, run, run'⟩ := bind_eq_ok.mp runs
    exact ⟨found, middle.words, reads.words run, (reads' found).words run'⟩
  · rintro ⟨found, middle, holds, holds'⟩
    obtain ⟨rest, run, rfl⟩ := (reads text found middle).mpr holds
    obtain ⟨rest', run', left⟩ := (reads' found rest value others).mpr holds'
    exact ⟨rest', bind_eq_ok.mpr ⟨found, rest, run, run'⟩, left⟩

theorem perhaps {next : Option α → Scan Text β} {after : α → WordGrammar β}
    {instead : WordGrammar β} (reads : ByWords scan grammar)
    (reads' : ∀ found, ByWords (next (some found)) (after found))
    (reads'' : ByWords (next none) instead) :
    ByWords (Scan.optionally scan >>= next) fun words value others =>
      (∃ found middle, grammar words found middle ∧ after found middle value others) ∨
        (∀ found middle, ¬ grammar words found middle) ∧ instead words value others := by
  intro text value others
  constructor
  · intro given
    obtain ⟨rest, runs, rfl⟩ := given
    obtain ⟨found, middle, run, run'⟩ := bind_eq_ok.mp runs
    cases found with
    | some first =>
      have holds := reads.words (optionally_eq_some.mp run)
      exact .inl ⟨first, middle.words, holds, (reads' first).words run'⟩
    | none =>
      obtain ⟨rfl, failure, left, refused⟩ := optionally_eq_none.mp run
      exact .inr ⟨reads.none_of_refused refused, reads''.words run'⟩
  · intro given
    rcases given with ⟨found, middle, holds, holds'⟩ | ⟨absent, holds⟩
    · obtain ⟨left, run, rfl⟩ := (reads text found middle).mpr holds
      obtain ⟨rest, run', same⟩ := (reads' found left value others).mpr holds'
      exact ⟨rest, bind_eq_ok.mpr ⟨some found, left, optionally_eq_some.mpr run, run'⟩, same⟩
    · obtain ⟨failure, left, refused⟩ := reads.refuses absent
      obtain ⟨rest, run, same⟩ := (reads'' text value others).mpr holds
      have none := optionally_eq_none.mpr ⟨rfl, failure, left, refused⟩
      exact ⟨rest, bind_eq_ok.mpr ⟨Option.none, text, none, run⟩, same⟩

/-- An alternative is tried after the first scan refused, so that it must not read what that one
    reads. -/
theorem otherwise {second : Scan Text α} (reads : ByWords scan grammar) (restores : Restores scan)
    (reads' : ByWords second other)
    (apart : ∀ words value value' others others',
      grammar words value others → ¬ other words value' others') :
    ByWords (Scan.otherwise scan second) fun words value others =>
      grammar words value others ∨ other words value others := by
  intro text value others
  constructor
  · rintro ⟨rest, runs, rfl⟩
    obtain ⟨result, middle, run, run'⟩ := bind_eq_ok.mp runs
    rcases outcome_eq_ok.mp run with ⟨found, success, rfl⟩ | ⟨failure, refused, rfl⟩
    · cases run'
      exact .inl (reads.words success)
    · rw [restores refused] at run'
      exact .inr (reads'.words run')
  · rintro (holds | holds)
    · obtain ⟨rest, run, left⟩ := (reads text value others).mpr holds
      exact ⟨rest, bind_eq_ok.mpr ⟨_, _, outcome_ok run, rfl⟩, left⟩
    · obtain ⟨failure, left, refused⟩ : ∃ failure left, scan text = .error failure left :=
        reads.refuses fun value' others' holds' => apart _ _ _ _ _ holds' holds
      rw [restores refused] at refused
      obtain ⟨rest, run, same⟩ := (reads' text value others).mpr holds
      exact ⟨rest, bind_eq_ok.mpr ⟨_, _, outcome_error refused, run⟩, same⟩

end ByWords

inductive Many (grammar : WordGrammar α) : WordGrammar (List α)
  | stop {words} : (∀ value others, ¬ grammar words value others) → Many grammar words [] words
  | more {words value middle values others} : grammar words value middle →
      Many grammar middle values others → Many grammar words (value :: values) others

theorem Many.stopped {words others : List Text} {values : List α}
    (many : Many grammar words values others) (value : α) (left : List Text) :
    ¬ grammar others value left := by
  induction many with
  | stop absent => exact absent value left
  | more _ _ ih => exact ih

theorem Many.each {p : α → Prop} (reads : ByWords scan grammar)
    (each : ∀ {words value others}, (∀ word ∈ words, Text.IsWord word) →
      grammar words value others → p value)
    {words others : List Text} {values : List α} (all : ∀ word ∈ words, Text.IsWord word)
    (many : Many grammar words values others) : ∀ value ∈ values, p value := by
  induction many with
  | stop _ => exact List.forall_mem_nil _
  | more first _ ih =>
    exact List.forall_mem_cons.mpr ⟨each all first, ih (reads.areWords all first)⟩

theorem ByWords.many_of_collect (reads : ByWords scan grammar) (passes : Passes 1 scan) {limit : Nat}
    (above : text.length < limit) {values : List α} {rest : Text}
    (runs : collect limit (optionally scan) text = .ok values rest) :
    Many grammar text.words values rest.words := by
  -- By induction on the limit, which stays above the length of what is left.
  induction limit generalizing text values with
  | zero => omega
  | succ limit ih =>
    obtain ⟨found, middle, run, runs⟩ := bind_eq_ok.mp runs
    cases found with
    | none =>
      cases runs
      obtain ⟨rfl, failure, left, refused⟩ := optionally_eq_none.mp run
      exact .stop (reads.none_of_refused refused)
    | some first =>
      obtain ⟨others, left, runs, same⟩ := bind_eq_ok.mp runs
      cases same
      have success := optionally_eq_some.mp run
      have shorter := passes.length success
      exact .more (reads.words success) (ih (by omega) runs)

theorem ByWords.collect_of_many (reads : ByWords scan grammar) (passes : Passes 1 scan) {limit : Nat}
    (above : text.length < limit) {values : List α} {others : List Text}
    (many : Many grammar text.words values others) :
    ∃ rest, collect limit (optionally scan) text = .ok values rest ∧ rest.words = others := by
  -- By induction on the values: each is what the scan reads from what the ones before it leave.
  generalize start : text.words = words at many
  induction many generalizing text limit with
  | stop absent =>
    obtain ⟨less, rfl⟩ : ∃ less, limit = less + 1 := ⟨limit - 1, by omega⟩
    subst start
    obtain ⟨failure, left, refused⟩ := reads.refuses absent
    have run := optionally_eq_none.mpr ⟨rfl, failure, left, refused⟩
    exact ⟨text, bind_eq_ok.mpr ⟨none, text, run, rfl⟩, rfl⟩
  | more first _ ih =>
    obtain ⟨less, rfl⟩ : ∃ less, limit = less + 1 := ⟨limit - 1, by omega⟩
    subst start
    obtain ⟨middle, run, same⟩ := (reads text _ _).mpr first
    have shorter := passes.length run
    obtain ⟨rest, runs, left⟩ := @ih middle less (by omega) same
    refine ⟨rest, bind_eq_ok.mpr ⟨_, middle, optionally_eq_some.mpr run, ?_⟩, left⟩
    exact bind_eq_ok.mpr ⟨_, _, runs, rfl⟩

theorem ByWords.collectAll (reads : ByWords scan grammar) (passes : Passes 1 scan) :
    ByWords (Scan.collectAll (optionally scan)) (Many grammar) := by
  intro text values others
  have above := Nat.lt_succ_self text.length
  rw [collectAll_eq (advances_optionally passes) above]
  constructor
  · rintro ⟨rest, runs, rfl⟩
    exact reads.many_of_collect passes above runs
  · exact reads.collect_of_many passes above

end Scan

end NetTrace
