import NetTrace.Proofs.Lexing.Rules

namespace NetTrace.Rule

open Scan Text

/-- The tokens of a rule, each lexed from what the one before it leaves, up to the first refusal. -/
inductive Exhausts (rule : Rule) : Text → List Text → Text → Prop
  | stop {text failure} : rule.lex text = .error failure → Exhausts rule text [] text
  | more {text token rest tokens left} : rule.lex text = .ok (rest, token) →
      Exhausts rule rest tokens left → Exhausts rule text (token :: tokens) left

variable {rule : Rule} {grammar : WordGrammar Text} {text rest token left right whole : Text}
  {tokens : List Text}

section Runs

theorem Exhausts.unique (exhausts : Exhausts rule text tokens rest) {tokens' : List Text} {rest' : Text}
    (exhausts' : Exhausts rule text tokens' rest') : tokens' = tokens ∧ rest' = rest := by
  induction exhausts generalizing tokens' with
  | stop refused =>
    cases exhausts' with
    | stop _ => exact ⟨rfl, rfl⟩
    | more lexed _ =>
      rw [refused] at lexed
      contradiction
  | more lexed _ ih =>
    cases exhausts' with
    | stop refused =>
      rw [lexed] at refused
      contradiction
    | more lexed' others =>
      rw [lexed] at lexed'
      obtain ⟨rfl, rfl⟩ := Prod.mk.inj (Except.ok.inj lexed')
      obtain ⟨rfl, rfl⟩ := ih others
      exact ⟨rfl, rfl⟩

theorem Exhausts.refused (exhausts : Exhausts rule text tokens rest) :
    ∃ failure, rule.lex rest = .error failure := by
  induction exhausts with
  | stop refused => exact ⟨_, refused⟩
  | more _ _ ih => exact ih

theorem Exhausts.lexed (exhausts : Exhausts rule text tokens rest) :
    ∀ token ∈ tokens, ∃ before after, rule.lex before = .ok (after, token) := by
  induction exhausts with
  | stop _ => exact List.forall_mem_nil _
  | more lexed _ ih => exact List.forall_mem_cons.mpr ⟨⟨_, _, lexed⟩, ih⟩

theorem lex_settled (lexed : rule.lex text = .ok (rest, token)) : rest.dropWhile isBlank = rest := by
  obtain ⟨left, -, rfl⟩ := lex_iff_read.mp lexed
  exact dropWhile_dropWhile _ _

theorem Exhausts.settled (exhausts : Exhausts rule text tokens rest)
    (settled : tokens ≠ [] ∨ text.dropWhile isBlank = text) : rest.dropWhile isBlank = rest := by
  induction exhausts with
  | stop _ => exact settled.resolve_left fun some => some rfl
  | more lexed _ ih => exact ih (.inr (lex_settled lexed))

end Runs

section Loops

theorem refused_of_read {failure : Failure} (refused : rule.read text = .error failure rest) :
    ∃ failure, rule.lex text = .error failure := by
  cases lexed : rule.lex text with
  | ok found =>
    obtain ⟨_, read, -⟩ := lex_iff_read.mp lexed
    rw [refused] at read
    contradiction
  | error failure => exact ⟨failure, rfl⟩

theorem refused_of_isOk (refused : (rule.lex text).isOk = false) :
    ∃ failure, rule.lex text = .error failure := by
  cases lexed : rule.lex text with
  | ok found =>
    rw [lexed] at refused
    contradiction
  | error failure => exact ⟨failure, rfl⟩

theorem lex_of_words (reads : ByWords rule.read grammar) (passes : Passes 0 rule.read)
    (hl : left <:+ whole) (hr : right <:+ whole) (same : left.words = right.words)
    (lexed : rule.lex left = .ok (rest, token)) : rule.lex right = .ok (rest, token) := by
  obtain ⟨after, run, rfl⟩ := lex_iff_read.mp lexed
  obtain ⟨after', run', same'⟩ := reads.transfers same run
  have ending : ∀ {text rest : Text}, rule.read text = .ok token rest → rest <:+ text := by
    intro text rest run
    obtain ⟨front, split, -⟩ := passes run
    exact ⟨front, split.symm⟩
  have alike := alike_of_words ((ending run).trans hl) ((ending run').trans hr) same'.symm
  exact lex_iff_read.mpr ⟨after', run', alike⟩

theorem lex_dropWhile (reads : ByWords rule.read grammar) (passes : Passes 0 rule.read) :
    rule.lex (text.dropWhile isBlank) = .ok (rest, token) ↔ rule.lex text = .ok (rest, token) := by
  have ending : text.dropWhile isBlank <:+ text := List.dropWhile_suffix isBlank
  have same := words_dropWhile text
  constructor
  · exact lex_of_words reads passes ending List.suffix_rfl same
  · exact lex_of_words reads passes List.suffix_rfl ending same.symm

theorem refused_dropWhile (reads : ByWords rule.read grammar) (passes : Passes 0 rule.read) :
    (∃ failure, rule.lex (text.dropWhile isBlank) = .error failure) ↔
      ∃ failure, rule.lex text = .error failure := by
  cases lexed : rule.lex text with
  | ok found =>
    rw [(lex_dropWhile reads passes).mpr lexed]
  | error failure =>
    cases lexed' : rule.lex (text.dropWhile isBlank) with
    | ok found =>
      rw [(lex_dropWhile reads passes).mp lexed'] at lexed
      contradiction
    | error failure' => simp

theorem exhausts_of_collect (reads : ByWords rule.read grammar) (passes : Passes 1 rule.read)
    {limit : Nat} (above : text.length < limit)
    (runs : collect limit (optionally rule.read) text = .ok tokens left) :
    Exhausts rule (text.dropWhile isBlank) tokens (left.dropWhile isBlank) := by
  -- By induction on the limit, which stays above the length of what is left.
  induction limit generalizing text tokens with
  | zero => omega
  | succ limit ih =>
    have passes' := passes.mono (Nat.zero_le 1)
    obtain ⟨found, middle, run, runs⟩ := bind_eq_ok.mp runs
    cases found with
    | none =>
      cases runs
      obtain ⟨rfl, failure, after, refused⟩ := optionally_eq_none.mp run
      obtain ⟨failure, refused⟩ := (refused_dropWhile reads passes').mpr (refused_of_read refused)
      exact .stop refused
    | some first =>
      obtain ⟨others, after, runs, same⟩ := bind_eq_ok.mp runs
      cases same
      have read := optionally_eq_some.mp run
      have shorter := passes.length read
      have lexed : rule.lex text = .ok (middle.dropWhile isBlank, first) :=
        lex_iff_read.mpr ⟨middle, read, rfl⟩
      exact .more ((lex_dropWhile reads passes').mpr lexed) (ih (by omega) runs)

theorem exists_collected (reads : ByWords rule.read grammar) (passes : Passes 1 rule.read)
    (alike : Alike text whole) : ∃ tokens rest left, Exhausts rule text tokens rest ∧
      collectAll (optionally rule.read) whole = .ok tokens left ∧ Alike rest left := by
  have above := Nat.lt_succ_self whole.length
  obtain ⟨tokens, left, runs⟩ := collect_goes (optionally_goes rule.read) (whole.length + 1) whole
  have exhausts := exhausts_of_collect reads passes above runs
  have all : collectAll (optionally rule.read) whole = .ok tokens left := by
    rw [collectAll_eq (advances_optionally passes) above, runs]
  have passes' := passes.mono (Nat.zero_le 1)
  rw [← alike] at exhausts
  generalize same : left.dropWhile isBlank = after at exhausts
  cases exhausts with
  | stop refused =>
    obtain ⟨failure, refused⟩ := (refused_dropWhile reads passes').mp ⟨_, refused⟩
    exact ⟨[], text, left, .stop refused, all, same.symm⟩
  | more lexed others =>
    subst same
    exact ⟨_, _, left, .more ((lex_dropWhile reads passes').mp lexed) others, all, .dropWhile left⟩

end Loops

end NetTrace.Rule
