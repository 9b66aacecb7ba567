import NetTrace.Text.Basic

namespace NetTrace.Text

theorem precedes_cons {a b : Char} {left right : Text} :
    precedes (a :: left) (b :: right) = true ↔
      a.toNat < b.toNat ∨ a = b ∧ precedes left right = true := by
  simp only [precedes, Bool.or_eq_true, decide_eq_true_eq, Bool.and_eq_true, beq_iff_eq]

theorem precedes_total (left right : Text) : (precedes left right || precedes right left) = true := by
  induction left generalizing right with
  | nil => rfl
  | cons a left ih =>
    cases right with
    | nil => rfl
    | cons b right =>
      rw [Bool.or_eq_true, precedes_cons, precedes_cons]
      rcases Nat.lt_trichotomy a.toNat b.toNat with less | same | more
      · exact .inl (.inl less)
      · have equal : a = b := Char.toNat_inj.mp same
        have either := ih right
        rw [Bool.or_eq_true] at either
        rcases either with before | after
        · exact .inl (.inr ⟨equal, before⟩)
        · exact .inr (.inr ⟨equal.symm, after⟩)
      · exact .inr (.inl more)

theorem precedes_trans (left middle right : Text) (first : precedes left middle = true)
    (second : precedes middle right = true) : precedes left right = true := by
  induction left generalizing middle right with
  | nil => rfl
  | cons a left ih =>
    cases middle with
    | nil => contradiction
    | cons b middle =>
      cases right with
      | nil => contradiction
      | cons c right =>
        rw [precedes_cons] at first second ⊢
        rcases first with less | ⟨rfl, first⟩
        · rcases second with less' | ⟨rfl, -⟩
          · exact .inl (Nat.lt_trans less less')
          · exact .inl less
        · rcases second with less' | ⟨rfl, second⟩
          · exact .inl less'
          · exact .inr ⟨rfl, ih middle right first second⟩

theorem precedes_antisymm {left right : Text} (first : precedes left right = true)
    (second : precedes right left = true) : left = right := by
  induction left generalizing right with
  | nil =>
    cases right with
    | nil => rfl
    | cons b right => contradiction
  | cons a left ih =>
    cases right with
    | nil => contradiction
    | cons b right =>
      rw [precedes_cons] at first second
      rcases first with less | ⟨rfl, first⟩
      · rcases second with less' | ⟨rfl, -⟩
        · omega
        · omega
      · rcases second with less' | ⟨-, second⟩
        · omega
        · rw [ih first second]

end NetTrace.Text
