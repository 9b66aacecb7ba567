import NetTrace.Text.Numeral
import Mathlib.Data.List.Induction
import Mathlib.Data.Nat.Digits.Defs
import Mathlib.Tactic.Ring

namespace NetTrace.Numeral

theorem digitValue_of_isDigit {c : Char} (h : c.isDigit = true) :
    digitValue c = c.toNat - '0'.toNat := by
  rw [digitValue, if_pos h]

theorem foldl_digits {digits : Text} (all : ∀ c ∈ digits, c.isDigit = true) (sum : Nat) :
    digits.foldl (fun sum c => sum * 10 + digitValue c) sum = Nat.ofDigitChars 10 digits sum := by
  induction digits generalizing sum with
  | nil => rw [Nat.ofDigitChars_nil, List.foldl_nil]
  | cons c digits ih =>
    have first := digitValue_of_isDigit (all c (List.mem_cons_self ..))
    rw [List.foldl_cons, Nat.ofDigitChars_cons, first, Nat.mul_comm sum]
    exact ih (fun d member => all d (List.mem_cons_of_mem _ member)) _

theorem isDigit_of_mem_decimal {n : Nat} {c : Char} (member : c ∈ decimal n) : c.isDigit = true :=
  Nat.isDigit_of_mem_toDigits (by decide) (by decide) member

theorem decimal_ne_nil (n : Nat) : decimal n ≠ [] := Nat.toDigits_ne_nil

theorem value_decimal (n : Nat) : value 10 (decimal n) = n := by
  rw [value, foldl_digits fun _ => isDigit_of_mem_decimal]
  exact Nat.ofDigitChars_ten_toDigits

theorem word64?_decimal (n : UInt64) : word64? 10 (decimal n.toNat) = some n := by
  rw [word64?, value_decimal, if_pos n.toNat_lt, UInt64.ofNat_toNat]

theorem word32?_cases (base : Nat) (digits : Text) :
    (value base digits < 2 ^ 32 ∧ ∃ n, word32? base digits = some n ∧ n.toNat = value base digits) ∨
      (¬ value base digits < 2 ^ 32 ∧ word32? base digits = none) := by
  by_cases fits : value base digits < 2 ^ 32
  · exact .inl ⟨fits, _, if_pos fits, UInt32.toNat_ofNat_of_lt' fits⟩
  · exact .inr ⟨fits, if_neg fits⟩

theorem word64?_cases (base : Nat) (digits : Text) :
    (value base digits < 2 ^ 64 ∧ ∃ n, word64? base digits = some n ∧ n.toNat = value base digits) ∨
      (¬ value base digits < 2 ^ 64 ∧ word64? base digits = none) := by
  by_cases fits : value base digits < 2 ^ 64
  · exact .inl ⟨fits, _, if_pos fits, UInt64.toNat_ofNat_of_lt' fits⟩
  · exact .inr ⟨fits, if_neg fits⟩

theorem length_decimal_le {n count : Nat} (positive : 0 < count) :
    (decimal n).length ≤ count ↔ n < 10 ^ count :=
  Nat.length_toDigits_le_iff (by decide) positive

theorem foldl_value (base : Nat) (digits : Text) (sum : Nat) :
    digits.foldl (fun sum c => sum * base + digitValue c) sum =
      sum * base ^ digits.length + value base digits := by
  induction digits generalizing sum with
  | nil => simp [value]
  | cons c digits ih =>
    have first := ih (0 * base + digitValue c)
    rw [value, List.foldl_cons, List.foldl_cons, ih, first, List.length_cons]
    ring

theorem value_append (base : Nat) (left right : Text) :
    value base (left ++ right) = value base left * base ^ right.length + value base right := by
  rw [value, List.foldl_append, foldl_value]
  rfl

theorem value_zeros (base count : Nat) : value base (List.replicate count '0') = 0 := by
  induction count with
  | zero => rfl
  | succ count ih =>
    rw [List.replicate_succ, ← List.singleton_append, value_append, ih]
    simp [value, digitValue]

section Positional

def rank (c : Char) : Nat := "0123456789abcdef".toList.idxOf c.toLower

/-- The sum of the ranks of the digits, each times the power of the base that belongs to its place. -/
def positional (base : Nat) (digits : Text) : Nat := Nat.ofDigits base (digits.reverse.map rank)

theorem toNat_of_digitValue {c : Char} (digit : digitValue c < 16) : c.toNat < 128 := by
  unfold digitValue at digit
  split at digit
  · rename_i isDigit
    simp [Char.isDigit, UInt32.le_iff_toNat_le] at isDigit
    omega
  · split at digit
    · rename_i lower
      have bound : c.toNat ≤ 122 := lower.2
      omega
    · split at digit
      · rename_i upper
        have bound : c.toNat ≤ 90 := upper.2
        omega
      · omega

theorem rank_eq {c : Char} (digit : digitValue c < 16) : rank c = digitValue c := by
  have checked : ∀ n < 128, digitValue (Char.ofNat n) < 16 →
      rank (Char.ofNat n) = digitValue (Char.ofNat n) := by decide
  have same := checked c.toNat (toNat_of_digitValue digit)
  rw [Char.ofNat_toNat] at same
  exact same digit

theorem positional_append (base : Nat) (digits : Text) (c : Char) :
    positional base (digits ++ [c]) = positional base digits * base + rank c := by
  simp only [positional, List.reverse_append, List.reverse_singleton, List.singleton_append,
    List.map_cons, Nat.ofDigits_cons]
  ring

theorem value_eq_positional {base : Nat} {digits : Text} (all : ∀ c ∈ digits, digitValue c < 16) :
    value base digits = positional base digits := by
  -- By induction from the last digit, which is the one that is added last.
  induction digits using List.reverseRecOn with
  | nil => rfl
  | append_singleton digits c ih =>
    obtain ⟨front, last⟩ := List.forall_mem_append.mp all
    have digit := last c (List.mem_singleton_self c)
    have one : value base [c] = digitValue c := by simp [value]
    rw [value_append, positional_append, ih front, rank_eq digit, one, List.length_singleton, pow_one]

theorem positional_zeros (base count : Nat) (digits : Text) :
    positional base (List.replicate count '0' ++ digits) = positional base digits := by
  have zero : rank '0' = 0 := by decide
  rw [positional, positional, List.reverse_append, List.map_append, List.reverse_replicate,
    List.map_replicate, zero, Nat.ofDigits_append_replicate_zero]

end Positional

end NetTrace.Numeral
