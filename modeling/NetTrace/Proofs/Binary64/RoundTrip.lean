import NetTrace.Binary64.Read
import NetTrace.Proofs.Binary64.Nearest
import NetTrace.Proofs.Text.Blanks
import NetTrace.Proofs.Text.Numeral

namespace NetTrace.Binary64

open Numeral (decimal value)

section Shortest

variable {near : Neighbourhood} {significand scale : Nat}

theorem holds_exact (nonzero : significand ≠ 0) :
    (neighbourhood significand scale).holds (neighbourhood significand scale).exact = true := by
  have positive : 0 < 2 ^ scale * 5 ^ places :=
    Nat.mul_pos (Nat.two_pow_pos scale) (Nat.pow_pos (by decide))
  unfold neighbourhood Neighbourhood.holds
  dsimp only
  rw [Nat.pow_eq, Nat.pow_eq]
  generalize 2 ^ scale * 5 ^ places = quarter at positive ⊢
  have below : (4 * significand - if significand = hidden ∧ scale ≠ 0 then 1 else 2) * quarter <
      4 * significand * quarter := by
    apply Nat.mul_lt_mul_of_pos_right _ positive
    split <;> omega
  have above : 4 * significand * quarter < (4 * significand + 2) * quarter :=
    Nat.mul_lt_mul_of_pos_right (by omega) positive
  split
  · simp only [Bool.and_eq_true, decide_eq_true_eq]
    exact ⟨Nat.le_of_lt below, Nat.le_of_lt above⟩
  · simp only [Bool.and_eq_true, decide_eq_true_eq]
    exact ⟨below, above⟩

theorem holds_of_multiple {step n : Nat} (found : near.multiple? step = some n) :
    near.holds (n * step) = true := by
  unfold Neighbourhood.multiple? at found
  dsimp only at found
  split at found
  · split at found <;> cases found <;> assumption
  · cases found
    assumption
  · cases found
    assumption
  · cases found

theorem holds_coarsest (exact : near.holds near.exact = true) (power : Nat) :
    near.holds ((near.coarsest power).1 * 10 ^ (near.coarsest power).2) = true := by
  induction power with
  | zero => simpa [Neighbourhood.coarsest] using exact
  | succ power ih =>
    unfold Neighbourhood.coarsest
    cases found : near.multiple? (Nat.pow 10 (power + 1)) with
    | some n => exact holds_of_multiple found
    | none => exact ih

theorem holds_shortest (nonzero : significand ≠ 0) :
    (neighbourhood significand scale).holds
      ((shortest significand scale).1 * 10 ^ (shortest significand scale).2) = true :=
  holds_coarsest (holds_exact nonzero) _

end Shortest

section Decimals

variable {whole fraction digits : Text}

theorem readDecimal?_whole (some : digits ≠ []) (all : ∀ c ∈ digits, c.isDigit = true) :
    readDecimal? digits = .some (digits, 0) := by
  have front := Text.takeWhile_of_stops all (Text.stops_nil _)
  have rest := Text.dropWhile_of_stops all (Text.stops_nil _)
  rw [List.append_nil] at front rest
  simp [readDecimal?, front, rest, some]

theorem readDecimal?_point (some : whole ≠ []) (all : ∀ c ∈ whole, c.isDigit = true)
    (all' : ∀ c ∈ fraction, c.isDigit = true) :
    readDecimal? (whole ++ '.' :: fraction) =
      .some (whole ++ fraction, -(fraction.length : Int)) := by
  have stops : Text.Stops Char.isDigit ('.' :: fraction) := Text.stops_cons.mpr (by decide)
  have front := Text.takeWhile_of_stops all stops
  have rest := Text.dropWhile_of_stops all stops
  have front' := Text.takeWhile_of_stops all' (Text.stops_nil _)
  have rest' := Text.dropWhile_of_stops all' (Text.stops_nil _)
  rw [List.append_nil] at front' rest'
  simp [readDecimal?, front, rest, front', rest', some]

theorem isDigit_of_mem_zeros (count : Nat) : ∀ c ∈ List.replicate count '0', c.isDigit = true := by
  intro c member
  rw [List.eq_of_mem_replicate member]
  rfl

/-- The digits of a multiple of `10 ^ power`, in units of `10 ^ -1076`, before and after the point. -/
structure Digits (n power : Nat) (whole fraction : Text) : Prop where
  some : whole ≠ []
  all : ∀ c ∈ whole, c.isDigit = true
  all' : ∀ c ∈ fraction, c.isDigit = true
  fits : fraction.length ≤ places
  total : value 10 (whole ++ fraction) * 10 ^ (places - fraction.length) = n * 10 ^ power

theorem Digits.read {n power : Nat} (digits : Digits n power whole fraction) :
    readDecimal? (if fraction = [] then whole else whole ++ '.' :: fraction) =
      .some (whole ++ fraction, -(fraction.length : Int)) := by
  split
  · rename_i none
    rw [none, List.append_nil]
    exact readDecimal?_whole digits.some digits.all
  · exact readDecimal?_point digits.some digits.all digits.all'

theorem isDigit_of_mem_append {left right : Text} (hl : ∀ c ∈ left, c.isDigit = true)
    (hr : ∀ c ∈ right, c.isDigit = true) : ∀ c ∈ left ++ right, c.isDigit = true := by
  intro c member
  exact (List.mem_append.mp member).elim (hl c) (hr c)

theorem Digits.integer {n power : Nat} (above : places ≤ power) :
    Digits n power (decimal n ++ List.replicate (power - places) '0') [] where
  some := List.append_ne_nil_of_left_ne_nil (Numeral.decimal_ne_nil n) _
  all := isDigit_of_mem_append (fun _ => Numeral.isDigit_of_mem_decimal) (isDigit_of_mem_zeros _)
  all' := List.forall_mem_nil _
  fits := Nat.zero_le _
  total := by
    rw [List.append_nil, List.length_nil, Numeral.value_append, Numeral.value_zeros,
      Numeral.value_decimal, List.length_replicate, Nat.add_zero, Nat.mul_assoc, ← Nat.pow_add]
    congr 2
    omega

theorem Digits.padded {n power count : Nat} (below : power ≤ places)
    (length : count + (decimal n).length = places - power) :
    Digits n power ['0'] (List.replicate count '0' ++ decimal n) := by
  have size : (List.replicate count '0' ++ decimal n).length = places - power := by
    rw [List.length_append, List.length_replicate, length]
  have zero : value 10 ['0'] = 0 := Numeral.value_zeros 10 1
  have total : value 10 (['0'] ++ (List.replicate count '0' ++ decimal n)) = n := by
    rw [Numeral.value_append, Numeral.value_append, Numeral.value_zeros, zero, Numeral.value_decimal,
      Nat.zero_mul, Nat.zero_mul, Nat.zero_add, Nat.zero_add]
  refine ⟨List.cons_ne_nil _ _, by simp, ?_, ?_, ?_⟩
  · exact isDigit_of_mem_append (isDigit_of_mem_zeros _) fun _ => Numeral.isDigit_of_mem_decimal
  · rw [size]
    exact Nat.sub_le _ _
  · rw [size, total, Nat.sub_sub_self below]

theorem Digits.parted {n power front : Nat} (below : power ≤ places) (some : 0 < front)
    (length : front + (places - power) = (decimal n).length) :
    Digits n power ((decimal n).take front) ((decimal n).drop front) := by
  have all : ∀ c ∈ decimal n, c.isDigit = true := fun _ => Numeral.isDigit_of_mem_decimal
  have size : ((decimal n).drop front).length = places - power := by
    rw [List.length_drop]
    omega
  have before : (decimal n).take front ≠ [] := by
    apply List.ne_nil_of_length_pos
    rw [List.length_take]
    omega
  refine ⟨before, fun c member => all c (List.mem_of_mem_take member),
    fun c member => all c (List.mem_of_mem_drop member), ?_, ?_⟩
  · rw [size]
    exact Nat.sub_le _ _
  · rw [size, List.take_append_drop, Numeral.value_decimal, Nat.sub_sub_self below]

theorem positional_digits (n power : Nat) :
    ∃ whole fraction, Digits n power whole fraction ∧
      positional n power = if fraction = [] then whole else whole ++ '.' :: fraction := by
  have some := List.length_pos_iff.mpr (Numeral.decimal_ne_nil n)
  unfold positional
  by_cases above : places ≤ power
  · simp only [if_pos above]
    exact ⟨_, [], .integer above, rfl⟩
  · have below : power ≤ places := by omega
    simp only [if_neg above]
    by_cases short : (decimal n).length ≤ places - power
    · have behind := List.append_ne_nil_of_right_ne_nil
        (List.replicate (places - power - (decimal n).length) '0') (Numeral.decimal_ne_nil n)
      simp only [if_pos short]
      exact ⟨_, _, .padded below (by omega), (if_neg behind).symm⟩
    · have behind : (decimal n).drop ((decimal n).length - (places - power)) ≠ [] := by
        apply List.ne_nil_of_length_pos
        rw [List.length_drop]
        omega
      simp only [if_neg short]
      exact ⟨_, _, .parted below (by omega) (by omega), (if_neg behind).symm⟩

end Decimals

section Reading

variable {negative : Bool} {significand scale n count : Nat}

theorem le_length_decimal {unit extra : Nat} (small : unit ≤ 10 ^ extra)
    (above : 10 ^ count ≤ n * unit) : count ≤ (decimal n).length + extra := by
  have some := List.length_pos_iff.mpr (Numeral.decimal_ne_nil n)
  have digits : n < 10 ^ (decimal n).length :=
    (Numeral.length_decimal_le some).mp (Nat.le_refl _)
  have most : 10 ^ count ≤ 10 ^ ((decimal n).length + extra) := by
    calc 10 ^ count ≤ n * unit := above
      _ ≤ 10 ^ (decimal n).length * 10 ^ extra := Nat.mul_le_mul (Nat.le_of_lt digits) small
      _ = 10 ^ ((decimal n).length + extra) := (Nat.pow_add 10 _ _).symm
  exact (Nat.pow_le_pow_iff_right (by decide)).mp most

theorem length_decimal_le_of_lt {unit extra bound : Nat} (positive : 0 < extra)
    (large : bound < 10 ^ extra * unit) (below : n * unit ≤ bound * 10 ^ count) :
    (decimal n).length ≤ extra + count := by
  rw [Numeral.length_decimal_le (by omega), Nat.pow_add]
  have step : n * unit < 10 ^ extra * 10 ^ count * unit := by
    calc n * unit ≤ bound * 10 ^ count := below
      _ < 10 ^ extra * unit * 10 ^ count :=
        Nat.mul_lt_mul_of_pos_right large (Nat.pow_pos (by decide))
      _ = 10 ^ extra * 10 ^ count * unit := Nat.mul_right_comm _ _ _
  exact Nat.lt_of_mul_lt_mul_right step

/-- A decimal in the neighbourhood of a number is not beyond the magnitudes that are settled by
    their number of digits. -/
theorem order_of_near (canonical : (Binary64.finite negative significand scale).Canonical)
    (nonzero : significand ≠ 0) (near : Near significand scale (n * 2 ^ 1074) (10 ^ count)) :
    count ≤ (decimal n).length + 330 ∧ (decimal n).length ≤ 310 + count := by
  obtain ⟨small, inRange, -⟩ := canonical
  have tens : 2 * 2 ^ 1074 ≤ 10 ^ 330 := by decide +kernel
  have tens' : 4 * (2 * hidden) * 2 ^ maxScale < 10 ^ 310 * (4 * 2 ^ 1074) := by decide +kernel
  have above := near.above
  have below := near.below
  generalize 2 ^ 1074 = unit at tens tens' above below
  constructor
  · apply le_length_decimal tens
    have step : 2 * 10 ^ count ≤ 4 * (n * unit) := by
      refine Nat.le_trans (Nat.mul_le_mul ?_ ?_) above
      · split <;> omega
      · exact Nat.le_mul_of_pos_right _ (Nat.two_pow_pos scale)
    rw [Nat.mul_left_comm]
    omega
  · apply length_decimal_le_of_lt (by decide) tens'
    calc n * (4 * unit) = 4 * (n * unit) := Nat.mul_left_comm n 4 unit
      _ ≤ (4 * significand + 2) * (10 ^ count * 2 ^ scale) := below
      _ ≤ 4 * (2 * hidden) * (10 ^ count * 2 ^ maxScale) :=
        Nat.mul_le_mul (by omega) (Nat.mul_le_mul_left _ (Nat.pow_le_pow_right (by decide) inRange))
      _ = 4 * (2 * hidden) * 2 ^ maxScale * 10 ^ count := by
        rw [Nat.mul_comm (10 ^ count), ← Nat.mul_assoc]

/-- A power of ten is a power of five in units that are a quarter of a power of two. -/
theorem tens_of_units {all twos : Nat} (split : all = 2 + twos) (fits : count ≤ all) :
    4 * (n * 2 ^ twos) * 5 ^ all = n * 10 ^ (all - count) * 10 ^ count := by
  have tens : 10 ^ all = 2 ^ all * 5 ^ all := Nat.mul_pow 2 5 all
  have twos' : 2 ^ all = 4 * 2 ^ twos := by rw [split, Nat.pow_add]
  rw [Nat.mul_assoc n, ← Nat.pow_add, Nat.sub_add_cancel fits, tens, twos']
  ring

theorem ofDecimal_of_holds (canonical : (Binary64.finite negative significand scale).Canonical)
    (nonzero : significand ≠ 0) (fits : count ≤ places)
    (holds : (neighbourhood significand scale).holds (n * 10 ^ (places - count)) = true) :
    ofDecimal negative n (-(count : Int)) = .finite negative significand scale := by
  have positive : 0 < 10 ^ count := Nat.pow_pos (by decide)
  have same : 4 * (n * 2 ^ 1074) * 5 ^ places = n * 10 ^ (places - count) * 10 ^ count :=
    tens_of_units rfl fits
  have near := near_of_holds positive same holds
  obtain ⟨low, high⟩ := order_of_near canonical nonzero near
  have some : n ≠ 0 := by
    intro zero
    have above := near.above
    rw [zero, Nat.zero_mul, Nat.mul_zero] at above
    have unit : 0 < 10 ^ count * 2 ^ scale := Nat.mul_pos positive (Nat.two_pow_pos scale)
    have part := Nat.mul_pos (show 0 < 4 * significand -
      if significand = hidden ∧ scale ≠ 0 then 1 else 2 by split <;> omega) unit
    omega
  have read := nearest_of_near canonical nonzero positive near
  have whole : (-(count : Int)).toNat = 0 := by omega
  have part : (- -(count : Int)).toNat = count := by omega
  have pow : ∀ base exponent, Nat.pow base exponent = base ^ exponent := fun _ _ => Nat.pow_eq
  unfold ofDecimal
  dsimp only
  rw [if_neg (by omega), if_neg (by omega), whole, part, pow 10 0, pow 2 1074, pow 10 count,
    Nat.pow_zero, Nat.mul_one, read]

theorem toLower_of_isDigit {c : Char} (digit : c.isDigit = true) : c.toLower = c := by
  simp only [Char.isDigit, Bool.and_eq_true, decide_eq_true_eq, UInt32.le_iff_toNat_le] at digit
  have limit : '9'.val.toNat = 57 := rfl
  have first : 'A'.val.toNat = 65 := rfl
  unfold Char.toLower
  rw [dif_neg]
  intro upper
  have above := upper.1
  simp only [ge_iff_le, UInt32.le_iff_toNat_le] at above
  omega

theorem readMagnitude?_digits {c : Char} {rest : Text} (digit : c.isDigit = true) :
    readMagnitude? negative (c :: rest) = (readDecimal? (c :: rest)).map fun (digits, exponent) =>
      ofDecimal negative (value 10 digits) exponent := by
  have other : ∀ {d : Char} {name : Text}, d.isDigit = false →
      (c :: rest).map Char.toLower ≠ d :: name := by
    intro d name letter same
    have first := (List.cons.inj same).1
    rw [toLower_of_isDigit digit] at first
    rw [first, letter] at digit
    contradiction
  unfold readMagnitude?
  dsimp only
  rw [if_neg, if_neg]
  · exact other (by decide)
  · intro name
    exact name.elim (other (by decide)) (other (by decide))

theorem Digits.starts {power : Nat} {whole fraction : Text} (digits : Digits n power whole fraction) :
    ∃ c rest, (if fraction = [] then whole else whole ++ '.' :: fraction) = c :: rest ∧
      c.isDigit = true := by
  obtain ⟨c, others, rfl⟩ := List.exists_cons_of_ne_nil digits.some
  have first := digits.all c (List.mem_cons_self ..)
  split
  · exact ⟨c, others, rfl, first⟩
  · exact ⟨c, others ++ '.' :: fraction, rfl, first⟩

theorem readMagnitude?_positional (canonical : (Binary64.finite negative significand scale).Canonical)
    (nonzero : significand ≠ 0) {power : Nat}
    (holds : (neighbourhood significand scale).holds (n * 10 ^ power) = true) :
    ∃ c rest, positional n power = c :: rest ∧ c.isDigit = true ∧
      readMagnitude? negative (positional n power) = some (.finite negative significand scale) := by
  obtain ⟨whole, fraction, digits, written⟩ := positional_digits n power
  obtain ⟨c, rest, starts, first⟩ := digits.starts
  have read := digits.read
  rw [← digits.total] at holds
  rw [← written] at starts read
  refine ⟨c, rest, starts, first, ?_⟩
  rw [starts] at read ⊢
  rw [readMagnitude?_digits first, read]
  exact congrArg some (ofDecimal_of_holds canonical nonzero digits.fits holds)

theorem read?_digits {c : Char} {rest : Text} (digit : c.isDigit = true) :
    read? (c :: rest) = readMagnitude? false (c :: rest) := by
  unfold read?
  split
  · rename_i same
    rw [(List.cons.inj same).1] at digit
    contradiction
  · rename_i same
    rw [(List.cons.inj same).1] at digit
    contradiction
  · rfl

theorem render_finite (nonzero : significand ≠ 0) :
    render (.finite negative significand scale) = sign negative ++
      positional (shortest significand scale).1 (shortest significand scale).2 := by
  rw [render]
  -- The pair is named before anything is reduced, since reducing it would compute it.
  generalize shortest significand scale = found
  rcases found with ⟨n, power⟩
  rw [if_neg nonzero]

theorem read?_render {x : Binary64} (canonical : x.Canonical) : read? x.render = some x := by
  cases x with
  | nan => decide
  | infinite negative => cases negative <;> decide
  | finite negative significand scale =>
    by_cases zero : significand = 0
    · subst zero
      obtain ⟨-, -, large | bottom⟩ := canonical
      · contradiction
      · subst bottom
        cases negative <;> rfl
    · obtain ⟨c, rest, starts, first, read⟩ :=
        readMagnitude?_positional canonical zero (holds_shortest zero)
      rw [starts] at read
      rw [render_finite zero, starts]
      cases negative with
      | true => exact read
      | false => exact (read?_digits first).trans read

end Reading

section Canonical

theorem canonical_ofDecimal (negative : Bool) (n : Nat) (exponent : Int) :
    (ofDecimal negative n exponent).Canonical := by
  unfold ofDecimal
  dsimp only
  split
  · exact ⟨by decide, Nat.zero_le _, .inr rfl⟩
  · split
    · exact trivial
    · exact canonical_nearest negative _ _

theorem canonical_readMagnitude {negative : Bool} {text : Text} {x : Binary64}
    (read : readMagnitude? negative text = some x) : x.Canonical := by
  unfold readMagnitude? at read
  dsimp only at read
  split at read
  · cases read
    exact trivial
  · split at read
    · cases read
      exact trivial
    · obtain ⟨decimal, -, rfl⟩ := Option.map_eq_some_iff.mp read
      exact canonical_ofDecimal ..

theorem canonical_read {text : Text} {x : Binary64} (read : read? text = some x) : x.Canonical := by
  unfold read? at read
  split at read <;> exact canonical_readMagnitude read

end Canonical

section Visible

theorem visible_positional (n power : Nat) : ∀ c ∈ positional n power, Text.isBlank c = false := by
  obtain ⟨whole, fraction, digits, written⟩ := positional_digits n power
  rw [written]
  intro c member
  split at member
  · exact Text.visible_of_isDigit (digits.all c member)
  · rcases List.mem_append.mp member with member | member
    · exact Text.visible_of_isDigit (digits.all c member)
    · rcases List.mem_cons.mp member with rfl | member
      · rfl
      · exact Text.visible_of_isDigit (digits.all' c member)

theorem visible_render (x : Binary64) : ∀ c ∈ x.render, Text.isBlank c = false := by
  cases x with
  | nan => exact Text.visible_of_all (by decide)
  | infinite negative => exact Text.visible_of_all (by cases negative <;> decide)
  | finite negative significand scale =>
    have signs : ∀ c ∈ sign negative, Text.isBlank c = false :=
      Text.visible_of_all (by cases negative <;> decide)
    by_cases zero : significand = 0
    · have written : render (.finite negative significand scale) = sign negative ++ ['0'] := by
        rw [render, if_pos zero]
      rw [written]
      exact Text.visible_of_all (by cases negative <;> decide)
    · rw [render_finite zero]
      intro c member
      exact (List.mem_append.mp member).elim (signs c) (visible_positional _ _ c)

end Visible

end NetTrace.Binary64
