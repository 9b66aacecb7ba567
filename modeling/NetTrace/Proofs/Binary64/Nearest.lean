import NetTrace.Binary64.Shortest
import Mathlib.Tactic.Linarith
import Mathlib.Tactic.Ring

namespace NetTrace.Binary64

variable {numerator denominator n : Nat}

theorem roundHalfEven_ge (numerator denominator : Nat) :
    numerator / denominator ≤ roundHalfEven numerator denominator := by
  unfold roundHalfEven
  dsimp only
  split <;> omega

theorem roundHalfEven_le (numerator denominator : Nat) :
    roundHalfEven numerator denominator ≤ numerator / denominator + 1 := by
  unfold roundHalfEven
  dsimp only
  split <;> omega

theorem roundHalfEven_eq (positive : 0 < denominator)
    (above : 2 * (n * denominator) ≤ 2 * numerator + denominator)
    (below : 2 * numerator ≤ 2 * (n * denominator) + denominator)
    (ties : 2 * (n * denominator) = 2 * numerator + denominator ∨
      2 * numerator = 2 * (n * denominator) + denominator → n % 2 = 0) :
    roundHalfEven numerator denominator = n := by
  have split := Nat.div_add_mod' numerator denominator
  have short := Nat.mod_lt numerator positive
  unfold roundHalfEven
  dsimp only
  generalize numerator / denominator = quotient, numerator % denominator = remainder at *
  have least : quotient ≤ n := by
    by_contra less
    have step : (n + 1) * denominator ≤ quotient * denominator :=
      Nat.mul_le_mul_right _ (by omega)
    rw [Nat.add_mul, Nat.one_mul] at step
    omega
  have most : n ≤ quotient + 1 := by
    by_contra more
    have step : (quotient + 2) * denominator ≤ n * denominator :=
      Nat.mul_le_mul_right _ (by omega)
    rw [Nat.add_mul] at step
    omega
  rcases Nat.lt_or_ge quotient n with up | down
  · obtain rfl : n = quotient + 1 := by omega
    rw [Nat.add_mul, Nat.one_mul] at above below ties
    rw [if_neg]
    omega
  · obtain rfl : n = quotient := by omega
    rw [if_pos]
    omega

theorem log2_hidden : hidden.log2 = 52 := by decide

theorem hidden_eq : hidden = 2 ^ 52 := rfl

theorem quotient_lt (numerator denominator scale : Nat)
    (scaled : (numerator / denominator).log2 - hidden.log2 ≤ scale) :
    numerator / (denominator * 2 ^ scale) < 2 * hidden := by
  have size : numerator / denominator < 2 ^ ((numerator / denominator).log2 + 1) :=
    Nat.lt_log2_self
  have fits : 2 ^ ((numerator / denominator).log2 + 1) ≤ 2 ^ 53 * 2 ^ scale := by
    rw [← Nat.pow_add]
    rw [log2_hidden] at scaled
    exact Nat.pow_le_pow_right (by decide) (by omega)
  rw [← Nat.div_div_eq_div_mul, Nat.div_lt_iff_lt_mul (Nat.two_pow_pos scale)]
  exact Nat.lt_of_lt_of_le size fits

theorem le_quotient {scale : Nat} (scaled : (numerator / denominator).log2 - hidden.log2 = scale)
    (above : scale ≠ 0) : hidden ≤ numerator / (denominator * 2 ^ scale) := by
  rw [log2_hidden] at scaled
  have nonzero : numerator / denominator ≠ 0 := by
    intro zero
    rw [zero] at scaled
    exact above scaled.symm
  have size : 2 ^ (52 + scale) ≤ numerator / denominator := by
    have := Nat.log2_self_le nonzero
    rwa [show (numerator / denominator).log2 = 52 + scale by omega] at this
  rw [← Nat.div_div_eq_div_mul, Nat.le_div_iff_mul_le (Nat.two_pow_pos scale), hidden_eq,
    ← Nat.pow_add]
  exact size

theorem nearest_eq (negative : Bool) {scale significand : Nat}
    (scaled : (numerator / denominator).log2 - hidden.log2 = scale)
    (rounded : roundHalfEven numerator (denominator * 2 ^ scale) = significand) :
    nearest negative numerator denominator =
      if significand = 2 * hidden then
        if maxScale < scale + 1 then .infinite negative else .finite negative hidden (scale + 1)
      else if maxScale < scale then .infinite negative else .finite negative significand scale := by
  have rounded' : roundHalfEven numerator (denominator * Nat.pow 2 scale) = significand := rounded
  simp only [nearest, scaled, rounded']
  by_cases carried : significand = 2 * hidden
  · simp only [carried, if_true]
  · simp only [carried, if_false]

theorem canonical_nearest (negative : Bool) (numerator denominator : Nat) :
    (nearest negative numerator denominator).Canonical := by
  generalize scaled : (numerator / denominator).log2 - hidden.log2 = scale
  generalize rounded : roundHalfEven numerator (denominator * 2 ^ scale) = significand
  have small := quotient_lt numerator denominator scale (Nat.le_of_eq scaled)
  have large : scale ≠ 0 → hidden ≤ numerator / (denominator * 2 ^ scale) := le_quotient scaled
  have least := roundHalfEven_ge numerator (denominator * 2 ^ scale)
  have most := roundHalfEven_le numerator (denominator * 2 ^ scale)
  rw [rounded] at least most
  rw [nearest_eq negative scaled rounded]
  split
  · split
    · exact trivial
    · have positive : 0 < hidden := by decide
      exact ⟨by omega, by omega, .inl (Nat.le_refl _)⟩
  · split
    · exact trivial
    · refine ⟨by omega, by omega, ?_⟩
      by_cases bottom : scale = 0
      · exact .inr bottom
      · exact .inl (Nat.le_trans (large bottom) least)

/-- A fraction lies in the neighbourhood of a number if it is within half a unit of the significand,
    or within a quarter below a power of two; at the border the significand must be even. -/
structure Near (significand scale numerator denominator : Nat) : Prop where
  above : (4 * significand - if significand = hidden ∧ scale ≠ 0 then 1 else 2) *
    (denominator * 2 ^ scale) ≤ 4 * numerator
  below : 4 * numerator ≤ (4 * significand + 2) * (denominator * 2 ^ scale)
  ties : (4 * significand - if significand = hidden ∧ scale ≠ 0 then 1 else 2) *
      (denominator * 2 ^ scale) = 4 * numerator ∨
    4 * numerator = (4 * significand + 2) * (denominator * 2 ^ scale) → significand % 2 = 0

theorem scaled_le {value fives : Nat} (count unit : Nat) (positive : 0 < denominator)
    (some : 0 < fives) (same : 4 * numerator * fives = value * denominator) :
    (count * (unit * fives) ≤ value ↔ count * (denominator * unit) ≤ 4 * numerator) ∧
      (value ≤ count * (unit * fives) ↔ 4 * numerator ≤ count * (denominator * unit)) := by
  have side : count * (unit * fives) * denominator = count * (denominator * unit) * fives := by ring
  constructor
  · rw [← Nat.mul_le_mul_right_iff positive, side, ← same, Nat.mul_le_mul_right_iff some]
  · rw [← Nat.mul_le_mul_right_iff positive, side, ← same, Nat.mul_le_mul_right_iff some]

/-- The neighbourhood counts in `10 ^ -1076`, and the fraction is one of the unit `2 ^ -1074`. -/
theorem near_of_holds {significand scale value : Nat} (positive : 0 < denominator)
    (same : 4 * numerator * 5 ^ places = value * denominator)
    (holds : (neighbourhood significand scale).holds value = true) :
    Near significand scale numerator denominator := by
  have some : ∀ count, 0 < 5 ^ count := fun count => Nat.pow_pos (by decide)
  have some := some places
  unfold neighbourhood Neighbourhood.holds at holds
  dsimp only at holds
  rw [Nat.pow_eq, Nat.pow_eq] at holds
  generalize 5 ^ places = fives at same some holds
  obtain ⟨low, low'⟩ :=
    scaled_le (4 * significand - if significand = hidden ∧ scale ≠ 0 then 1 else 2) (2 ^ scale)
      positive some same
  obtain ⟨high', high⟩ := scaled_le (4 * significand + 2) (2 ^ scale) positive some same
  by_cases even : significand % 2 = 0
  · rw [if_pos (by simp [even])] at holds
    simp only [Bool.and_eq_true, decide_eq_true_eq] at holds
    exact ⟨low.mp holds.1, high.mp holds.2, fun _ => even⟩
  · rw [if_neg (by simp [even])] at holds
    simp only [Bool.and_eq_true, decide_eq_true_eq] at holds
    have above := mt low'.mpr (Nat.not_le_of_lt holds.1)
    have below := mt high'.mpr (Nat.not_le_of_lt holds.2)
    exact ⟨by omega, by omega, by omega⟩

theorem scale_of_bounds {scale : Nat} (positive : 0 < denominator)
    (low : scale ≠ 0 → hidden * (denominator * 2 ^ scale) ≤ numerator)
    (high : numerator < 2 * (hidden * (denominator * 2 ^ scale))) :
    (numerator / denominator).log2 - hidden.log2 = scale := by
  have below : numerator / denominator < 2 ^ (53 + scale) := by
    rw [Nat.div_lt_iff_lt_mul positive, Nat.pow_add]
    calc numerator < 2 * (hidden * (denominator * 2 ^ scale)) := high
      _ = 2 ^ 53 * 2 ^ scale * denominator := by rw [hidden_eq]; ring
  rw [log2_hidden]
  by_cases bottom : scale = 0
  · subst bottom
    by_cases zero : numerator / denominator = 0
    · rw [zero]
      rfl
    · have size := (Nat.log2_lt zero).mpr below
      omega
  · have above : 2 ^ (52 + scale) ≤ numerator / denominator := by
      rw [Nat.le_div_iff_mul_le positive, Nat.pow_add]
      calc 2 ^ 52 * 2 ^ scale * denominator = hidden * (denominator * 2 ^ scale) := by
            rw [hidden_eq]; ring
        _ ≤ numerator := low bottom
    have nonzero : numerator / denominator ≠ 0 := by
      have := Nat.two_pow_pos (52 + scale)
      omega
    have size := (Nat.log2_lt nonzero).mpr below
    have size' := (Nat.le_log2 nonzero).mpr above
    omega

variable {negative : Bool} {significand scale : Nat}

theorem nearest_below_power (positive : 0 < denominator) (inRange : scale + 1 ≤ maxScale)
    (near : Near hidden (scale + 1) numerator denominator)
    (lower : numerator < hidden * (denominator * 2 ^ (scale + 1))) :
    nearest negative numerator denominator = .finite negative hidden (scale + 1) := by
  have above := near.above
  rw [if_pos ⟨rfl, Nat.succ_ne_zero scale⟩] at above
  have double : denominator * 2 ^ (scale + 1) = 2 * (denominator * 2 ^ scale) := by ring
  have unit : 0 < denominator * 2 ^ scale := Nat.mul_pos positive (Nat.two_pow_pos scale)
  rw [double] at above lower
  generalize size : denominator * 2 ^ scale = step at *
  have large : 1 ≤ hidden := by decide
  have grows : step ≤ hidden * step := Nat.le_mul_of_pos_left step large
  have expand : (4 * hidden - 1) * (2 * step) = 8 * (hidden * step) - 2 * step := by
    rw [Nat.sub_mul]
    congr 1
    · ring
    · ring
  have expand' : hidden * (2 * step) = 2 * (hidden * step) := by ring
  rw [expand] at above
  rw [expand'] at lower
  have scaled : (numerator / denominator).log2 - hidden.log2 = scale := by
    apply scale_of_bounds positive
    · intro _
      rw [size]
      omega
    · rw [size]
      exact lower
  have rounded : roundHalfEven numerator (denominator * 2 ^ scale) = 2 * hidden := by
    rw [size]
    have same : 2 * hidden * step = 2 * (hidden * step) := Nat.mul_assoc 2 hidden step
    apply roundHalfEven_eq unit
    · rw [same]
      omega
    · rw [same]
      omega
    · exact fun _ => by decide
  rw [nearest_eq negative scaled rounded, if_pos rfl, if_neg (by omega)]

theorem Near.within (near : Near significand scale numerator denominator)
    (normal : hidden ≤ significand ∨ scale = 0)
    (unit : 0 < denominator * 2 ^ scale)
    (whole : ¬ (significand = hidden ∧ scale ≠ 0 ∧ numerator < hidden * (denominator * 2 ^ scale))) :
    2 * (significand * (denominator * 2 ^ scale)) ≤ 2 * numerator + denominator * 2 ^ scale ∧
      (2 * (significand * (denominator * 2 ^ scale)) = 2 * numerator + denominator * 2 ^ scale →
        significand % 2 = 0) ∧
      (scale ≠ 0 → hidden * (denominator * 2 ^ scale) ≤ numerator) := by
  obtain ⟨above, -, ties⟩ := near
  generalize denominator * 2 ^ scale = step at *
  have expand : ∀ less, (4 * significand - less) * step = 4 * (significand * step) - less * step := by
    intro less
    rw [Nat.sub_mul, Nat.mul_assoc]
  rw [expand] at above ties
  by_cases power : significand = hidden ∧ scale ≠ 0
  · have reached : hidden * step ≤ numerator := by
      by_contra less
      exact whole ⟨power.1, power.2, Nat.lt_of_not_le less⟩
    rw [power.1]
    exact ⟨by omega, by omega, fun _ => reached⟩
  · rw [if_neg power] at above ties
    refine ⟨by omega, by omega, fun bottom => ?_⟩
    have larger : (hidden + 1) * step ≤ significand * step := Nat.mul_le_mul_right step (by omega)
    rw [Nat.add_mul] at larger
    omega

theorem nearest_of_near (canonical : (Binary64.finite negative significand scale).Canonical)
    (nonzero : significand ≠ 0) (positive : 0 < denominator)
    (near : Near significand scale numerator denominator) :
    nearest negative numerator denominator = .finite negative significand scale := by
  obtain ⟨small, inRange, normal⟩ := canonical
  -- Below a power of two the unit is half as large, and the significand is rounded up to the power.
  by_cases lower : significand = hidden ∧ scale ≠ 0 ∧
      numerator < hidden * (denominator * 2 ^ scale)
  · obtain ⟨rfl, above, lower⟩ := lower
    obtain ⟨less, rfl⟩ : ∃ less, scale = less + 1 := ⟨scale - 1, by omega⟩
    exact nearest_below_power positive inRange near lower
  · have unit : 0 < denominator * 2 ^ scale := Nat.mul_pos positive (Nat.two_pow_pos scale)
    have enough := near.within normal unit lower
    obtain ⟨-, below, ties⟩ := near
    generalize size : denominator * 2 ^ scale = step at *
    have most : significand * step + step ≤ 2 * (hidden * step) := by
      have fits : (significand + 1) * step ≤ 2 * hidden * step := Nat.mul_le_mul_right step (by omega)
      rw [Nat.add_mul, Nat.one_mul, Nat.mul_assoc] at fits
      exact fits
    have expand : (4 * significand + 2) * step = 4 * (significand * step) + 2 * step := by ring
    rw [expand] at below ties
    have scaled : (numerator / denominator).log2 - hidden.log2 = scale := by
      apply scale_of_bounds positive
      · rw [size]
        exact enough.2.2
      · rw [size]
        omega
    have rounded : roundHalfEven numerator (denominator * 2 ^ scale) = significand := by
      rw [size]
      exact roundHalfEven_eq unit enough.1 (by omega) (by omega)
    rw [nearest_eq negative scaled rounded, if_neg (by omega), if_neg (by omega)]

end NetTrace.Binary64
