import NetTrace.Text.Numeral

namespace NetTrace

/-- A finite number has the magnitude `significand * 2 ^ scale` in units of `2 ^ -1074`, the least
    positive number of the format. -/
inductive Binary64
  | nan
  | infinite (negative : Bool)
  | finite (negative : Bool) (significand scale : Nat)
  deriving DecidableEq

namespace Binary64

def hidden : Nat := Nat.pow 2 52

def maxScale : Nat := 2045

def zero (negative : Bool) : Binary64 := .finite negative 0 0

def Canonical : Binary64 → Prop
  | .nan | .infinite _ => True
  | .finite _ significand scale =>
    significand < 2 * hidden ∧ scale ≤ maxScale ∧ (hidden ≤ significand ∨ scale = 0)

def roundHalfEven (numerator denominator : Nat) : Nat :=
  let quotient := numerator / denominator
  let twice := 2 * (numerator % denominator)
  if twice < denominator ∨ (twice = denominator ∧ quotient % 2 = 0) then quotient
  else quotient + 1

/-- The number nearest to a fraction of the unit `2 ^ -1074`; of two that are equally near, the one
    with the even significand. Fractions too large for the format give infinity. -/
def nearest (negative : Bool) (numerator denominator : Nat) : Binary64 :=
  let scale := (numerator / denominator).log2 - hidden.log2
  let significand := roundHalfEven numerator (denominator * Nat.pow 2 scale)
  let carried := significand = 2 * hidden
  let scale' := if carried then scale + 1 else scale
  if maxScale < scale' then .infinite negative
  else .finite negative (if carried then hidden else significand) scale'

def bits? : Binary64 → Option Nat
  | .nan => none
  | .infinite negative => some (signBit negative + 2047 * hidden)
  | .finite negative significand scale =>
    some (signBit negative + scale * hidden + significand)
where
  signBit (negative : Bool) : Nat := if negative then Nat.pow 2 63 else 0

def hex (x : Binary64) : Text :=
  match x.bits? with
  | none => "nan".toList
  | some bits =>
    let digits := Nat.toDigits 16 bits
    List.replicate (16 - digits.length) '0' ++ digits

end Binary64

end NetTrace
