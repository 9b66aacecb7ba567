import NetTrace.Binary64.Basic

namespace NetTrace.Binary64

/-- All finite numbers, and the ends of the intervals that round to them, are whole multiples of
    `10 ^ -1076`. -/
def places : Nat := 1076

structure Neighbourhood where
  low : Nat
  exact : Nat
  high : Nat
  closed : Bool

/-- The interval reaches half way to the two neighbours. The lower neighbour of a power of two is
    nearer than the upper one. Half-way points belong to the even significand. -/
def neighbourhood (significand scale : Nat) : Neighbourhood :=
  let quarter := Nat.pow 2 scale * Nat.pow 5 places
  let below := if significand = hidden ∧ scale ≠ 0 then 1 else 2
  { low := (4 * significand - below) * quarter
    exact := 4 * significand * quarter
    high := (4 * significand + 2) * quarter
    closed := significand % 2 == 0 }

def Neighbourhood.holds (near : Neighbourhood) (n : Nat) : Bool :=
  if near.closed then near.low ≤ n && n ≤ near.high else near.low < n && n < near.high

def Neighbourhood.multiple? (near : Neighbourhood) (step : Nat) : Option Nat :=
  let down := near.exact / step
  let remainder := near.exact % step
  match near.holds (down * step), near.holds ((down + 1) * step) with
  | true, true => some (if 2 * remainder < step then down else down + 1)
  | true, false => some down
  | false, true => some (down + 1)
  | false, false => none

def Neighbourhood.coarsest (near : Neighbourhood) : Nat → Nat × Nat
  | 0 => (near.exact, 0)
  | power + 1 =>
    match near.multiple? (Nat.pow 10 (power + 1)) with
    | some n => (n, power + 1)
    | none => near.coarsest power

def shortest (significand scale : Nat) : Nat × Nat :=
  let near := neighbourhood significand scale
  near.coarsest (near.high.log2 / 3 + 1)

def positional (n power : Nat) : Text :=
  let digits := Numeral.decimal n
  if places ≤ power then digits ++ List.replicate (power - places) '0'
  else
    let fraction := places - power
    if digits.length ≤ fraction then
      "0.".toList ++ List.replicate (fraction - digits.length) '0' ++ digits
    else
      digits.take (digits.length - fraction) ++ '.' :: digits.drop (digits.length - fraction)

def sign (negative : Bool) : Text := if negative then ['-'] else []

def render : Binary64 → Text
  | .nan => "NaN".toList
  | .infinite negative => sign negative ++ "inf".toList
  | .finite negative significand scale =>
    if significand = 0 then sign negative ++ ['0']
    else
      let (n, power) := shortest significand scale
      sign negative ++ positional n power

end NetTrace.Binary64
