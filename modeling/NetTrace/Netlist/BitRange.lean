import NetTrace.Netlist.Literal

namespace NetTrace.Netlist

/-- The bounds of a selection in the order of writing. A single index is a range of two equal
    bounds. -/
structure Bounds where
  first : UInt32
  second : UInt32
  deriving DecidableEq

structure BitRange where
  high : UInt32
  low : UInt32
  deriving DecidableEq

namespace Bounds

def render (bounds : Bounds) : Text :=
  if bounds.first = bounds.second then
    '[' :: Numeral.decimal bounds.first.toNat ++ [']']
  else
    '[' :: Numeral.decimal bounds.first.toNat ++ ':' :: Numeral.decimal bounds.second.toNat ++ [']']

open Scan

variable {σ μ : Type} [Input σ μ]

def scanBound (start : μ) : Scan σ UInt32 := do
  match ← outcome Literal.scanDigits with
  | .error _ => refuseFrom start (.malformedRange "non-numeric bound")
  | .ok digits =>
    match Numeral.word32? 10 digits with
    | none => refuseFrom start (.malformedRange "bound out of range")
    | some value => return value

def scanBracket (start : μ) (c : Char) (reason : String) : Scan σ Unit := do
  match ← outcome (symbol c) with
  | .error _ => refuseFrom start (.malformedRange reason)
  | .ok _ => return ()

def scan : Scan σ Bounds := phrase "BitRange" do
  let _ ← skipBlanks
  let start ← mark
  scanBracket start '[' "missing '['"
  let first ← scanBound start
  let second ← if ← facing ':' then
      let _ ← next
      scanBound start
    else pure first
  scanBracket start ']' "missing ']'"
  return ⟨first, second⟩

end Bounds

namespace BitRange

def between (a b : UInt32) : BitRange := ⟨max a b, min a b⟩

def ofBounds (bounds : Bounds) : BitRange := between bounds.first bounds.second

/-- The number of bits, which can reach `2 ^ 32`. -/
def width (range : BitRange) : UInt64 := (range.high - range.low).toUInt64 + 1

def isSingle (range : BitRange) : Bool := range.high == range.low

def render (range : BitRange) : Text := Bounds.render ⟨range.high, range.low⟩

end BitRange

end NetTrace.Netlist
