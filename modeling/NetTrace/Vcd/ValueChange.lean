import NetTrace.Binary64.Read
import NetTrace.Binary64.Shortest
import NetTrace.Vcd.Word

namespace NetTrace.Vcd

inductive ValueChange
  | scalar (value : Char) (code : Text)
  | vector (bits : Text) (code : Text)
  | real (value : Binary64) (code : Text)
  deriving DecidableEq

namespace ValueChange

def isBit (c : Char) : Bool :=
  c == '0' || c == '1' || c == 'x' || c == 'X' || c == 'z' || c == 'Z'

def code : ValueChange → Text
  | scalar _ code => code
  | vector _ code => code
  | real _ code => code

def render : ValueChange → Text
  | scalar value code => value :: code
  | vector bits code => 'b' :: bits ++ ' ' :: code
  | real value code => 'r' :: value.render ++ ' ' :: code

open Scan

variable {σ μ : Type} [Input σ μ]

def scanBitHere : Scan σ Char := do
  match ← peek with
  | none => refuseEnd "a value"
  | some c =>
    if isBit c then
      let _ ← next
      return c
    else refuse (.missing "one of 0 1 x X z Z")

def scanBit : Scan σ Char := phrase "Value" do
  let _ ← skipBlanks
  scanBitHere

def scanKind (lower upper : Char) : Scan σ Unit := do
  let _ ← skipBlanks
  let found ← peek
  if found = some lower ∨ found = some upper then
    let _ ← next
  else refuse (.unexpectedCharacter lower found)

def scanSeparator : Scan σ Unit := do
  if (← skipBlanks) = [] then refuse (.missing "whitespace before the identifier code")

def scanScalar : Scan σ ValueChange := phrase "ScalarValueChange" do
  let _ ← skipBlanks
  let value ← scanBitHere
  if (← peek).all Text.isBlank then
    refuse (.missing "an identifier code directly after the value")
  else return scalar value (← Word.scanCode)

def scanVector : Scan σ ValueChange := phrase "BinaryVectorValueChange" do
  scanKind 'b' 'B'
  let bits ← span isBit
  if bits = [] then refuse (.missing "vector bits")
  else
    scanSeparator
    return vector bits (← Word.scanCode)

def scanReal : Scan σ ValueChange := phrase "RealVectorValueChange" do
  scanKind 'r' 'R'
  let start ← mark
  let text ← span (!Text.isBlank ·)
  match Binary64.read? text with
  | none => refuseFrom start (.missing "a real number")
  | some value =>
    scanSeparator
    return real value (← Word.scanCode)

def scan : Scan σ ValueChange := phrase "ValueChange"
  (otherwise (otherwise scanScalar scanVector) scanReal)

end ValueChange

end NetTrace.Vcd
