import NetTrace.Scan

namespace NetTrace.Netlist

inductive Literal
  | unsized (digits : Text)
  | sized (width : Text) (radix : Radix) (digits : Text)
  | string (text : Text)
  deriving DecidableEq

namespace Literal

def render : Literal → Text
  | unsized digits => digits
  | sized width radix digits => width ++ '\'' :: radix.marker :: digits
  | string text => '"' :: text ++ ['"']

open Scan

variable {σ μ : Type} [Input σ μ]

def scanDigits : Scan σ Text := phrase "UnbasedImmediate" do
  let _ ← skipBlanks
  let digits ← span Char.isDigit
  if digits = [] then
    match ← peek with
    | some _ => refuse (.missing "a decimal digit")
    | none => refuseEnd "a decimal digit"
  else return digits

/-- Width, tick, marker and digits of a number in the given radix. Blanks may stand before the tick
    but not after it. -/
def scanSized (radix : Radix) : Scan σ Literal := phrase radix.phraseName do
  let start ← mark
  let width ← scanDigits
  let _ ← symbol '\''
  let found ← peek
  if found = some radix.marker then
    let _ ← next
    let digits ← span radix.isDigit
    if digits = [] then refuseFrom start (.emptyBody radix)
    else return .sized width radix digits
  else refuse (.unexpectedCharacter radix.marker found)

def scanString : Scan σ Literal := phrase "StringLiteral" do
  let _ ← skipBlanks
  let start ← mark
  let found ← peek
  if found = some '"' then
    let _ ← next
    let text ← span (· != '"')
    match ← next with
    | some _ => return .string text
    | none => refuseFrom start .unterminatedString
  else refuse (.unexpectedCharacter '"' found)

def scanNumber : Scan σ Literal := do
  let start ← mark
  let digits ← scanDigits
  if ← facing '\'' then
    let tick ← mark
    let _ ← next
    let marker ← peek
    match marker.bind Radix.ofMarker? with
    | some radix =>
      rewind start
      scanSized radix
    | none => refuseFrom tick (.unknownRadix (Text.describe marker))
  else return .unsized digits

def scan : Scan σ Literal := phrase "Immediate" do
  let _ ← skipBlanks
  match ← peek with
  | none => refuseEnd "immediate"
  | some c =>
    if c = '"' then scanString
    else if c.isDigit then scanNumber
    else refuse (.missing "a digit or '\"'")

end Literal

end NetTrace.Netlist
