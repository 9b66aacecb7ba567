import NetTrace.Scan

namespace NetTrace.Netlist.Name

open Scan

variable {σ μ : Type} [Input σ μ]

def starts (c : Char) : Bool := c.isAlpha || c == '_'

def continues (c : Char) : Bool := c.isAlphanum || c == '_' || c == '$'

def simple : Scan σ Text := phrase "SimpleIdentifier" do
  let _ ← skipBlanks
  match ← peek with
  | none => refuseEnd "identifier"
  | some c => if starts c then span continues else refuse (.missing "a letter or '_'")

/-- A backslash and everything up to a blank. The blank ends the name and belongs to it. -/
def escaped : Scan σ Text := phrase "EscapedIdentifier" do
  let _ ← skipBlanks
  let start ← mark
  let found ← peek
  if found = some '\\' then
    let written ← span (!Text.isBlank ·)
    match ← next with
    | some terminator => return written ++ [terminator]
    | none => refuseFrom start .unterminatedName
  else refuse (.unexpectedCharacter '\\' found)

def scan : Scan σ Text := phrase "Identifier" do
  if ← facing '\\' then escaped else simple

def scanList : Scan σ (List Text) := phrase "IdentifierList" (commaList scan)

end NetTrace.Netlist.Name
