import NetTrace.Scan

namespace NetTrace.Vcd.Word

open Scan

variable {σ μ : Type} [Input σ μ]

/-- Passes characters as long as they are the given ones, and one more if they are not. -/
def scanCharacters : Text → Scan σ Bool
  | [] => return true
  | c :: others => do
    if (← next) = some c then scanCharacters others else return false

def scanText (text : Text) : Scan σ Text := phrase "ExactString" do
  let _ ← skipBlanks
  let start ← mark
  if ← scanCharacters text then return text else refuseFrom start (.missingWord text)

def scanExactly (text : Text) : Scan σ Text := rewinding do
  let start ← mark
  let word ← scanText text
  match ← peek with
  | none => return word
  | some c => if Text.isBlank c then return word else refuseFrom start (.missingWord text)

def scanTag (name : Text) : Scan σ Text := phrase "Tag" (scanExactly ('$' :: name))

def continuesTag (c : Char) : Bool := c.isAlphanum || c == '_'

def scanAnyTag : Scan σ Text := phrase "Tag" do
  let _ ← skipBlanks
  let found ← peek
  if found = some '$' then
    let _ ← next
    let name ← span continuesTag
    if name = [] then refuse (.missing "a keyword after '$'") else return '$' :: name
  else refuse (.unexpectedCharacter '$' found)

def scan : Scan σ Text := phrase "NonWhitespace" do
  let _ ← skipBlanks
  let written ← span (!Text.isBlank ·)
  if written = [] then refuseEnd "non-whitespace text" else return written

def scanCode : Scan σ Text := phrase "IdentifierCode" scan

def endTag : Text := "$end".toList

def scanToEndUpTo : Nat → Scan σ (List Text)
  | 0 => return []
  | limit + 1 => do
    let written ← scan
    if written = endTag then return [written]
    else return written :: (← scanToEndUpTo limit)

def scanToEnd : Scan σ Text := phrase "TextToEnd" do
  let words ← scanToEndUpTo ((← remaining) + 1)
  return List.intercalate [' '] words

def scanFirstOf : List Text → Scan σ (Option Text)
  | [] => return none
  | keyword :: others => do
    match ← optionally (scanExactly keyword) with
    | some written => return some written
    | none => scanFirstOf others

def scanKeyword (name : String) (keywords : List Text) : Scan σ Text := phrase name do
  match ← scanFirstOf keywords with
  | some written => return written
  | none =>
    let _ ← skipBlanks
    refuse (.missingWord (List.intercalate ['|'] keywords))

end NetTrace.Vcd.Word
