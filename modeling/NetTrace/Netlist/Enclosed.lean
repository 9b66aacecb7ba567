import NetTrace.Scan

namespace NetTrace.Netlist

structure Enclosed (α : Type) where
  depth : Nat
  content : α
  deriving DecidableEq

namespace Enclosed

open Scan

variable {σ μ α : Type} [Input σ μ]

def render (opening closing : Char) (renderContent : α → Text) (group : Enclosed α) : Text :=
  List.replicate group.depth opening ++ renderContent group.content ++
    List.replicate group.depth closing

def closeFrom (opening closing : Char) (depth : Nat) : Nat → Scan σ Unit
  | 0 => return ()
  | missing + 1 => do
    let _ ← skipBlanks
    let found ← peek
    if found = some closing then
      let _ ← next
      closeFrom opening closing depth missing
    else
      refuse (.unbalanced opening closing
        (Numeral.decimal depth ++ " opened, ".toList ++ Numeral.decimal (depth - (missing + 1)) ++
          " closed, then found ".toList ++ Text.describe found))

def close (opening closing : Char) (depth : Nat) : Scan σ Unit :=
  closeFrom opening closing depth depth

def open? (opening : Char) : Scan σ (Option Char) := do
  if (← peek) = some opening then
    let _ ← next
    let _ ← skipBlanks
    return some opening
  else return none

/-- One or more opening delimiters, the content, and as many closing ones. All opening delimiters
    are taken first. If then only the closing ones are too few, the content is tried once more after
    the first opening delimiter, with the others as part of it; should that fail too, the first
    attempt tells why. -/
def scan (opening closing : Char) (content : Scan σ α) : Scan σ (Enclosed α) :=
  phrase "WrappedElement" do
    let _ ← skipBlanks
    let first ← mark
    let depth := (← collectAll (open? opening)).length
    if depth = 0 then
      let found ← peek
      refuse (.unbalanced opening closing
        ("expected '".toList ++ opening :: "' but found ".toList ++ Text.describe found))
    else
      let value ← content
      match ← outcome (rewinding (close opening closing depth)) with
      | .ok _ => return ⟨depth, value⟩
      | .error failure =>
        if depth = 1 then throw failure
        else
          rewind first
          let _ ← next
          let again ← outcome <| rewinding do
            let value ← content
            close opening closing 1
            return (⟨1, value⟩ : Enclosed α)
          match again with
          | .ok group => return group
          | .error _ => throw failure

end Enclosed

end NetTrace.Netlist
