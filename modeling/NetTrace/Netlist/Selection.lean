import NetTrace.Netlist.BitRange
import NetTrace.Netlist.Name

namespace NetTrace.Netlist

structure Selection where
  name : Text
  bounds : Option Bounds
  deriving DecidableEq

namespace Selection

def render (selection : Selection) : Text :=
  match selection.bounds with
  | none => selection.name
  | some bounds => selection.name ++ bounds.render

open Scan in
def scan {σ μ : Type} [Input σ μ] : Scan σ Selection := do
  let name ← Name.scan
  return { name, bounds := ← optionally Bounds.scan }

end Selection

end NetTrace.Netlist
