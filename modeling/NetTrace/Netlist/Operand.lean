import NetTrace.Netlist.Enclosed
import NetTrace.Netlist.Selection

namespace NetTrace.Netlist

inductive Operand
  | literal (value : Literal)
  | net (selection : Selection)
  | concatenation (items : List Operand)

namespace Operand

mutual

def render : Operand → Text
  | .literal value => value.render
  | .net selection => selection.render
  | .concatenation items => '\x7b' :: renderItems items ++ ['\x7d']

def renderItems : List Operand → Text
  | [] => []
  | [item] => item.render
  | item :: others => item.render ++ ", ".toList ++ renderItems others

end

mutual

def leaves : Operand → List Operand
  | .literal value => [.literal value]
  | .net selection => [.net selection]
  | .concatenation items => leavesOfItems items

def leavesOfItems : List Operand → List Operand
  | [] => []
  | item :: others => item.leaves ++ leavesOfItems others

end

theorem renderItems_eq_commaJoin (items : List Operand) :
    renderItems items = Text.commaJoin (items.map render) := by
  induction items with
  | nil => rfl
  | cons item others ih =>
    cases others with
    | nil => simp [renderItems, Text.commaJoin, List.intercalate]
    | cons next others =>
      simp only [renderItems, ih, Text.commaJoin, List.intercalate, List.map_cons,
        List.intersperse, List.flatten_cons, List.append_assoc]

theorem leavesOfItems_eq_flatMap (items : List Operand) :
    leavesOfItems items = items.flatMap leaves := by
  induction items with
  | nil => rfl
  | cons item others ih => simp [leavesOfItems, ih]

open Scan

variable {σ μ : Type} [Input σ μ]

def scanConcatenation (limit : Nat) (item : Scan σ Operand) : Scan σ (List Operand) :=
  phrase "Concatenation" do
    let _ ← symbol '\x7b'
    let items ← phrase "ConnectedElementList" (commaListUpTo limit item)
    Enclosed.close '\x7b' '\x7d' 1
    return items

/-- An operand of less than `limit` bytes. Every level of nesting passes a brace and every item on a
    level at least one character, so the limit bounds both. -/
def scanUpTo : Nat → Scan σ Operand
  | 0 => refuseEnd "connected element"
  | limit + 1 => phrase "ConnectedElement" do
    let _ ← skipBlanks
    match ← peek with
    | none => refuseEnd "connected element"
    | some c =>
      if c = '\x7b' then concatenation <$> scanConcatenation limit (scanUpTo limit)
      else if c.isDigit || c == '"' then literal <$> Literal.scan
      else net <$> Selection.scan

def scan : Scan σ Operand := do scanUpTo ((← remaining) + 1)

def scanList : Scan σ (List Operand) := phrase "ConnectedElementList" (commaList scan)

end Operand

end NetTrace.Netlist
