import NetTrace.Netlist.Literal
import NetTrace.Netlist.Name
import NetTrace.Vcd.Word

namespace NetTrace.Vcd

inductive VariableType
  | event
  | integer
  | parameter
  | real
  | realtime
  | reg
  | supply0
  | supply1
  | time
  | tri
  | triand
  | trior
  | trireg
  | tri0
  | tri1
  | wand
  | wire
  | wor
  deriving DecidableEq

namespace VariableType

def all : List VariableType :=
  [event, integer, parameter, real, realtime, reg, supply0, supply1, time, tri, triand, trior,
    trireg, tri0, tri1, wand, wire, wor]

def keyword : VariableType → Text
  | event => "event".toList
  | integer => "integer".toList
  | parameter => "parameter".toList
  | real => "real".toList
  | realtime => "realtime".toList
  | reg => "reg".toList
  | supply0 => "supply0".toList
  | supply1 => "supply1".toList
  | time => "time".toList
  | tri => "tri".toList
  | triand => "triand".toList
  | trior => "trior".toList
  | trireg => "trireg".toList
  | tri0 => "tri0".toList
  | tri1 => "tri1".toList
  | wand => "wand".toList
  | wire => "wire".toList
  | wor => "wor".toList

def ofKeyword? (word : Text) : Option VariableType := all.find? (·.keyword == word)

end VariableType

structure Variable where
  type : VariableType
  width : UInt64
  code : Text
  name : Text
  deriving DecidableEq

def Variable.render (declared : Variable) : Text :=
  "$var ".toList ++ declared.type.keyword ++ ' ' :: Numeral.decimal declared.width.toNat ++
    ' ' :: declared.code ++ ' ' :: declared.name ++ " $end".toList

namespace Variable

open Scan

variable {σ μ : Type} [Input σ μ]

def scanWidth : Scan σ UInt64 := do
  let digits ← Netlist.Literal.scanDigits
  match Numeral.word64? 10 digits with
  | some value => return value
  | none => throw { cause := .overflow digits 64 }

def scanWire : Scan σ Variable := phrase "Var" do
  let _ ← Word.scanTag "var".toList
  let _ ← Word.scanExactly VariableType.wire.keyword
  let width ← scanWidth
  let code ← Word.scanCode
  let name ← Netlist.Name.scan
  let _ ← Word.scanTag "end".toList
  return { type := .wire, width, code, name := Text.trimEnd name }

/-- A variable of any type. A second word before `$end`, such as a range, is joined to the name. -/
def scanDeclaration : Scan σ Variable := phrase "VarDeclaration" do
  let _ ← Word.scanTag "var".toList
  let typeWord ← Word.scan
  match VariableType.ofKeyword? typeWord with
  | none => throw { cause := .missing "a VCD variable type" typeWord }
  | some type =>
    let width ← scanWidth
    let code ← Word.scanCode
    let name ← Word.scan
    match ← optionally (Word.scanTag "end".toList) with
    | some _ => return { type, width, code, name }
    | none =>
      let range ← Word.scan
      let _ ← Word.scanTag "end".toList
      return { type, width, code, name := name ++ range }

end Variable

end NetTrace.Vcd
