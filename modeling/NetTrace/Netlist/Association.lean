import NetTrace.Netlist.Operand

namespace NetTrace.Netlist

inductive Association (α : Type)
  | positional (value : α)
  | named (pin : Text) (target : Enclosed α)

namespace Association

variable {α : Type}

def pin? : Association α → Option Text
  | positional _ => none
  | named pin _ => some pin

def value : Association α → α
  | positional value => value
  | named _ target => target.content

def render (renderValue : α → Text) : Association α → Text
  | positional value => renderValue value
  | named pin target => '.' :: pin ++ target.render '(' ')' renderValue

open Scan

def scan {σ μ : Type} [Input σ μ] (value : Scan σ α) : Scan σ (Association α) := do
  if ← facing '.' then
    let _ ← next
    let pin ← Name.scan
    return named pin (← Enclosed.scan '(' ')' value)
  else return positional (← value)

end Association

inductive Setting
  | literal (value : Literal)
  | name (text : Text)
  deriving DecidableEq

abbrev ParameterBlock := Enclosed (List (Association Setting))

def Setting.render : Setting → Text
  | .literal value => value.render
  | .name text => text

namespace Association

def renderOperands (associations : List (Association Operand)) : Text :=
  Text.commaJoin (associations.map (render Operand.render))

def renderSettings (associations : List (Association Setting)) : Text :=
  Text.commaJoin (associations.map (render Setting.render))

end Association

def ParameterBlock.render (block : ParameterBlock) : Text :=
  '#' :: Enclosed.render '(' ')' Association.renderSettings block

open Scan

variable {σ μ : Type} [Input σ μ]

def Setting.scan : Scan σ Setting := phrase "ParameterConnectedElement" do
  let _ ← skipBlanks
  match ← peek with
  | none => refuseEnd "parameter value"
  | some c => if c.isDigit || c == '"' then .literal <$> Literal.scan else .name <$> Name.scan

namespace Association

def scanConnection : Scan σ (Association Operand) := phrase "Connection" (scan Operand.scan)

def scanConnections : Scan σ (List (Association Operand)) :=
  phrase "ConnectionList" (commaList scanConnection)

def scanParameter : Scan σ (Association Setting) :=
  phrase "ParameterConnection" (scan Setting.scan)

def scanParameters : Scan σ (List (Association Setting)) :=
  phrase "ParameterList" (commaList scanParameter)

end Association

def ParameterBlock.scan : Scan σ ParameterBlock := phrase "ModuleParameters" do
  let _ ← symbol '#'
  Enclosed.scan '(' ')' Association.scanParameters

end NetTrace.Netlist
