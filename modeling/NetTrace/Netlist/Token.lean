import NetTrace.Netlist.Association
import NetTrace.Token

namespace NetTrace.Netlist

structure Connection where
  pin : Option Text
  element : Text
  deriving DecidableEq

def Connection.pinText (connection : Connection) : Text := connection.pin.getD []

structure NumericValue where
  width : UInt32
  value : UInt64
  deriving DecidableEq

def NumericValue.defaultWidth : UInt32 := 32

structure Descriptor where
  raw : Text
  base : Text
  range : Option BitRange
  deriving DecidableEq

namespace Descriptor

def usesIndex (descriptor : Descriptor) : Bool := descriptor.range.isSome

def high (descriptor : Descriptor) : UInt32 := (descriptor.range.map BitRange.high).getD 0

def low (descriptor : Descriptor) : UInt32 := (descriptor.range.map BitRange.low).getD 0

end Descriptor

namespace Literal

/-- The number that a literal stands for, which is not cut to its width. The token is shown where
    the number or its width is too large. -/
def numericValue (token : Text) : Literal → Except Violation (Except Failure NumericValue)
  | .string _ => .error (.notNumeric token)
  | .unsized digits => .ok do
    let value ← fitting 64 (Numeral.word64? 10 digits)
    return { width := NumericValue.defaultWidth, value }
  | .sized width radix digits => .ok do
    let width ← fitting 32 (Numeral.word32? 10 width)
    let value ← fitting 64 (Numeral.word64? radix.base digits)
    return { width, value }
where
  fitting {α : Type} (bits : Nat) : Option α → Except Failure α
    | some value => .ok value
    | none => .error { cause := .overflow (Text.trim token) bits }

end Literal

namespace Token

open NetTrace.Token (complete)

def ofAssociation {α : Type} (render : α → Text) (association : Association α) : Connection :=
  { pin := association.pin?, element := render association.value }

def ofLeaves (association : Association Operand) : List Connection :=
  association.value.leaves.map fun leaf => { pin := association.pin?, element := leaf.render }

def connection (token : Text) : Except Violation Connection :=
  ofAssociation Operand.render <$> complete "Connection" Association.scanConnection token

def parameter (token : Text) : Except Violation Connection :=
  ofAssociation Setting.render <$> complete "ParameterConnection" Association.scanParameter token

def names (token : Text) : Except Violation (List Text) :=
  complete "IdentifierList" Name.scanList token

def leaves (token : Text) : Except Violation (List Text) :=
  (fun operand => operand.leaves.map Operand.render) <$>
    complete "ConnectedElement" Operand.scan token

def leavesOfList (token : Text) : Except Violation (List Text) :=
  (fun operands => (operands.flatMap Operand.leaves).map Operand.render) <$>
    complete "ConnectedElementList" Operand.scanList token

def connections (token : Text) : Except Violation (List Connection) :=
  List.flatMap ofLeaves <$> complete "ConnectionList" Association.scanConnections token

def parameters (token : Text) : Except Violation (List Connection) :=
  List.map (ofAssociation Setting.render) <$>
    complete "ParameterList" Association.scanParameters token

def blockParameters (token : Text) : Except Violation (List Connection) :=
  (fun block => block.content.map (ofAssociation Setting.render)) <$>
    complete "ModuleParameters" ParameterBlock.scan token

def bitRange (token : Text) : Except Violation BitRange :=
  BitRange.ofBounds <$> complete "BitRange" Bounds.scan token

def numericValue (token : Text) : Except Violation (Except Failure NumericValue) := do
  (← complete "Immediate" Literal.scan token).numericValue token

def descriptor (token : Text) : Except Violation Descriptor :=
  (fun selection =>
    { raw := token, base := selection.name, range := selection.bounds.map BitRange.ofBounds }) <$>
    complete "Identifier" Selection.scan token

end Token

end NetTrace.Netlist
