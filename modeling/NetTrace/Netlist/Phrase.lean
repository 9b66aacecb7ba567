import NetTrace.Netlist.Association

/-!
The phrases of a netlist that can be asked for by name, what each is read as, and its token: the
written form of what was read. Every phrase passes the blanks before it, leaves those after it, and
takes the input back to where it started if it refuses.

    name        simple name | escaped name
    literal     "text" | digits | digits ' radix digits
    bounds      [ digits ] | [ digits : digits ]
    operand     literal | name | name bounds | { operand , ... }
    connection  operand | . name ( operand )
    setting     literal | name
    parameter   setting | . name ( setting )
    block       # ( parameter , ... )
-/

namespace NetTrace.Netlist

inductive Phrase
  | identifier
  | simpleIdentifier
  | escapedIdentifier
  | identifierList
  | immediate
  | unbasedImmediate
  | basedImmediate (radix : Radix)
  | stringLiteral
  | bitRange
  | connectedElement
  | connectedElementList
  | connection
  | connectionList
  | parameterConnectedElement
  | parameterConnection
  | parameterList
  | moduleParameters
  deriving DecidableEq

namespace Phrase

def all : List Phrase :=
  [identifier, simpleIdentifier, escapedIdentifier, identifierList, immediate, unbasedImmediate] ++
  Radix.all.map basedImmediate ++
  [stringLiteral, bitRange, connectedElement, connectedElementList, connection, connectionList,
    parameterConnectedElement, parameterConnection, parameterList, moduleParameters]

def name : Phrase → String
  | identifier => "Identifier"
  | simpleIdentifier => "SimpleIdentifier"
  | escapedIdentifier => "EscapedIdentifier"
  | identifierList => "IdentifierList"
  | immediate => "Immediate"
  | unbasedImmediate => "UnbasedImmediate"
  | basedImmediate radix => radix.phraseName
  | stringLiteral => "StringLiteral"
  | bitRange => "BitRange"
  | connectedElement => "ConnectedElement"
  | connectedElementList => "ConnectedElementList"
  | connection => "Connection"
  | connectionList => "ConnectionList"
  | parameterConnectedElement => "ParameterConnectedElement"
  | parameterConnection => "ParameterConnection"
  | parameterList => "ParameterList"
  | moduleParameters => "ModuleParameters"

def ofName? (name : String) : Option Phrase := all.find? (·.name == name)

end Phrase

inductive Reading
  | word (text : Text)
  | words (texts : List Text)
  | literal (value : Literal)
  | bounds (value : Bounds)
  | operand (value : Operand)
  | operands (values : List Operand)
  | connection (value : Association Operand)
  | connections (values : List (Association Operand))
  | setting (value : Setting)
  | parameter (value : Association Setting)
  | parameters (values : List (Association Setting))
  | block (value : ParameterBlock)

def Reading.render : Reading → Text
  | word text => text
  | words texts => Text.commaJoin texts
  | literal value => value.render
  | bounds value => value.render
  | operand value => value.render
  | operands values => Operand.renderItems values
  | connection value => value.render Operand.render
  | connections values => Association.renderOperands values
  | setting value => value.render
  | parameter value => value.render Setting.render
  | parameters values => Association.renderSettings values
  | block value => ParameterBlock.render value

def Phrase.read {σ μ : Type} [Input σ μ] : Phrase → Scan σ Reading
  | identifier => .word <$> Name.scan
  | simpleIdentifier => .word <$> Name.simple
  | escapedIdentifier => .word <$> Name.escaped
  | identifierList => .words <$> Name.scanList
  | immediate => .literal <$> Literal.scan
  | unbasedImmediate => .word <$> Literal.scanDigits
  | basedImmediate radix => .literal <$> Literal.scanSized radix
  | stringLiteral => .literal <$> Literal.scanString
  | bitRange => .bounds <$> Bounds.scan
  | connectedElement => .operand <$> Operand.scan
  | connectedElementList => .operands <$> Operand.scanList
  | connection => .connection <$> Association.scanConnection
  | connectionList => .connections <$> Association.scanConnections
  | parameterConnectedElement => .setting <$> Setting.scan
  | parameterConnection => .parameter <$> Association.scanParameter
  | parameterList => .parameters <$> Association.scanParameters
  | moduleParameters => .block <$> ParameterBlock.scan

end NetTrace.Netlist
