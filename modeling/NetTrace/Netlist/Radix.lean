import NetTrace.Text.Numeral

namespace NetTrace.Netlist

inductive Radix
  | binary
  | octal
  | decimal
  | hex
  deriving DecidableEq

namespace Radix

def all : List Radix := [.binary, .octal, .decimal, .hex]

def name : Radix → String
  | .binary => "binary"
  | .octal => "octal"
  | .decimal => "decimal"
  | .hex => "hex"

def marker : Radix → Char
  | .binary => 'b'
  | .octal => 'o'
  | .decimal => 'd'
  | .hex => 'h'

def ofMarker? (c : Char) : Option Radix := all.find? (·.marker == c)

def base : Radix → Nat
  | .binary => 2
  | .octal => 8
  | .decimal => 10
  | .hex => 16

def isDigit (radix : Radix) (c : Char) : Bool := Numeral.digitValue c < radix.base

def phraseName : Radix → String
  | .binary => "BinaryImmediate"
  | .octal => "OctalImmediate"
  | .decimal => "DecimalImmediate"
  | .hex => "HexImmediate"

theorem ofMarker?_marker (radix : Radix) : ofMarker? radix.marker = some radix := by
  cases radix <;> decide

end Radix

end NetTrace.Netlist
