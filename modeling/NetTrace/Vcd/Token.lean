import NetTrace.Token
import NetTrace.Vcd.Command
import NetTrace.Vcd.Variable

namespace NetTrace.Vcd.Token

open NetTrace.Token (complete)

/-- The variable of a complete declaration of any type. Unlike a wire's token it need not have been
    read before, so that a text that is no declaration is a failure. -/
def declaration (text : Text) : Except Failure Variable :=
  match Variable.scanDeclaration text with
  | .error failure _ => .error failure
  | .ok declared rest =>
    if rest.dropWhile Text.isBlank = [] then .ok declared
    else .error { cause := .missing "end of declaration" (rest.dropWhile Text.isBlank) }

def wire (token : Text) : Except Violation Variable := complete "Var" Variable.scanWire token

def valueChange (token : Text) : Except Violation ValueChange :=
  complete "ValueChange" ValueChange.scan token

def simulationTime (token : Text) : Except Violation (Except Failure UInt64) := do
  let marked ← complete "SimulationTime" Command.scanTime token
  match Numeral.word64? 10 marked.tail with
  | some time => return .ok time
  | none => return .error { cause := .overflow marked 64 }

end NetTrace.Vcd.Token
