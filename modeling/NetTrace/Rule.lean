import NetTrace.Netlist.Phrase
import NetTrace.Vcd.Phrase

namespace NetTrace

inductive Rule
  | netlist (phrase : Netlist.Phrase)
  | character (c : Char)
  | wrapped (inner : Netlist.Phrase) (opening closing : Char)
  | vcd (phrase : Vcd.Phrase)
  | signalKey
  deriving DecidableEq

def Signal.key {σ μ : Type} [Input σ μ] : Scan σ Text :=
  Netlist.Selection.render <$> Netlist.Selection.scan

namespace Rule

def name : Rule → String
  | netlist phrase => phrase.name
  | character _ => "Char"
  | wrapped .. => "WrappedElement"
  | vcd phrase => phrase.name
  | signalKey => "SignalKey"

variable {σ μ : Type} [Input σ μ]

def read : Rule → Scan σ Text
  | netlist phrase => Netlist.Reading.render <$> phrase.read
  | character c => (fun c => [c]) <$> Scan.symbol c
  | wrapped inner opening closing =>
    Netlist.Enclosed.render opening closing Netlist.Reading.render <$>
      Netlist.Enclosed.scan opening closing inner.read
  | vcd phrase => phrase.read
  | signalKey => Signal.key

def token (rule : Rule) : Scan σ Text := do
  let token ← rule.read
  let _ ← Scan.skipBlanks
  return token

end Rule

end NetTrace
