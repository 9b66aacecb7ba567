import NetTrace.Vcd.Command
import NetTrace.Vcd.Variable

namespace NetTrace.Vcd

inductive Phrase
  | exactString (text : Text)
  | tag (name : Text)
  | anyTag
  | nonWhitespace
  | identifierCode
  | textToEnd
  | declarationKeyword
  | declarationCommand
  | simulationKeyword
  | simulationTime
  | value
  | scalarValueChange
  | binaryVectorValueChange
  | realVectorValueChange
  | valueChange
  | simulationValueCommand
  | comment
  | simulationCommand
  | vcdDefinitions
  | var
  deriving DecidableEq

namespace Phrase

def name : Phrase → String
  | exactString _ => "ExactString"
  | tag _ => "Tag"
  | anyTag => "Tag"
  | nonWhitespace => "NonWhitespace"
  | identifierCode => "IdentifierCode"
  | textToEnd => "TextToEnd"
  | declarationKeyword => "DeclarationKeyword"
  | declarationCommand => "DeclarationCommand"
  | simulationKeyword => "SimulationKeyword"
  | simulationTime => "SimulationTime"
  | value => "Value"
  | scalarValueChange => "ScalarValueChange"
  | binaryVectorValueChange => "BinaryVectorValueChange"
  | realVectorValueChange => "RealVectorValueChange"
  | valueChange => "ValueChange"
  | simulationValueCommand => "SimulationValueCommand"
  | comment => "Comment"
  | simulationCommand => "SimulationCommand"
  | vcdDefinitions => "VcdDefinitions"
  | var => "Var"

def read {σ μ : Type} [Input σ μ] : Phrase → Scan σ Text
  | exactString text => Word.scanText text
  | tag name => Word.scanTag name
  | anyTag => Word.scanAnyTag
  | nonWhitespace => Word.scan
  | identifierCode => Word.scanCode
  | textToEnd => Word.scanToEnd
  | declarationKeyword => Command.scanDeclarationKeyword
  | declarationCommand => Command.scanDeclaration
  | simulationKeyword => Command.scanSimulationKeyword
  | simulationTime => Command.scanTime
  | value => (fun c => [c]) <$> ValueChange.scanBit
  | scalarValueChange => ValueChange.render <$> ValueChange.scanScalar
  | binaryVectorValueChange => ValueChange.render <$> ValueChange.scanVector
  | realVectorValueChange => ValueChange.render <$> ValueChange.scanReal
  | valueChange => ValueChange.render <$> ValueChange.scan
  | simulationValueCommand => Command.scanValues
  | comment => Command.scanComment
  | simulationCommand => Command.scanSimulation
  | vcdDefinitions => Command.scanAll
  | var => Variable.render <$> Variable.scanWire

end Phrase

end NetTrace.Vcd
