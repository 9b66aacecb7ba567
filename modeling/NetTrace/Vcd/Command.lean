import NetTrace.Vcd.ValueChange

namespace NetTrace.Vcd.Command

open Scan

variable {σ μ : Type} [Input σ μ]

def declarationKeywords : List Text :=
  ["$comment".toList, "$date".toList, "$enddefinitions".toList, "$scope".toList,
    "$timescale".toList, "$upscope".toList, "$var".toList, "$version".toList]

def simulationKeywords : List Text :=
  ["$dumpall".toList, "$dumpoff".toList, "$dumpon".toList, "$dumpvars".toList]

def scanDeclarationKeyword : Scan σ Text :=
  Word.scanKeyword "DeclarationKeyword" declarationKeywords

def scanSimulationKeyword : Scan σ Text := Word.scanKeyword "SimulationKeyword" simulationKeywords

def scanDeclaration : Scan σ Text := phrase "DeclarationCommand" do
  let keyword ← scanDeclarationKeyword
  let text ← Word.scanToEnd
  return keyword ++ ' ' :: text

def scanTime : Scan σ Text := phrase "SimulationTime" do
  let _ ← skipBlanks
  let found ← peek
  if found = some '#' then
    let _ ← next
    let digits ← span Char.isDigit
    if digits = [] then refuse (.missing "a decimal time") else return '#' :: digits
  else refuse (.unexpectedCharacter '#' found)

def scanValues : Scan σ Text := phrase "SimulationValueCommand" do
  let keyword ← scanSimulationKeyword
  let changes ← collectAll (optionally ValueChange.scan)
  let _ ← Word.scanTag "end".toList
  return keyword ++ changes.flatMap (fun change => ' ' :: change.render) ++ ' ' :: Word.endTag

def scanComment : Scan σ Text := phrase "Comment" do
  let keyword ← Word.scanTag "comment".toList
  let text ← Word.scanToEnd
  return keyword ++ ' ' :: text

def scanSimulation : Scan σ Text := phrase "SimulationCommand"
  (otherwise (otherwise (otherwise (ValueChange.render <$> ValueChange.scan) scanTime) scanValues)
    scanComment)

def scanAll : Scan σ Text := phrase "VcdDefinitions" do
  let declarations ← collectAll (optionally scanDeclaration)
  let commands ← collectAll (optionally scanSimulation)
  return List.intercalate ['\n'] (declarations ++ commands)

end NetTrace.Vcd.Command
