import NetTrace.Command
import NetTrace.Input.Delivery

open NetTrace

def openedAt (path : Text) : IO Opened := do
  try
    let bytes ← IO.FS.readBinFile (String.ofList path)
    return .ok (Delivery.source {} bytes.data.toList)
  catch reason => return .error (toString reason)

def main (arguments : List String) : IO UInt32 := do
  let arguments := arguments.map String.toList
  let path := (Command.ofArguments? arguments).bind Command.path?
  let opened ← match path with
    | some path => openedAt path
    | none => pure (.ok [])
  let report := Command.reportOn (fun _ => opened) arguments
  IO.print (String.ofList report.output)
  if report.complaint ≠ "" then IO.eprintln report.complaint
  return report.exit.toUInt32
