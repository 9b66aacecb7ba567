import NetTrace.Netlist.Token
import NetTrace.Signal.Whitelist
import NetTrace.Vcd.Header

namespace NetTrace

inductive Command
  | version
  | lex (phrase : Netlist.Phrase) (text : Text)
  | connections (text : Text)
  | parameters (text : Text)
  | literal (text : Text)
  | whitelist (path : Text)
  | declarations (path : Text)
  deriving DecidableEq

structure Report where
  exit : UInt8
  output : Text := []
  complaint : String := ""
  deriving DecidableEq

namespace Report

def success (lines : List Text) : Report :=
  { exit := 0, output := lines.flatMap (· ++ ['\n']) }

def failed (failure : Failure) : Report := { exit := 1, complaint := failure.message }

def misused : Report :=
  { exit := 2
    complaint := "usage: netlex (lex RULE | connections | params | literal) TEXT\n" ++
      "       netlex (whitelist | vcd-vars) FILE\n       netlex --version" }

def broken (violation : Violation) : Report := { exit := 101, complaint := violation.message }

end Report

namespace Command

/-- The values among the arguments of a command. Two hyphens by themselves are dropped and make
    values of all that follows; before them nothing else may start with a hyphen, except a single
    hyphen. -/
def values? : List Text → Option (List Text)
  | [] => some []
  | argument :: others =>
    if argument = "--".toList then some others
    else if argument.head? = some '-' ∧ argument ≠ ['-'] then none
    else (values? others).map (argument :: ·)

def named? (name : String) (values : List Text) : Option Command :=
  match name, values with
  | "lex", [phrase, text] => (Netlist.Phrase.ofName? (String.ofList phrase)).map (lex · text)
  | "connections", [text] => some (connections text)
  | "params", [text] => some (parameters text)
  | "literal", [text] => some (literal text)
  | "whitelist", [path] => if path = [] then none else some (whitelist path)
  | "vcd-vars", [path] => if path = [] then none else some (declarations path)
  | _, _ => none

def ofArguments? : List Text → Option Command
  | [] => none
  | first :: others =>
    if first = "--version".toList ∨ first = "-V".toList then some version
    else (values? others).bind (named? (String.ofList first))

def path? : Command → Option Text
  | whitelist path | declarations path => some path
  | _ => none

def report : Except Violation (Except Failure (List Text)) → Report
  | .ok (.ok lines) => .success lines
  | .ok (.error failure) => .failed failure
  | .error violation => .broken violation

def onToken (phrase : Netlist.Phrase) (text : Text)
    (lines : Text → Except Violation (Except Failure (List Text))) : Report :=
  match (Rule.netlist phrase).lex text with
  | .error failure => .failed failure
  | .ok (_, token) => report (lines token)

def line (fields : List Text) : Text := List.intercalate ['\t'] fields

def connectionLine (connection : Netlist.Connection) : Text :=
  line [connection.pinText, connection.element]

def variableLine (declared : Vcd.Variable) : Text :=
  line [declared.code, Numeral.decimal declared.width.toNat, declared.name]

def literalLine (token : Text) : Except Violation (Except Failure (List Text)) :=
  if token.head? = some '"' then .ok (.ok [line ["string".toList, token]])
  else do
    let number ← Netlist.Token.numericValue token
    return number.map fun number =>
      [line [Numeral.decimal number.width.toNat, Numeral.decimal number.value.toNat]]

def run (opened : Opened) : Command → Report
  | version => .success ["netlex 0.1.0".toList]
  | lex phrase text =>
    match (Rule.netlist phrase).lex text with
    | .error failure => .failed failure
    | .ok (rest, token) => .success ["token: ".toList ++ token, "rest:  ".toList ++ rest]
  | connections text => onToken .connectionList text fun token =>
    (fun found => .ok (found.map connectionLine)) <$> Netlist.Token.connections token
  | parameters text => onToken .moduleParameters text fun token =>
    (fun found => .ok (found.map connectionLine)) <$> Netlist.Token.blockParameters token
  | literal text => onToken .immediate text literalLine
  | whitelist path => report (.ok (opened.source path >>= Signal.keys))
  | declarations path => report (.ok do
    let found ← opened.source path >>= Vcd.Header.scan
    return found.map variableLine)

/-- What the program does with its arguments, where `parse` tells the command that they are or what
    is reported without one, and `opened` what opening a file gives. -/
def reportWith (parse : List Text → Except Report Command) (opened : Text → Opened)
    (arguments : List Text) : Report :=
  match parse arguments with
  | .error report => report
  | .ok command => command.run (opened (command.path?.getD []))

/-- Arguments that are no command are reported alike. No help is offered beyond that. -/
def parse (arguments : List Text) : Except Report Command :=
  match ofArguments? arguments with
  | none => .error .misused
  | some command => .ok command

def reportOn (opened : Text → Opened) (arguments : List Text) : Report :=
  reportWith parse opened arguments

end Command

end NetTrace
