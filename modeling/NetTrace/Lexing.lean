import NetTrace.Input.Stream
import NetTrace.Rule

namespace NetTrace

def Rule.lex (rule : Rule) (text : Text) : Except Failure (Text × Text) :=
  match rule.token text with
  | .ok token rest => .ok (rest, token)
  | .error failure _ => .error failure

def Text.splitBlanks (text : Text) : Text × Text :=
  (text.dropWhile Text.isBlank, text.takeWhile Text.isBlank)

namespace Stream

def lex (rule : Rule) (stream : Stream) : Except Failure Text × Stream :=
  match rule.token stream with
  | .ok token rest => (.ok token, rest.commit)
  | .error failure rest => (.error failure, (rest.moveTo stream.offset).commit)

def lexAll (rule : Rule) : Nat → Stream → List Text × Stream
  | 0, stream => ([], stream)
  | limit + 1, stream =>
    match stream.lex rule with
    | (.error _, rest) => ([], rest)
    | (.ok token, rest) =>
      match lexAll rule limit rest with
      | (tokens, rest) => (token :: tokens, rest)

def skipBlanks (stream : Stream) : Bool × Stream :=
  match stream.span Text.isBlank with
  | (blanks, rest) => (!blanks.isEmpty, rest.commit)

def isExhausted (stream : Stream) : Bool × Stream :=
  match stream.peek with
  | (found, seen) => (found.isNone, seen)

def checkFailure (stream : Stream) : Except Failure Unit × Stream :=
  match stream.takeFailure with
  | (some reason, rest) => (.error { cause := .readFailure reason }, rest)
  | (none, rest) => (.ok (), rest)

end Stream

end NetTrace
