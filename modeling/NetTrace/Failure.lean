import NetTrace.Netlist.Radix
import NetTrace.Text.Quoted

namespace NetTrace

inductive Cause
  | unexpectedCharacter (expected : Char) (found : Option Char) (input : Text)
  | unexpectedEnd (expected : String)
  | unterminatedName (input : Text)
  | emptyBody (radix : Netlist.Radix) (input : Text)
  | unknownRadix (found : Text) (input : Text)
  | unterminatedString (input : Text)
  | malformedRange (reason : String) (input : Text)
  | unbalanced (opening closing : Char) (reason : Text) (input : Text)
  | missingWord (word : Text) (input : Text)
  | missing (what : String) (input : Text)
  | overflow (literal : Text) (bits : Nat)
  | unreadableFile (path : Text) (reason : String)
  | readFailure (reason : String)
  deriving DecidableEq

namespace Cause

def message (cause : Cause) : String :=
  match cause with
  | unexpectedCharacter expected found input =>
    s!"Expected '{expected}' but found {String.ofList (Text.describe found)} in: {String.ofList input}"
  | unexpectedEnd expected => s!"Unexpected end of input, expected {expected}"
  | unterminatedName input =>
    s!"Escaped identifier has no trailing whitespace: {String.ofList input}"
  | emptyBody radix input => s!"No {radix.name} digits after radix marker in: {String.ofList input}"
  | unknownRadix found input => s!"Unknown radix {String.ofList found} in: {String.ofList input}"
  | unterminatedString input => s!"Unterminated string literal: {String.ofList input}"
  | malformedRange reason input => s!"Malformed bit range ({reason}): {String.ofList input}"
  | unbalanced opening closing reason input =>
    s!"Unbalanced '{opening}{closing}' delimiters ({String.ofList reason}): {String.ofList input}"
  | missingWord word input =>
    s!"Expected keyword '{String.ofList word}' in: {String.ofList input}"
  | missing what input => s!"Expected {what} in: {String.ofList input}"
  | overflow literal bits => s!"Literal does not fit in {bits} bits: {String.ofList literal}"
  | unreadableFile path reason => s!"Failed to read '{String.ofList path}': {reason}"
  | readFailure reason => s!"Stream read error: {reason}"

end Cause

structure Context where
  phrase : String
  input : Text
  deriving DecidableEq

def Context.line (context : Context) : String :=
  s!"\nFailed to parse {context.phrase} from: {String.ofList context.input}"

/-- The contexts are listed from the outermost phrase to the one that met the cause. -/
structure Failure where
  cause : Cause
  contexts : List Context := []
  deriving DecidableEq

namespace Failure

def within (failure : Failure) (phrase : String) (input : Text) : Failure :=
  { failure with contexts := ⟨phrase, input⟩ :: failure.contexts }

def trail (failure : Failure) : List String := failure.contexts.map Context.phrase

def message (failure : Failure) : String :=
  failure.contexts.foldr (fun context lines => lines ++ context.line) failure.cause.message

@[simp] theorem cause_within (failure : Failure) (phrase : String) (input : Text) :
    (failure.within phrase input).cause = failure.cause := rfl

@[simp] theorem trail_within (failure : Failure) (phrase : String) (input : Text) :
    (failure.within phrase input).trail = phrase :: failure.trail := rfl

end Failure

end NetTrace
