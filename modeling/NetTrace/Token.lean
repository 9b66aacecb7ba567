import NetTrace.Scan

namespace NetTrace

inductive Violation
  | invalid (token : Text) (phrase : String) (failure : Failure)
  | incomplete (token : Text) (phrase : String) (rest : Text)
  | notNumeric (token : Text)
  deriving DecidableEq

def Violation.message : Violation → String
  | invalid token phrase failure =>
    s!"{String.ofList (Text.quoted token)} is not a valid {phrase}: {failure.message}"
  | incomplete token phrase rest =>
    s!"{String.ofList (Text.quoted token)} is not a complete {phrase}: trailing {String.ofList (Text.quoted rest)}"
  | notNumeric token => s!"string literal {String.ofList (Text.quoted token)} has no numeric value"

namespace Token

variable {α : Type}

def complete (phrase : String) (scan : Scan Text α) (token : Text) : Except Violation α :=
  match scan token with
  | .error failure _ => .error (.invalid token phrase failure)
  | .ok value rest =>
    if rest.dropWhile Text.isBlank = [] then .ok value
    else .error (.incomplete token phrase (rest.dropWhile Text.isBlank))

end Token

end NetTrace
