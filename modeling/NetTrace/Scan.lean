import NetTrace.Failure
import NetTrace.Input.Basic

namespace NetTrace

abbrev Scan (σ : Type) := EStateM Failure σ

namespace Scan

variable {σ μ α : Type} [Input σ μ]

def peek : Scan σ (Option Char) := modifyGet Input.peek

def next : Scan σ (Option Char) := modifyGet Input.next

def span (test : Char → Bool) : Scan σ Text := modifyGet (Input.span test)

def mark : Scan σ μ := fun input => .ok (Input.mark input) input

def rewind (position : μ) : Scan σ Unit := fun input => .ok () (Input.rewind position input)

def remaining : Scan σ Nat := fun input => .ok (Input.remaining input) input

def refuseFrom (start : μ) (cause : Text → Cause) : Scan σ α := fun input =>
  match Input.quote start input with
  | (excerpt, input) => .error { cause := cause excerpt } input

def refuse (cause : Text → Cause) : Scan σ α := fun input =>
  refuseFrom (Input.mark input) cause input

def refuseEnd (expected : String) : Scan σ α := throw { cause := .unexpectedEnd expected }

def outcome (scan : Scan σ α) : Scan σ (Except Failure α) := fun input =>
  match scan input with
  | .ok value input => .ok (.ok value) input
  | .error failure input => .ok (.error failure) input

def rewinding (scan : Scan σ α) : Scan σ α := fun input =>
  match scan input with
  | .ok value rest => .ok value rest
  | .error failure rest => .error failure (Input.rewind (Input.mark input) rest)

/-- A named phrase. If the scan refuses, the input from the start of the phrase is quoted, the input
    is taken back to it, and the failure tells that this phrase was entered. -/
def phrase (name : String) (scan : Scan σ α) : Scan σ α := fun input =>
  match scan input with
  | .ok value rest => .ok value rest
  | .error failure rest =>
    match Input.quote (Input.mark input) rest with
    | (excerpt, rest) =>
      .error (failure.within name excerpt) (Input.rewind (Input.mark input) rest)

def optionally (scan : Scan σ α) : Scan σ (Option α) := do
  match ← outcome (rewinding scan) with
  | .ok value => return some value
  | .error _ => return none

def otherwise (first second : Scan σ α) : Scan σ α := do
  match ← outcome first with
  | .ok value => return value
  | .error _ => second

def collect (limit : Nat) (step : Scan σ (Option α)) : Scan σ (List α) :=
  match limit with
  | 0 => return []
  | limit + 1 => do
    match ← step with
    | none => return []
    | some value => return value :: (← collect limit step)

/-- Repeats a step until it gives nothing. Every step that gives something must pass a character, so
    that the number of bytes left bounds the number of steps. -/
def collectAll (step : Scan σ (Option α)) : Scan σ (List α) := do
  collect ((← remaining) + 1) step

def skipBlanks : Scan σ Text := span Text.isBlank

def symbol (c : Char) : Scan σ Char := rewinding do
  let _ ← skipBlanks
  let found ← peek
  if found = some c then
    let _ ← next
    return c
  else refuse (.unexpectedCharacter c found)

def facing (c : Char) : Scan σ Bool := do
  let _ ← skipBlanks
  return (← peek) == some c

def commaListUpTo (limit : Nat) (item : Scan σ α) : Scan σ (List α) := do
  let first ← item
  let others ← collect limit do
    if ← facing ',' then
      let _ ← next
      return some (← item)
    else return none
  return first :: others

def commaList (item : Scan σ α) : Scan σ (List α) := do
  commaListUpTo ((← remaining) + 1) item

end Scan

end NetTrace
