import NetTrace.Input.Delivery
import NetTrace.Lexing

namespace NetTrace.Signal

section Loop

-- The equations of the loop leave its calls closed.
attribute [local irreducible] Stream.lex Stream.isExhausted

/-- At most `limit` keys up to the end of the stream. A read failure is told rather than what it
    made of the text. -/
def keysUpTo : Nat → Stream → Except Failure (List Text)
  | 0, _ => return []
  | limit + 1, stream =>
    match stream.isExhausted with
    | (true, rest) => do
      rest.checkFailure.1
      return []
    | (false, rest) =>
      match rest.lex .signalKey with
      | (.ok key, rest) => do return key :: (← keysUpTo limit rest)
      | (.error failure, rest) => do
        rest.checkFailure.1
        throw failure

variable {stream rest later : Stream}

theorem keysUpTo_ended (limit : Nat) (given : stream.isExhausted = (true, rest)) :
    keysUpTo (limit + 1) stream = (do
      rest.checkFailure.1
      return []) := by
  rw [keysUpTo, given]

theorem keysUpTo_ok (limit : Nat) {key : Text} (given : stream.isExhausted = (false, rest))
    (lexed : rest.lex .signalKey = (.ok key, later)) :
    keysUpTo (limit + 1) stream = (do return key :: (← keysUpTo limit later)) := by
  simp only [keysUpTo, given, lexed]

theorem keysUpTo_error (limit : Nat) {failure : Failure} (given : stream.isExhausted = (false, rest))
    (lexed : rest.lex .signalKey = (.error failure, later)) :
    keysUpTo (limit + 1) stream = (do
      later.checkFailure.1
      throw failure) := by
  simp only [keysUpTo, given, lexed]

end Loop

def keys (source : Source) : Except Failure (List Text) :=
  keysUpTo (source.size + 1) (Stream.ofSource source).skipBlanks.2

def dropRepeats : List Text → List Text
  | [] => []
  | [item] => [item]
  | item :: next :: others =>
    if item = next then dropRepeats (next :: others) else item :: dropRepeats (next :: others)

def whitelist (path : Text) (opened : Opened) : Except Failure (List Text) := do
  let found ← keys (← opened.source path)
  return dropRepeats (found.mergeSort Text.precedes)

end NetTrace.Signal
