import NetTrace.Lexing
import NetTrace.Vcd.Token

namespace NetTrace.Vcd.Header

section Loop

-- The equation of the loop leaves its call closed.
attribute [local irreducible] Stream.lex

/-- The variables of at most `limit` commands. The header ends with its closing command or at the
    first text that is no command, unless reading failed there. -/
def scanUpTo : Nat → Stream → Except Failure (List Variable)
  | 0, _ => return []
  | limit + 1, stream =>
    match stream.lex (.vcd .declarationCommand) with
    | (.error _, rest) => do
      rest.checkFailure.1
      return []
    | (.ok command, rest) => do
      if "$var ".toList.isPrefixOf command then
        let declared ← Token.declaration command
        return declared :: (← scanUpTo limit rest)
      else if "$enddefinitions".toList.isPrefixOf command then return []
      else scanUpTo limit rest

variable {limit : Nat} {stream rest : Stream}

theorem scanUpTo_ok {command : Text} (given : stream.lex (.vcd .declarationCommand) = (.ok command, rest)) :
    scanUpTo (limit + 1) stream =
      if "$var ".toList.isPrefixOf command then do
        let declared ← Token.declaration command
        return declared :: (← scanUpTo limit rest)
      else if "$enddefinitions".toList.isPrefixOf command then return []
      else scanUpTo limit rest := by
  rw [scanUpTo, given]

theorem scanUpTo_error {failure : Failure}
    (given : stream.lex (.vcd .declarationCommand) = (.error failure, rest)) :
    scanUpTo (limit + 1) stream = do
      rest.checkFailure.1
      return [] := by
  rw [scanUpTo, given]

end Loop

def scan (source : Source) : Except Failure (List Variable) :=
  scanUpTo (source.size + 1) (Stream.ofSource source)

end NetTrace.Vcd.Header
