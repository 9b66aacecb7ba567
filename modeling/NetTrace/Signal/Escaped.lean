import NetTrace.Text.Basic

namespace NetTrace.Signal

def splitAtLastBracket? (name : Text) : Option (Text × Text) :=
  let reversed := name.reverse
  match reversed.dropWhile (· != '[') with
  | [] => none
  | bracket :: before => some (before.reverse, bracket :: (reversed.takeWhile (· != '[')).reverse)

/-- The name after a backslash and before a space. What stands in brackets at the end follows the
    space, and an escaped name is left as it is. -/
def escape (name : Text) : Text :=
  if name.head? = some '\\' then name
  else
    match splitAtLastBracket? name with
    | some (base, range) =>
      if range.getLast? = some ']' then '\\' :: base ++ ' ' :: range else '\\' :: name ++ [' ']
    | none => '\\' :: name ++ [' ']

end NetTrace.Signal
