import NetTrace.Text.Basic

namespace NetTrace

def Excerpt.limit : Nat := 80

namespace Text

/-- At most `count` characters of the first line. A line ends at a line feed, which may follow a
    carriage return; a carriage return alone does not end it. -/
def lineStart : Nat → Text → Text
  | 0, _ => []
  | _ + 1, [] => []
  | _ + 1, '\n' :: _ => []
  | _ + 1, '\r' :: '\n' :: _ => []
  | count + 1, c :: rest => c :: lineStart count rest

/-- The first line, cut at the limit; three dots stand for the rest of the text. One character more
    than the limit decides whether there is a rest. -/
def clip (text : Text) : Text :=
  let shown := lineStart Excerpt.limit text
  if text.drop shown.length = [] then shown else shown ++ "...".toList

def excerpt (text : Text) : Text := clip (trimStart text)

end Text

end NetTrace
