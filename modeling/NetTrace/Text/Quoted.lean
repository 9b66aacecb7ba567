import NetTrace.Text.Printable

namespace NetTrace.Text

def escape (quote c : Char) : Text :=
  if c = quote ∨ c = '\\' then ['\\', c]
  else if c = '\n' then "\\n".toList
  else if c = '\r' then "\\r".toList
  else if c = '\t' then "\\t".toList
  else if c = '\x00' then "\\0".toList
  else if Printable.isPrintable c then [c]
  else "\\u\x7b".toList ++ Nat.toDigits 16 c.toNat ++ ['\x7d']

def quoted (text : Text) : Text := '"' :: text.flatMap (escape '"') ++ ['"']

def quotedChar (c : Char) : Text := '\'' :: escape '\'' c ++ ['\'']

def describe (found : Option Char) : Text :=
  match found with
  | none => "end of input".toList
  | some c => if isSpace c then quotedChar c else ['\'', c, '\'']

end NetTrace.Text
