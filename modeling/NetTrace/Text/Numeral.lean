import NetTrace.Text.Basic

namespace NetTrace.Numeral

/-- The value of a digit, letters in either case counting from ten; a character that is no digit in
    any base has a value that no base admits. -/
def digitValue (c : Char) : Nat :=
  if c.isDigit then c.toNat - '0'.toNat
  else if 'a' ≤ c ∧ c ≤ 'z' then c.toNat - 'a'.toNat + 10
  else if 'A' ≤ c ∧ c ≤ 'Z' then c.toNat - 'A'.toNat + 10
  else 36

def value (base : Nat) (digits : Text) : Nat :=
  digits.foldl (fun sum c => sum * base + digitValue c) 0

def word32? (base : Nat) (digits : Text) : Option UInt32 :=
  if value base digits < UInt32.size then some (UInt32.ofNat (value base digits)) else none

def word64? (base : Nat) (digits : Text) : Option UInt64 :=
  if value base digits < UInt64.size then some (UInt64.ofNat (value base digits)) else none

def decimal (n : Nat) : Text := Nat.toDigits 10 n

end NetTrace.Numeral
