import NetTrace.Binary64.Basic

namespace NetTrace.Binary64

def readExponent? (text : Text) : Option Int :=
  match text with
  | '-' :: rest => (whole? rest).map fun n => -(n : Int)
  | '+' :: rest => (whole? rest).map Int.ofNat
  | rest => (whole? rest).map Int.ofNat
where
  whole? (run : Text) : Option Nat :=
    if run ≠ [] ∧ run.all Char.isDigit then some (Numeral.value 10 run) else none

def readDecimal? (text : Text) : Option (Text × Int) :=
  let whole := text.takeWhile Char.isDigit
  let afterWhole := text.dropWhile Char.isDigit
  let (fraction, rest) :=
    match afterWhole with
    | '.' :: tail => (tail.takeWhile Char.isDigit, tail.dropWhile Char.isDigit)
    | _ => ([], afterWhole)
  if whole = [] ∧ fraction = [] then none
  else
    match rest with
    | [] => some (whole ++ fraction, -(fraction.length : Int))
    | mark :: tail =>
      if mark = 'e' ∨ mark = 'E' then
        (readExponent? tail).map fun exponent => (whole ++ fraction, exponent - fraction.length)
      else none

/-- The number nearest to `n * 10 ^ exponent`. A magnitude of more than 310 digits is above every
    finite number and one below `10 ^ -330` is under half the least, which settles them without
    computing the power. -/
def ofDecimal (negative : Bool) (n : Nat) (exponent : Int) : Binary64 :=
  let order := (Numeral.decimal n).length + exponent
  if n = 0 ∨ order < -330 then zero negative
  else if 310 < order then .infinite negative
  else
    nearest negative (n * Nat.pow 10 exponent.toNat * Nat.pow 2 1074)
      (Nat.pow 10 (-exponent).toNat)

def readMagnitude? (negative : Bool) (text : Text) : Option Binary64 :=
  let word := text.map Char.toLower
  if word = "inf".toList ∨ word = "infinity".toList then some (.infinite negative)
  else if word = "nan".toList then some .nan
  else (readDecimal? text).map fun (digits, exponent) =>
    ofDecimal negative (Numeral.value 10 digits) exponent

def read? (text : Text) : Option Binary64 :=
  match text with
  | '-' :: rest => readMagnitude? true rest
  | '+' :: rest => readMagnitude? false rest
  | rest => readMagnitude? false rest

end NetTrace.Binary64
