import NetTrace.Text.Basic

namespace NetTrace.Utf8

def encode (text : Text) : List UInt8 := text.flatMap String.utf8EncodeChar

def replacement : Char := '\ufffd'

def announced (lead : UInt8) : Nat :=
  if 0xc0 ≤ lead ∧ lead ≤ 0xdf then 2
  else if 0xe0 ≤ lead ∧ lead ≤ 0xef then 3
  else if 0xf0 ≤ lead ∧ lead ≤ 0xf7 then 4
  else 1

def firstChar? (bytes : List UInt8) : Option Char :=
  match bytes with
  | [] => none
  | lead :: rest =>
    if lead < 0x80 then some (Char.ofUInt8 lead)
    else (lead :: rest.take 3).toByteArray.utf8DecodeChar? 0

/-- The character at the front of the bytes and the number of bytes that it takes. Where no
    complete character starts, one byte is read as the replacement character. -/
def front? (bytes : List UInt8) : Option (Char × Nat) :=
  match bytes with
  | [] => none
  | lead :: _ =>
    match firstChar? (bytes.take (announced lead)) with
    | some c => some (c, c.utf8Size)
    | none => some (replacement, 1)

def isContinuation (byte : UInt8) : Bool := 0x80 ≤ byte && byte ≤ 0xbf

/-- Whether the second byte may follow the first in a character of three or four bytes. The ranges
    shut out overlong forms, surrogates and values above U+10FFFF. -/
def follows (lead second : UInt8) : Bool :=
  if lead == 0xe0 then 0xa0 ≤ second && second ≤ 0xbf
  else if lead == 0xed then 0x80 ≤ second && second ≤ 0x9f
  else if lead == 0xf0 then 0x90 ≤ second && second ≤ 0xbf
  else if lead == 0xf4 then 0x80 ≤ second && second ≤ 0x8f
  else isContinuation second

/-- How many of the bytes after a first byte belong to the same malformed sequence: as many as
    could still have become a character. -/
def malformedTail (lead : UInt8) (rest : List UInt8) : Nat :=
  if 0xe0 ≤ lead ∧ lead ≤ 0xef then
    match rest with
    | second :: _ => if follows lead second then 1 else 0
    | [] => 0
  else if 0xf0 ≤ lead ∧ lead ≤ 0xf4 then
    match rest with
    | second :: third :: _ =>
      if follows lead second then if isContinuation third then 2 else 1 else 0
    | [second] => if follows lead second then 1 else 0
    | [] => 0
  else 0

def lenientFront (lead : UInt8) (rest : List UInt8) : Char × Nat :=
  match firstChar? (lead :: rest) with
  | some c => (c, c.utf8Size)
  | none => (replacement, malformedTail lead rest + 1)

def lenientFrom : Nat → Nat → List UInt8 → Text
  | _, _, [] => []
  | limit, skip + 1, _ :: rest => lenientFrom limit skip rest
  | 0, 0, _ :: _ => []
  | limit + 1, 0, lead :: rest =>
    match lenientFront lead rest with
    | (c, width) => c :: lenientFrom limit (width - 1) rest

def lenient (limit : Nat) (bytes : List UInt8) : Text := lenientFrom limit 0 bytes

def trimStartFrom : Nat → List UInt8 → List UInt8
  | _, [] => []
  | skip + 1, _ :: rest => trimStartFrom skip rest
  | 0, lead :: rest =>
    match lenientFront lead rest with
    | (c, width) => if Text.isSpace c then trimStartFrom (width - 1) rest else lead :: rest

def trimStart (bytes : List UInt8) : List UInt8 := trimStartFrom 0 bytes

end NetTrace.Utf8
