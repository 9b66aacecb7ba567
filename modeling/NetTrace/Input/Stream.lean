import NetTrace.Input.Basic
import NetTrace.Text.Utf8

/-!
Streams: bytes that arrive in pieces. A stream holds the bytes since the last commit, so that any
position after it can be taken back, and reads on only when a character or a quotation needs it.
-/

namespace NetTrace

/-- What one attempt to read gives. An empty chunk is the end of the data. -/
inductive Read
  | chunk (bytes : Array UInt8)
  | interrupted
  | failed (reason : String)
  deriving DecidableEq

abbrev Source := List Read

namespace Source

def bytes : Source → List UInt8
  | [] => []
  | .chunk piece :: reads => if piece.isEmpty then [] else piece.toList ++ bytes reads
  | .interrupted :: reads => bytes reads
  | .failed _ :: _ => []

def size : Source → Nat
  | [] => 0
  | .chunk piece :: reads => if piece.isEmpty then 0 else piece.size + size reads
  | .interrupted :: reads => size reads
  | .failed _ :: _ => 0

theorem size_eq_length_bytes (source : Source) : source.size = source.bytes.length := by
  fun_induction size source <;> simp_all [bytes]

end Source

/-- The window of a stream lies around the position: the bytes behind it, the nearest first, and
    the bytes ahead of it. A source that ended or failed is left empty. -/
structure Stream where
  source : Source
  behind : List UInt8 := []
  ahead : List UInt8 := []
  offset : Nat := 0
  failure : Option String := none

namespace Stream

def ofSource (source : Source) : Stream := { source }

/-- Reads on until `count` bytes are ahead, or the source ends or fails. Interrupted reads are
    repeated. -/
def draw (count : Nat) : Source → List UInt8 → Source × List UInt8 × Option String
  | [], ahead => ([], ahead, none)
  | read :: reads, ahead =>
    if (ahead.take count).length = count then (read :: reads, ahead, none)
    else
      match read with
      | .chunk piece =>
        if piece.isEmpty then ([], ahead, none) else draw count reads (ahead ++ piece.toList)
      | .interrupted => draw count reads ahead
      | .failed reason => ([], ahead, some reason)

def fill (count : Nat) (stream : Stream) : Stream :=
  match draw count stream.source stream.ahead with
  | (source, ahead, failure) => { stream with source, ahead, failure := failure <|> stream.failure }

def fillCharacter (stream : Stream) : Stream :=
  let filled := stream.fill 1
  match filled.ahead with
  | [] => filled
  | lead :: _ => filled.fill (Utf8.announced lead)

def forward (count : Nat) (stream : Stream) : Stream :=
  let passed := stream.ahead.take count
  { stream with
    behind := passed.reverse ++ stream.behind
    ahead := stream.ahead.drop count
    offset := stream.offset + passed.length }

def back (count : Nat) (stream : Stream) : Stream :=
  let returned := stream.behind.take count
  { stream with
    behind := stream.behind.drop count
    ahead := returned.reverse ++ stream.ahead
    offset := stream.offset - returned.length }

def moveTo (offset : Nat) (stream : Stream) : Stream :=
  if offset ≤ stream.offset then stream.back (stream.offset - offset)
  else stream.forward (offset - stream.offset)

def commit (stream : Stream) : Stream := { stream with behind := [] }

def peek (stream : Stream) : Option Char × Stream :=
  let filled := stream.fillCharacter
  ((Utf8.front? filled.ahead).map Prod.fst, filled)

def next (stream : Stream) : Option Char × Stream :=
  let filled := stream.fillCharacter
  match Utf8.front? filled.ahead with
  | none => (none, filled)
  | some (c, width) => (some c, filled.forward width)

def excerpt (bytes : List UInt8) : Text :=
  Text.clip (Utf8.lenient (Excerpt.limit + 1) (Utf8.trimStart bytes))

def quote (offset : Nat) (stream : Stream) : Text × Stream :=
  let filled := (stream.moveTo offset).fill Excerpt.limit
  (excerpt filled.ahead, filled.moveTo stream.offset)

def remaining (stream : Stream) : Nat := stream.ahead.length + stream.source.size

def spanUpTo (test : Char → Bool) : Nat → Stream → Text × Stream
  | 0, stream => ([], stream)
  | limit + 1, stream =>
    match stream.peek with
    | (none, seen) => ([], seen)
    | (some c, seen) =>
      if test c then
        match spanUpTo test limit seen.next.2 with
        | (rest, stopped) => (c :: rest, stopped)
      else ([], seen)

def span (test : Char → Bool) (stream : Stream) : Text × Stream :=
  spanUpTo test (stream.remaining + 1) stream

def takeFailure (stream : Stream) : Option String × Stream :=
  (stream.failure, { stream with failure := none })

end Stream

instance : Input Stream Nat where
  peek := Stream.peek
  next := Stream.next
  span := Stream.span
  mark := Stream.offset
  rewind := Stream.moveTo
  quote := Stream.quote
  remaining := Stream.remaining

end NetTrace
