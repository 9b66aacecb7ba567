import NetTrace.Failure
import NetTrace.Input.Stream

namespace NetTrace

/-- A reader gives at most `capacity` bytes at a time. A read that starts where an interruption is
    listed is interrupted, once for every time it is listed; then a read that starts where the
    failure stands fails. No chunk reaches beyond such a place. -/
structure Delivery where
  capacity : Nat := 8192
  failure : Option (Nat × String) := none
  interruptions : List Nat := []

namespace Delivery

def fails (delivery : Delivery) (offset : Nat) : Option String :=
  match delivery.failure with
  | some (place, reason) => if place = offset then some reason else none
  | none => none

def events (delivery : Delivery) (offset : Nat) : Source :=
  List.replicate (delivery.interruptions.count offset) .interrupted ++
    (delivery.fails offset).toList.map .failed

def chunk (held : List UInt8) : Source :=
  if held.isEmpty then [] else [.chunk held.reverse.toArray]

def readsFrom (delivery : Delivery) (offset room : Nat) (held : List UInt8) : List UInt8 → Source
  | [] => chunk held ++ delivery.events offset
  | byte :: bytes =>
    if (delivery.fails offset).isSome then chunk held ++ delivery.events offset
    else if room = 0 ∨ delivery.interruptions.contains offset then
      chunk held ++ delivery.events offset ++
        delivery.readsFrom (offset + 1) (delivery.capacity - 1) [byte] bytes
    else delivery.readsFrom (offset + 1) (room - 1) (byte :: held) bytes

def source (delivery : Delivery) (bytes : List UInt8) : Source :=
  delivery.readsFrom 0 delivery.capacity [] bytes

end Delivery

abbrev Opened := Except String Source

def Opened.source (opened : Opened) (path : Text) : Except Failure Source :=
  opened.mapError fun reason => { cause := .unreadableFile path reason }

end NetTrace
