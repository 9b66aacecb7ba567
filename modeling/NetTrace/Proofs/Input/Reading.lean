import NetTrace.Proofs.Input.View
import NetTrace.Proofs.Input.Window

namespace NetTrace.Stream

/-- The place on the way through the bytes where these are left and read as the text. Offsets are
    counted so that `total` is the offset of the end. -/
structure Placed (bytes : List UInt8) (total offset : Nat) (left : List UInt8) (text : Text) :
    Prop where
  reached : ∃ count, left = Utf8.after count bytes
  reads : text = Utf8.decode left
  counted : offset + left.length = total

def view (bytes : List UInt8) (total : Nat) : View Stream Nat where
  Shows stream text := Placed bytes total stream.offset stream.following text
  Stands stream mark text := ∃ left, stream.Holds mark left ∧ Placed bytes total mark left text

variable {bytes left : List UInt8} {total offset : Nat} {text : Text} {stream later : Stream}

theorem passes_of_extends (extends' : stream.Extends later)
    (placed : Placed bytes total later.offset later.following text) :
    (view bytes total).Passes stream later text where
  shows := placed
  stands := fun {mark place} stands => by
    rcases stands with ⟨left, holds, placed'⟩
    exact ⟨left, extends'.holds holds, placed'⟩

theorem Placed.tail (placed : Placed bytes total stream.offset stream.following text) :
    Placed bytes total stream.next.2.offset stream.next.2.following text.tail := by
  rcases next_spec stream with ⟨-, -, passed, counted⟩
  rcases placed.reached with ⟨count, same⟩
  have reads : text.tail = Utf8.decode stream.next.2.following := by
    rw [passed, Utf8.decode_passFront, placed.reads]
  exact ⟨⟨count + 1, by rw [passed, same, Utf8.after]⟩, reads, counted.trans placed.counted⟩

theorem Placed.peek (placed : Placed bytes total stream.offset stream.following text) :
    Placed bytes total stream.peek.2.offset stream.peek.2.following text := by
  rw [offset_peek, following_peek]
  exact placed

theorem Placed.head (placed : Placed bytes total stream.offset stream.following text) :
    (Utf8.front? stream.following).map Prod.fst = text.head? := by
  rw [placed.reads, Utf8.head?_decode]

theorem spanUpTo_spec (test : Char → Bool) {limit : Nat} (above : text.length < limit)
    (placed : Placed bytes total stream.offset stream.following text) :
    (stream.spanUpTo test limit).1 = text.takeWhile test ∧
      (view bytes total).Passes stream (stream.spanUpTo test limit).2 (text.dropWhile test) := by
  -- By induction on the limit, which is above the number of characters left.
  induction limit generalizing stream text with
  | zero => omega
  | succ limit ih =>
    have passed := passes_of_extends (extends_peek stream) placed.peek
    have head : stream.peek.1 = text.head? := by rw [peek_eq, placed.head]
    unfold spanUpTo
    rcases peeked : stream.peek with ⟨found, seen⟩
    rw [peeked] at head passed
    have shown : Placed bytes total seen.offset seen.following text := passed.shows
    cases text with
    | nil =>
      have none : found = none := head
      subst none
      exact ⟨rfl, passed⟩
    | cons c rest =>
      have some : found = some c := head
      subst some
      by_cases holds : test c = true
      · have next := passes_of_extends (next_spec seen).2.1 shown.tail
        have shorter : rest.length < limit := by simpa using above
        rcases ih shorter shown.tail with ⟨front, others⟩
        simp only [holds, if_true, List.takeWhile_cons_of_pos, List.dropWhile_cons_of_pos]
        exact ⟨by rw [front], passed.trans (next.trans others)⟩
      · rw [List.takeWhile_cons_of_neg holds, List.dropWhile_cons_of_neg holds]
        simp only [holds]
        exact ⟨rfl, passed⟩

theorem Placed.length_le (placed : Placed bytes total stream.offset stream.following text) :
    text.length ≤ stream.remaining := by
  have shorter := Utf8.length_decode_le stream.following
  rw [← placed.reads, following, List.length_append, ← Source.size_eq_length_bytes] at shorter
  exact shorter

theorem Placed.span (test : Char → Bool)
    (placed : Placed bytes total stream.offset stream.following text) :
    (stream.span test).1 = text.takeWhile test ∧
      (view bytes total).Passes stream (stream.span test).2 (text.dropWhile test) :=
  spanUpTo_spec test (Nat.lt_succ_of_le placed.length_le) placed

theorem faithful_view (bytes : List UInt8) (total : Nat) : (view bytes total).Faithful where
  stands_mark {stream text} shows := ⟨stream.following, holds_position stream, shows⟩
  head_peek {stream text} shows := (peek_eq stream).trans shows.head
  after_peek {stream text} shows := passes_of_extends (extends_peek stream) shows.peek
  head_next {stream text} shows := (next_spec stream).1.trans shows.head
  after_next {stream text} shows := passes_of_extends (next_spec stream).2.1 shows.tail
  front_span {stream text} test shows := (shows.span test).1
  after_span {stream text} test shows := (shows.span test).2
  after_rewind {stream mark place} stands := by
    rcases stands with ⟨left, holds, placed⟩
    rcases moveTo_of_holds holds with ⟨moved, there, same⟩
    apply passes_of_extends moved
    rw [there, same]
    exact placed
  after_quote {stream text mark place} shows stands := by
    rcases stands with ⟨left, holds, -⟩
    rcases quote_spec (moveTo_of_holds holds).1 with ⟨quoted, there, same⟩
    apply passes_of_extends quoted
    rw [there, same]
    exact shows
  remaining {stream text} shows := shows.length_le

theorem Placed.unique {offset' : Nat} {left' : List UInt8}
    (placed : Placed bytes total offset left text)
    (placed' : Placed bytes total offset' left' text) : offset = offset' ∧ left = left' := by
  rcases placed.reached with ⟨count, rfl⟩
  rcases placed'.reached with ⟨count', rfl⟩
  have same := Utf8.after_of_decode (placed.reads.symm.trans placed'.reads)
  have counted := placed.counted
  have counted' := placed'.counted
  rw [same] at counted
  exact ⟨by omega, same⟩

theorem placed_self (stream : Stream) :
    Placed stream.following (stream.offset + stream.following.length) stream.offset
      stream.following (Utf8.decode stream.following) :=
  ⟨⟨0, rfl⟩, rfl, rfl⟩

theorem Placed.encoded {whole rest : Text}
    (placed : Placed (Utf8.encode whole) (Text.byteLength whole) offset left rest) :
    left = Utf8.encode rest ∧
      ∃ consumed, whole = consumed ++ rest ∧ offset = Text.byteLength consumed := by
  rcases placed.reached with ⟨count, same⟩
  rw [Utf8.after_encode] at same
  have shown : rest = whole.drop count := by rw [placed.reads, same, Utf8.decode_encode]
  have counted := placed.counted
  rw [same, Utf8.length_encode] at counted
  have split : whole = whole.take count ++ rest := by rw [shown, List.take_append_drop]
  have lengths := congrArg Text.byteLength split
  rw [Text.byteLength_append, shown] at lengths
  exact ⟨by rw [same, shown], whole.take count, split, by omega⟩

end NetTrace.Stream
