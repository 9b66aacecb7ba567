import NetTrace.Lexing
import NetTrace.Proofs.Input.Window

namespace NetTrace.Cursor

inductive Operation
  | peek
  | next
  | mark
  | rewind (index : Nat)
  | quote (start : Nat)
  | isExhausted
  | takeFailure
  | commit

/-- What an operation tells of the position. What a quotation shows and whether reading has failed
    depend on how much was read ahead; they are not part of it. -/
inductive Told
  | character (found : Option Char)
  | position (offset : Nat)
  | flag (value : Bool)
  | nothing

structure Place where
  offset : Nat := 0
  marks : List Nat := []

inductive Does (bytes : List UInt8) (place : Place) : Operation → Told → Place → Prop
  | peek {found width} : Utf8.Fronts (bytes.drop place.offset) found width →
      Does bytes place .peek (.character found) place
  | next {found width} : Utf8.Fronts (bytes.drop place.offset) found width →
      Does bytes place .next (.character found) { place with offset := place.offset + width }
  | mark : Does bytes place .mark (.position place.offset)
      { place with marks := place.marks ++ [place.offset] }
  | rewind {index offset} : place.marks[index]? = some offset →
      Does bytes place (.rewind index) .nothing { place with offset }
  | unmarked {index} : place.marks[index]? = none →
      Does bytes place (.rewind index) .nothing place
  | quote (start : Nat) : Does bytes place (.quote start) .nothing place
  | isExhausted : Does bytes place .isExhausted (.flag (bytes.drop place.offset).isEmpty) place
  | takeFailure : Does bytes place .takeFailure .nothing place
  | commit : Does bytes place .commit .nothing { place with marks := [] }

inductive Runs (bytes : List UInt8) : List Operation → Place → List Told → Place → Prop
  | nil (place : Place) : Runs bytes [] place [] place
  | cons {operation operations place middle last told others} :
      Does bytes place operation told middle → Runs bytes operations middle others last →
      Runs bytes (operation :: operations) place (told :: others) last

structure Marked where
  stream : Stream
  marks : List Nat := []

def Marked.place (marked : Marked) : Place := ⟨marked.stream.offset, marked.marks⟩

def Operation.onStream : Operation → Marked → Told × Marked
  | peek, marked =>
    match marked.stream.peek with
    | (found, stream) => (.character found, { marked with stream })
  | next, marked =>
    match marked.stream.next with
    | (found, stream) => (.character found, { marked with stream })
  | mark, marked =>
    (.position marked.stream.offset, { marked with marks := marked.marks ++ [marked.stream.offset] })
  | rewind index, marked =>
    match marked.marks[index]? with
    | some offset => (.nothing, { marked with stream := marked.stream.moveTo offset })
    | none => (.nothing, marked)
  | quote start, marked => (.nothing, { marked with stream := (marked.stream.quote start).2 })
  | isExhausted, marked =>
    match marked.stream.isExhausted with
    | (ended, stream) => (.flag ended, { marked with stream })
  | takeFailure, marked => (.nothing, { marked with stream := marked.stream.takeFailure.2 })
  | commit, marked => (.nothing, { stream := marked.stream.commit })

def told : List Operation → Marked → List Told
  | [], _ => []
  | operation :: operations, marked =>
    (operation.onStream marked).1 :: told operations (operation.onStream marked).2

def after : List Operation → Marked → Marked
  | [], marked => marked
  | operation :: operations, marked => after operations (operation.onStream marked).2

end NetTrace.Cursor

namespace NetTrace.Stream

def window (stream : Stream) : List UInt8 := stream.behind.reverse ++ stream.ahead

def base (stream : Stream) : Nat := stream.offset - stream.behind.length

def index (stream : Stream) : Nat := stream.behind.length

/-- The window is what was read of the bytes since the last commit, and the position is in it. -/
structure Windowed (bytes : List UInt8) (stream : Stream) : Prop where
  window : ∃ passed, passed.length = stream.base ∧
    bytes = passed ++ stream.window ++ stream.source.bytes
  inside : stream.index ≤ stream.window.length
  mark : stream.offset = stream.base + stream.index

variable {bytes : List UInt8} {stream later : Stream} {offset : Nat}

theorem whole_eq_window (stream : Stream) : stream.whole = stream.window ++ stream.source.bytes := by
  rw [whole, following, window, List.append_assoc]

theorem index_le_window (stream : Stream) : stream.index ≤ stream.window.length := by
  simp only [index, window, List.length_append, List.length_reverse]
  omega

theorem windowed_iff : Windowed bytes stream ↔
    stream.behind.length ≤ stream.offset ∧
      ∃ passed, passed.length = stream.base ∧ bytes = passed ++ stream.whole := by
  constructor
  · intro windowed
    obtain ⟨passed, length, split⟩ := windowed.window
    have mark := windowed.mark
    simp only [index] at mark
    exact ⟨by omega, passed, length, by rw [split, whole_eq_window, List.append_assoc]⟩
  · rintro ⟨placed, passed, length, split⟩
    refine ⟨⟨passed, length, ?_⟩, index_le_window stream, ?_⟩
    · rw [split, whole_eq_window, List.append_assoc]
    · simp only [base, index]
      omega

theorem Windowed.extends (windowed : Windowed bytes stream) (extends' : stream.Extends later) :
    Windowed bytes later := by
  obtain ⟨placed, passed, length, split⟩ := windowed_iff.mp windowed
  have base' := extends'.base
  refine windowed_iff.mpr ⟨by omega, passed, ?_, by rw [extends'.whole, split]⟩
  simp only [base] at length ⊢
  omega

theorem Windowed.following (windowed : Windowed bytes stream) :
    stream.following = bytes.drop stream.offset := by
  obtain ⟨placed, passed, length, split⟩ := windowed_iff.mp windowed
  simp only [base] at length
  have start : stream.offset = passed.length + stream.behind.length := by omega
  rw [split, following_eq_drop, start, List.drop_length_add_append]

theorem Windowed.commit (windowed : Windowed bytes stream) : Windowed bytes stream.commit := by
  obtain ⟨placed, passed, length, split⟩ := windowed_iff.mp windowed
  simp only [base] at length
  refine windowed_iff.mpr ⟨Nat.zero_le _, passed ++ stream.behind.reverse, ?_, ?_⟩
  · simp only [base, Stream.commit, List.length_append, List.length_reverse, List.length_nil]
    omega
  · rw [split, List.append_assoc]
    rfl

theorem offset_next (stream : Stream) : stream.next.2.offset =
    stream.offset + (Utf8.front? stream.following).elim 0 Prod.snd := by
  obtain ⟨-, -, passed, counted⟩ := next_spec stream
  rw [passed] at counted
  unfold Utf8.passFront at counted
  cases found : Utf8.front? stream.following with
  | none =>
    have ended : stream.following = [] := by
      by_contra more
      obtain ⟨c, width, other⟩ := Utf8.exists_front? more
      rw [found] at other
      contradiction
    simp only [ended, List.length_nil] at counted
    exact counted
  | some given =>
    have inside := (Utf8.front?_width found).2
    simp only [found, List.length_drop] at counted
    simp only [Option.elim_some]
    omega

theorem ended_peek (stream : Stream) : stream.peek.1.isNone = stream.following.isEmpty := by
  rw [peek_eq]
  cases bytes : stream.following with
  | nil => rfl
  | cons lead rest =>
    obtain ⟨c, width, found⟩ := Utf8.exists_front? (List.cons_ne_nil lead rest)
    rw [found]
    rfl

end NetTrace.Stream

namespace NetTrace.Cursor

open NetTrace.Stream

variable {bytes : List UInt8} {marked : Marked}

structure Kept (bytes : List UInt8) (marked : Marked) : Prop where
  windowed : Windowed bytes marked.stream
  holds : ∀ offset ∈ marked.marks, ∃ left, marked.stream.Holds offset left

theorem Kept.extends (kept : Kept bytes marked) {later : Stream}
    (extends' : marked.stream.Extends later) : Kept bytes { marked with stream := later } where
  windowed := kept.windowed.extends extends'
  holds := fun offset member => by
    obtain ⟨left, holds⟩ := kept.holds offset member
    exact ⟨left, extends'.holds holds⟩

theorem Kept.fronts (kept : Kept bytes marked) :
    Utf8.Fronts (bytes.drop marked.stream.offset)
      ((Utf8.front? marked.stream.following).map Prod.fst)
      ((Utf8.front? marked.stream.following).elim 0 Prod.snd) := by
  rw [← kept.windowed.following]
  exact Utf8.fronts_iff.mpr ⟨rfl, rfl⟩

theorem does_onStream (operation : Operation) (kept : Kept bytes marked) :
    Does bytes marked.place operation (operation.onStream marked).1
      (operation.onStream marked).2.place ∧ Kept bytes (operation.onStream marked).2 := by
  have placed := (windowed_iff.mp kept.windowed).1
  cases operation with
  | peek =>
    have place := offset_peek marked.stream
    have found := peek_eq marked.stream
    have fronts := kept.fronts
    simp only [Operation.onStream, Marked.place, place, found]
    exact ⟨.peek fronts, kept.extends (extends_peek marked.stream)⟩
  | next =>
    obtain ⟨found, moved, -⟩ := next_spec marked.stream
    have place := offset_next marked.stream
    have fronts := kept.fronts
    simp only [Operation.onStream, Marked.place, place, found]
    exact ⟨.next fronts, kept.extends moved⟩
  | mark =>
    refine ⟨.mark, kept.windowed, fun offset member => ?_⟩
    rcases List.mem_append.mp member with earlier | here
    · exact kept.holds offset earlier
    · rw [List.mem_singleton.mp here]
      exact ⟨_, holds_position marked.stream⟩
  | rewind index =>
    cases found : marked.marks[index]? with
    | none =>
      simp only [Operation.onStream, found]
      exact ⟨.unmarked found, kept⟩
    | some offset =>
      obtain ⟨left, holds⟩ := kept.holds offset (List.mem_of_getElem? found)
      obtain ⟨moved, there, -⟩ := moveTo_of_holds holds
      simp only [Operation.onStream, found, Marked.place, there]
      exact ⟨.rewind found, kept.extends moved⟩
  | quote start =>
    obtain ⟨quoted, there, -⟩ := quote_spec (extends_moveTo placed start)
    simp only [Operation.onStream, Marked.place, there]
    exact ⟨.quote start, kept.extends quoted⟩
  | isExhausted =>
    have place := offset_peek marked.stream
    have ended := ended_peek marked.stream
    rw [kept.windowed.following] at ended
    simp only [Operation.onStream, Stream.isExhausted, Marked.place, place, ended]
    exact ⟨.isExhausted, kept.extends (extends_peek marked.stream)⟩
  | takeFailure => exact ⟨.takeFailure, kept.extends ⟨rfl, rfl, Nat.le_refl _⟩⟩
  | commit =>
    exact ⟨.commit, kept.windowed.commit, by simp [Operation.onStream]⟩

theorem runs_onStream (operations : List Operation) (kept : Kept bytes marked) :
    Runs bytes operations marked.place (told operations marked) (after operations marked).place ∧
      Kept bytes (after operations marked) := by
  induction operations generalizing marked with
  | nil => exact ⟨.nil _, kept⟩
  | cons operation operations ih =>
    obtain ⟨does, kept'⟩ := does_onStream operation kept
    obtain ⟨runs, last⟩ := ih kept'
    exact ⟨.cons does runs, last⟩

theorem Does.unique {place last last' : Place} {operation : Operation} {told told' : Told}
    (does : Does bytes place operation told last) (does' : Does bytes place operation told' last') :
    told = told' ∧ last = last' := by
  cases does with
  | peek fronts =>
    cases does' with
    | peek fronts' =>
      obtain ⟨rfl, -⟩ := fronts.unique fronts'
      exact ⟨rfl, rfl⟩
  | next fronts =>
    cases does' with
    | next fronts' =>
      obtain ⟨rfl, rfl⟩ := fronts.unique fronts'
      exact ⟨rfl, rfl⟩
  | rewind found =>
    cases does' with
    | rewind found' =>
      rw [found] at found'
      cases found'
      exact ⟨rfl, rfl⟩
    | unmarked absent =>
      rw [found] at absent
      contradiction
  | unmarked absent =>
    cases does' with
    | rewind found =>
      rw [found] at absent
      contradiction
    | unmarked => exact ⟨rfl, rfl⟩
  | mark => cases does'; exact ⟨rfl, rfl⟩
  | quote start => cases does'; exact ⟨rfl, rfl⟩
  | isExhausted => cases does'; exact ⟨rfl, rfl⟩
  | takeFailure => cases does'; exact ⟨rfl, rfl⟩
  | commit => cases does'; exact ⟨rfl, rfl⟩

theorem kept_ofSource (source : Source) : Kept source.bytes { stream := ofSource source } where
  windowed := windowed_iff.mpr ⟨Nat.le_refl 0, [], rfl, rfl⟩
  holds := by simp

theorem Runs.unique {operations : List Operation} {place last last' : Place} {told told' : List Told}
    (runs : Runs bytes operations place told last) (runs' : Runs bytes operations place told' last') :
    told = told' := by
  induction runs generalizing told' with
  | nil =>
    cases runs'
    rfl
  | cons does runs ih =>
    cases runs' with
    | cons does' runs' =>
      obtain ⟨rfl, rfl⟩ := does.unique does'
      rw [ih runs']

/-- Whatever is done with a stream tells what it tells of a plain cursor over the bytes of the
    source, and so does not depend on how these arrive. In the end the window holds the bytes from
    the last commit to the last that was read, and the position is in it. -/
theorem stream_refines_cursor (source : Source) (operations : List Operation) :
    let last := after operations { stream := ofSource source }
    Runs source.bytes operations {} (told operations { stream := ofSource source }) last.place ∧
      Windowed source.bytes last.stream ∧
      ∀ other : Source, other.bytes = source.bytes →
        told operations { stream := ofSource other } =
          told operations { stream := ofSource source } := by
  intro last
  obtain ⟨runs, kept⟩ := runs_onStream operations (kept_ofSource source)
  refine ⟨runs, kept.windowed, fun other same => ?_⟩
  -- Both tell a run of the plain cursor, and there is only one.
  have kept' := kept_ofSource other
  rw [same] at kept'
  exact (runs_onStream operations kept').1.unique runs

end NetTrace.Cursor
