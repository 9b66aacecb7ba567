import NetTrace.Input.Stream
import NetTrace.Proofs.Text.Utf8

namespace NetTrace.Stream

/-- The bytes after the position, those included that are still to be read. -/
def following (stream : Stream) : List UInt8 := stream.ahead ++ stream.source.bytes

def whole (stream : Stream) : List UInt8 := stream.behind.reverse ++ stream.following

/-- A later state between the same commits: the bytes are the same, and so is the offset of the
    first of them; no less of them is in view. -/
structure Extends (stream later : Stream) : Prop where
  whole : later.whole = stream.whole
  base : stream.offset + later.behind.length = later.offset + stream.behind.length
  view : stream.behind.length + stream.ahead.length ≤ later.behind.length + later.ahead.length

def Holds (stream : Stream) (offset : Nat) (bytes : List UInt8) : Prop :=
  ∃ index, index ≤ stream.behind.length + stream.ahead.length ∧
    offset + stream.behind.length = stream.offset + index ∧ bytes = stream.whole.drop index

namespace Extends

variable {stream middle later : Stream}

theorem trans (first : stream.Extends middle) (second : middle.Extends later) :
    stream.Extends later where
  whole := second.whole.trans first.whole
  base := by
    have base := first.base
    have base' := second.base
    omega
  view := Nat.le_trans first.view second.view

theorem holds (extends' : stream.Extends later) {offset : Nat} {bytes : List UInt8}
    (holds : stream.Holds offset bytes) : later.Holds offset bytes := by
  rcases holds with ⟨index, inside, placed, rfl⟩
  have base := extends'.base
  have view := extends'.view
  exact ⟨index, by omega, by omega, by rw [extends'.whole]⟩

end Extends

theorem following_eq_drop (stream : Stream) :
    stream.following = stream.whole.drop stream.behind.length := by
  rw [whole, ← List.length_reverse, List.drop_left]

theorem holds_position (stream : Stream) : stream.Holds stream.offset stream.following :=
  ⟨stream.behind.length, Nat.le_add_right _ _, rfl, following_eq_drop stream⟩

section Filling

theorem draw_bytes (count : Nat) (source : Source) (ahead : List UInt8) :
    (draw count source ahead).2.1 ++ (draw count source ahead).1.bytes = ahead ++ source.bytes := by
  fun_induction draw count source ahead <;> simp_all [Source.bytes]

theorem draw_length (count : Nat) (source : Source) (ahead : List UInt8) :
    ahead.length ≤ (draw count source ahead).2.1.length := by
  fun_induction draw count source ahead with
  | case1 => exact Nat.le_refl _
  | case2 => exact Nat.le_refl _
  | case3 => exact Nat.le_refl _
  | case4 _ _ _ piece _ ih =>
    rw [List.length_append] at ih
    exact Nat.le_trans (Nat.le_add_right _ _) ih
  | case5 _ _ _ ih => exact ih
  | case6 => exact Nat.le_refl _

theorem draw_enough (count : Nat) (source : Source) (ahead : List UInt8) :
    count ≤ (draw count source ahead).2.1.length ∨ (draw count source ahead).1 = [] := by
  fun_induction draw count source ahead with
  | case1 ahead => exact .inr rfl
  | case2 read reads ahead enough =>
    rw [List.length_take] at enough
    have inView : count ≤ ahead.length := by omega
    exact .inl inView
  | case3 => exact .inr rfl
  | case4 _ _ _ _ _ ih => exact ih
  | case5 _ _ _ ih => exact ih
  | case6 => exact .inr rfl

variable (count : Nat) (stream : Stream)

theorem following_fill : (stream.fill count).following = stream.following :=
  draw_bytes count stream.source stream.ahead

theorem extends_fill : stream.Extends (stream.fill count) where
  whole := by
    have same := following_fill count stream
    rw [whole, whole, same]
    rfl
  base := rfl
  view := Nat.add_le_add_left (draw_length count stream.source stream.ahead) _

theorem fill_enough :
    count ≤ (stream.fill count).ahead.length ∨
      (stream.fill count).ahead = (stream.fill count).following := by
  rcases draw_enough count stream.source stream.ahead with enough | ended
  · exact .inl enough
  · have ended' : (stream.fill count).source = [] := ended
    exact .inr (by rw [following, ended', Source.bytes, List.append_nil])

end Filling

section Moving

variable {stream : Stream} {count offset : Nat} {bytes : List UInt8}

theorem whole_forward (count : Nat) (stream : Stream) :
    (stream.forward count).whole = stream.whole := by
  simp only [whole, following, forward, List.reverse_append, List.reverse_reverse,
    List.append_assoc]
  rw [← List.append_assoc (stream.ahead.take count), List.take_append_drop]

theorem whole_back (count : Nat) (stream : Stream) : (stream.back count).whole = stream.whole := by
  simp only [whole, following, back, List.append_assoc]
  rw [← List.append_assoc, ← List.reverse_append, List.take_append_drop]

theorem following_forward (inside : count ≤ stream.ahead.length) :
    (stream.forward count).following = stream.following.drop count := by
  simp only [following, forward, List.drop_append_of_le_length inside]

theorem offset_forward (inside : count ≤ stream.ahead.length) :
    (stream.forward count).offset = stream.offset + count := by
  simp only [forward, List.length_take, Nat.min_eq_left inside]

theorem offset_back (inside : count ≤ stream.behind.length) :
    (stream.back count).offset = stream.offset - count := by
  simp only [back, List.length_take, Nat.min_eq_left inside]

theorem extends_forward (count : Nat) (stream : Stream) :
    stream.Extends (stream.forward count) where
  whole := whole_forward count stream
  base := by
    simp only [forward, List.length_append, List.length_reverse, List.length_take]
    omega
  view := by
    simp only [forward, List.length_append, List.length_reverse, List.length_take,
      List.length_drop]
    omega

theorem extends_back (placed : min count stream.behind.length ≤ stream.offset) :
    stream.Extends (stream.back count) where
  whole := whole_back count stream
  base := by
    simp only [back, List.length_take, List.length_drop]
    omega
  view := by
    simp only [back, List.length_append, List.length_reverse, List.length_take,
      List.length_drop]
    omega

theorem extends_moveTo (placed : stream.behind.length ≤ stream.offset) (offset : Nat) :
    stream.Extends (stream.moveTo offset) := by
  unfold moveTo
  split
  · exact extends_back (by omega)
  · exact extends_forward _ stream

theorem moveTo_of_holds (holds : stream.Holds offset bytes) :
    stream.Extends (stream.moveTo offset) ∧ (stream.moveTo offset).offset = offset ∧
      (stream.moveTo offset).following = bytes := by
  rcases holds with ⟨index, inside, placed, rfl⟩
  unfold moveTo
  by_cases before : offset ≤ stream.offset
  · have behind : stream.offset - offset ≤ stream.behind.length := by omega
    rw [if_pos before]
    refine ⟨extends_back (by omega), ?_, ?_⟩
    · rw [offset_back behind]
      omega
    · have left : (stream.back (stream.offset - offset)).behind.length = index := by
        simp only [back, List.length_drop]
        omega
      rw [following_eq_drop, whole_back, left]
  · have ahead : offset - stream.offset ≤ stream.ahead.length := by omega
    rw [if_neg before]
    refine ⟨extends_forward _ stream, ?_, ?_⟩
    · rw [offset_forward ahead]
      omega
    · have reached : stream.behind.length + (offset - stream.offset) = index := by omega
      rw [following_forward ahead, following_eq_drop, List.drop_drop, reached]

end Moving

section Characters

variable (stream : Stream)

theorem extends_fillCharacter : stream.Extends stream.fillCharacter := by
  have filled := extends_fill 1 stream
  unfold fillCharacter
  cases ahead : (stream.fill 1).ahead with
  | nil => simpa only [ahead] using filled
  | cons lead rest =>
    simpa only [ahead] using filled.trans (extends_fill (Utf8.announced lead) (stream.fill 1))

theorem following_fillCharacter : stream.fillCharacter.following = stream.following := by
  unfold fillCharacter
  cases ahead : (stream.fill 1).ahead with
  | nil => simpa only [ahead] using following_fill 1 stream
  | cons lead rest =>
    simp only [ahead]
    rw [following_fill, following_fill]

theorem offset_fillCharacter : stream.fillCharacter.offset = stream.offset := by
  unfold fillCharacter
  cases ahead : (stream.fill 1).ahead <;> simp only [ahead] <;> rfl

theorem front?_fill {stream : Stream} {lead : UInt8} {rest : List UInt8}
    (ahead : stream.ahead = lead :: rest) :
    Utf8.front? (stream.fill (Utf8.announced lead)).ahead = Utf8.front? stream.following := by
  have same := following_fill (Utf8.announced lead) stream
  rcases fill_enough (Utf8.announced lead) stream with enough | ended
  · have grown : stream.ahead.length ≤ (stream.fill (Utf8.announced lead)).ahead.length :=
      draw_length _ _ _
    rw [← same]
    cases inView : (stream.fill (Utf8.announced lead)).ahead with
    | nil =>
      rw [inView, ahead] at grown
      contradiction
    | cons lead' rest' =>
      rw [following, following, inView, ahead] at same
      have heads : lead' = lead := (List.cons.inj same).1
      rw [inView] at enough
      rw [following, inView, heads, Utf8.front?_append lead rest' _ enough]
  · rw [ended, same]

theorem front?_fillCharacter :
    Utf8.front? stream.fillCharacter.ahead = Utf8.front? stream.following := by
  have same := following_fill 1 stream
  unfold fillCharacter
  cases ahead : (stream.fill 1).ahead with
  | nil =>
    rcases fill_enough 1 stream with enough | ended
    · rw [ahead] at enough
      contradiction
    · simp only [ahead]
      rw [← same, ← ended, ahead]
  | cons lead rest =>
    simp only [ahead]
    rw [front?_fill ahead, same]

theorem extends_peek : stream.Extends stream.peek.2 := extends_fillCharacter stream

theorem following_peek : stream.peek.2.following = stream.following :=
  following_fillCharacter stream

theorem offset_peek : stream.peek.2.offset = stream.offset := offset_fillCharacter stream

theorem peek_eq : stream.peek.1 = (Utf8.front? stream.following).map Prod.fst := by
  rw [← front?_fillCharacter]
  rfl

theorem next_spec : stream.next.1 = (Utf8.front? stream.following).map Prod.fst ∧
    stream.Extends stream.next.2 ∧ stream.next.2.following = Utf8.passFront stream.following ∧
      stream.next.2.offset + stream.next.2.following.length =
        stream.offset + stream.following.length := by
  have filled := extends_fillCharacter stream
  have same := following_fillCharacter stream
  have place := offset_fillCharacter stream
  have front := front?_fillCharacter stream
  unfold next
  cases found : Utf8.front? stream.fillCharacter.ahead with
  | none =>
    rw [found] at front
    have passed : Utf8.passFront stream.following = stream.following := by
      by_cases ended : stream.following = []
      · rw [ended]
        rfl
      · rcases Utf8.exists_front? ended with ⟨c, width, found'⟩
        rw [← front] at found'
        contradiction
    simp only [found]
    exact ⟨by rw [← front]; rfl, filled, by rw [same, passed], by rw [same, place]⟩
  | some given =>
    have inside := (Utf8.front?_width found).2
    rw [found] at front
    have passed : (stream.fillCharacter.forward given.2).following =
        Utf8.passFront stream.following := by
      rw [following_forward inside, same, Utf8.passFront, ← front]
    have fits : given.2 ≤ stream.following.length := by
      rw [← same, following, List.length_append]
      omega
    simp only [found]
    refine ⟨by rw [← front]; rfl, filled.trans (extends_forward _ _), passed, ?_⟩
    rw [offset_forward inside, following_forward inside, same, place, List.length_drop]
    omega

end Characters

theorem quote_spec {stream : Stream} {start : Nat}
    (there : stream.Extends (stream.moveTo start)) :
    stream.Extends (stream.quote start).2 ∧ (stream.quote start).2.offset = stream.offset ∧
      (stream.quote start).2.following = stream.following := by
  have filled := there.trans (extends_fill Excerpt.limit _)
  rcases moveTo_of_holds (filled.holds (holds_position stream)) with ⟨back, place, same⟩
  exact ⟨filled.trans back, place, same⟩

end NetTrace.Stream
