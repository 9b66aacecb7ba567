import NetTrace.Text.Utf8
import Mathlib.Data.List.Basic

namespace NetTrace.Utf8

def passFront (bytes : List UInt8) : List UInt8 :=
  match front? bytes with
  | none => []
  | some (_, width) => bytes.drop width

def after : Nat → List UInt8 → List UInt8
  | 0, bytes => bytes
  | count + 1, bytes => passFront (after count bytes)

def decodeFrom : Nat → List UInt8 → Text
  | _, [] => []
  | skip + 1, _ :: rest => decodeFrom skip rest
  | 0, lead :: rest =>
    match front? (lead :: rest) with
    | none => []
    | some (c, width) => c :: decodeFrom (width - 1) rest

def decode (bytes : List UInt8) : Text := decodeFrom 0 bytes

theorem utf8Size_ofUInt8 {lead : UInt8} (small : lead < 0x80) :
    (Char.ofUInt8 lead).utf8Size = 1 := by
  rw [Char.utf8Size_eq_one_iff]
  have bound : lead.toNat < 0x80 := by simpa [UInt8.lt_iff_toNat_lt] using small
  have value : (Char.ofUInt8 lead).val = lead.toUInt32 := rfl
  have limit : (0x7f : UInt32).toNat = 0x7f := rfl
  rw [value, UInt32.le_iff_toNat_le, UInt8.toNat_toUInt32, limit]
  omega

theorem isPrefix_of_firstChar? {bytes : List UInt8} {c : Char} (h : firstChar? bytes = some c) :
    String.utf8EncodeChar c <+: bytes := by
  unfold firstChar? at h
  split at h
  · contradiction
  · rename_i lead rest
    split at h
    · rename_i small
      have same : Char.ofUInt8 lead = c := Option.some.inj h
      have single := String.utf8EncodeChar_eq_singleton (utf8Size_ofUInt8 small)
      have byte : (Char.ofUInt8 lead).val.toUInt8 = lead := by
        apply UInt8.toNat_inj.mp
        have value : (Char.ofUInt8 lead).val = lead.toUInt32 := rfl
        have bound := lead.toNat_lt
        rw [value, UInt32.toNat_toUInt8, UInt8.toNat_toUInt32]
        omega
      subst same
      rw [single, byte]
      exact ⟨rest, rfl⟩
    · obtain ⟨more, split⟩ := ByteArray.exists_of_utf8DecodeChar?_eq_some h
      have bytes := congrArg (fun array => array.data.toList) split
      simp only [List.data_toByteArray, ByteArray.data_append, Array.toList_append] at bytes
      have inside : String.utf8EncodeChar c <+: lead :: rest.take 3 := ⟨_, bytes.symm⟩
      exact inside.trans (List.prefix_cons_inj lead |>.mpr (List.take_prefix 3 rest))

theorem firstChar?_width {bytes : List UInt8} {c : Char} (h : firstChar? bytes = some c) :
    c.utf8Size ≤ bytes.length := by
  rw [← String.length_utf8EncodeChar c]
  exact (isPrefix_of_firstChar? h).length_le

theorem front?_width {bytes : List UInt8} {c : Char} {width : Nat}
    (h : front? bytes = some (c, width)) : 0 < width ∧ width ≤ bytes.length := by
  cases bytes with
  | nil => contradiction
  | cons lead rest =>
    simp only [front?] at h
    split at h
    · rename_i first found
      rcases Prod.mk.inj (Option.some.inj h) with ⟨rfl, rfl⟩
      have fits := firstChar?_width found
      simp only [List.length_take] at fits
      exact ⟨Char.utf8Size_pos _, by omega⟩
    · rcases Prod.mk.inj (Option.some.inj h) with ⟨rfl, rfl⟩
      simp

theorem exists_front? {bytes : List UInt8} (h : bytes ≠ []) :
    ∃ c width, front? bytes = some (c, width) := by
  cases bytes with
  | nil => contradiction
  | cons lead rest =>
    simp only [front?]
    split <;> exact ⟨_, _, rfl⟩

theorem front?_append (lead : UInt8) (rest more : List UInt8)
    (h : announced lead ≤ (lead :: rest).length) :
    front? (lead :: rest ++ more) = front? (lead :: rest) := by
  have same : (lead :: rest ++ more).take (announced lead) = (lead :: rest).take (announced lead) :=
    List.take_append_of_le_length h
  simp only [List.cons_append] at same
  simp only [front?, List.cons_append, same]

theorem announced_ofNat (n : Nat) (h : n < 256) :
    announced (UInt8.ofNat n) =
      if 0xc0 ≤ n ∧ n ≤ 0xdf then 2 else if 0xe0 ≤ n ∧ n ≤ 0xef then 3
      else if 0xf0 ≤ n ∧ n ≤ 0xf7 then 4 else 1 := by
  have value : (UInt8.ofNat n).toNat = n := by simpa using h
  simp only [announced, UInt8.le_iff_toNat_le, value]
  rfl

theorem announced_encoded (c : Char) :
    ∃ lead rest, String.utf8EncodeChar c = lead :: rest ∧ announced lead = c.utf8Size := by
  rcases c.utf8Size_eq with size | size | size | size <;> rw [size]
  · have range := Char.utf8Size_eq_one_iff.mp size
    simp only [UInt32.le_iff_toNat_le, UInt32.reduceToNat] at range
    refine ⟨_, _, by rw [String.utf8EncodeChar, if_pos range], ?_⟩
    rw [announced_ofNat _ (by omega)]
    grind
  · have range := Char.utf8Size_eq_two_iff.mp size
    simp only [UInt32.le_iff_toNat_le, UInt32.lt_iff_toNat_lt, UInt32.reduceToNat] at range
    refine ⟨_, _, by rw [String.utf8EncodeChar, if_neg (by omega), if_pos range.2], ?_⟩
    rw [announced_ofNat _ (by omega), if_pos (by omega)]
  · have range := Char.utf8Size_eq_three_iff.mp size
    simp only [UInt32.le_iff_toNat_le, UInt32.lt_iff_toNat_lt, UInt32.reduceToNat] at range
    have spelled := String.utf8EncodeChar.eq_1 c
    rw [if_neg (by omega), if_neg (by omega), if_pos range.2] at spelled
    refine ⟨_, _, spelled, ?_⟩
    rw [announced_ofNat _ (by omega), if_neg (by omega), if_pos (by omega)]
  · have range := Char.utf8Size_eq_four_iff.mp size
    simp only [UInt32.lt_iff_toNat_lt, UInt32.reduceToNat] at range
    have spelled := String.utf8EncodeChar.eq_1 c
    rw [if_neg (by omega), if_neg (by omega), if_neg (by omega)] at spelled
    refine ⟨_, _, spelled, ?_⟩
    rw [announced_ofNat _ (by omega), if_neg (by omega), if_neg (by omega), if_pos (by omega)]

theorem firstChar?_encoded (c : Char) : firstChar? (String.utf8EncodeChar c) = some c := by
  rcases announced_encoded c with ⟨lead, rest, spelled, width⟩
  have length := String.length_utf8EncodeChar c
  have decoded := @ByteArray.utf8DecodeChar?_utf8EncodeChar_append ByteArray.empty c
  rw [ByteArray.append_empty] at decoded
  have short : rest.take 3 = rest := by
    have := c.utf8Size_le_four
    rw [spelled, List.length_cons] at length
    exact List.take_of_length_le (by omega)
  simp only [firstChar?, spelled, short] at decoded ⊢
  split
  · rename_i small
    have one : c.utf8Size = 1 := by
      rw [← width, announced, if_neg, if_neg, if_neg] <;>
        simp only [UInt8.le_iff_toNat_le, UInt8.lt_iff_toNat_lt, UInt8.reduceToNat] at small ⊢ <;> omega
    have range := Char.utf8Size_eq_one_iff.mp one
    have single := String.utf8EncodeChar_eq_singleton one
    rw [spelled] at single
    rcases List.cons.inj single with ⟨rfl, rfl⟩
    simp only [UInt32.le_iff_toNat_le, UInt32.reduceToNat] at range
    congr 1
    apply Char.ext
    apply UInt32.toNat_inj.mp
    have kept : c.val.toUInt8.toNat = c.val.toNat := by
      rw [UInt32.toNat_toUInt8]
      exact Nat.mod_eq_of_lt (by omega)
    have value : (Char.ofUInt8 c.val.toUInt8).val = c.val.toUInt8.toUInt32 := rfl
    rw [value, UInt8.toNat_toUInt32, kept]
  · exact decoded

theorem front?_encoded (c : Char) (more : List UInt8) :
    front? (String.utf8EncodeChar c ++ more) = some (c, c.utf8Size) := by
  rcases announced_encoded c with ⟨lead, rest, spelled, width⟩
  have length := String.length_utf8EncodeChar c
  have whole : (lead :: rest).take (announced lead) = String.utf8EncodeChar c := by
    rw [← spelled, width, ← length, List.take_length]
  have taken : (lead :: (rest ++ more)).take (announced lead) = String.utf8EncodeChar c := by
    have fits : announced lead = (lead :: rest).length := by rw [width, ← length, spelled]
    rw [← List.cons_append, List.take_append_of_le_length (Nat.le_of_eq fits), whole]
  simp only [spelled, List.cons_append, front?, taken]
  rw [← spelled, firstChar?_encoded]

theorem front?_encode (c : Char) (text : Text) :
    front? (encode (c :: text)) = some (c, c.utf8Size) := front?_encoded c (encode text)

theorem encode_cons (c : Char) (text : Text) :
    encode (c :: text) = String.utf8EncodeChar c ++ encode text := rfl

theorem length_encode (text : Text) : (encode text).length = Text.byteLength text := by
  induction text with
  | nil => rfl
  | cons c rest ih =>
    rw [encode_cons, List.length_append, String.length_utf8EncodeChar, ih, Text.byteLength_cons]

theorem passFront_encode (c : Char) (text : Text) : passFront (encode (c :: text)) = encode text := by
  simp only [passFront, front?_encode]
  rw [encode_cons, ← String.length_utf8EncodeChar c, List.drop_left]

theorem decodeFrom_eq (skip : Nat) (bytes : List UInt8) :
    decodeFrom skip bytes = decode (bytes.drop skip) := by
  induction bytes generalizing skip with
  | nil => cases skip <;> rfl
  | cons lead rest ih =>
    cases skip with
    | zero => rfl
    | succ skip => rw [decodeFrom, ih, List.drop_succ_cons]

theorem decode_of_front? {bytes : List UInt8} {c : Char} {width : Nat}
    (h : front? bytes = some (c, width)) : decode bytes = c :: decode (bytes.drop width) := by
  cases bytes with
  | nil => contradiction
  | cons lead rest =>
    rcases front?_width h with ⟨positive, -⟩
    simp only [decode, decodeFrom, h]
    obtain ⟨less, rfl⟩ : ∃ less, width = less + 1 := ⟨width - 1, by omega⟩
    rw [Nat.add_sub_cancel, decodeFrom_eq, List.drop_succ_cons]
    rfl

theorem head?_decode (bytes : List UInt8) :
    (decode bytes).head? = (front? bytes).map Prod.fst := by
  cases found : front? bytes with
  | none =>
    have empty : bytes = [] := by
      by_contra h
      rcases exists_front? h with ⟨c, width, other⟩
      rw [found] at other
      contradiction
    subst empty
    rfl
  | some front => rw [decode_of_front? found]; rfl

theorem decode_passFront (bytes : List UInt8) : decode (passFront bytes) = (decode bytes).tail := by
  cases bytes with
  | nil => rfl
  | cons lead rest =>
    rcases exists_front? (List.cons_ne_nil lead rest) with ⟨c, width, found⟩
    simp only [passFront, found]
    rw [decode_of_front? found, List.tail_cons]

theorem decode_after (count : Nat) (bytes : List UInt8) :
    decode (after count bytes) = (decode bytes).drop count := by
  induction count with
  | zero => rfl
  | succ count ih => rw [after, decode_passFront, ih, List.tail_drop]

theorem passFront_suffix (bytes : List UInt8) : passFront bytes <:+ bytes := by
  unfold passFront
  split
  · exact List.nil_suffix
  · exact List.drop_suffix _ _

theorem after_suffix (count : Nat) (bytes : List UInt8) : after count bytes <:+ bytes := by
  induction count with
  | zero => exact List.suffix_rfl
  | succ count ih => exact (passFront_suffix _).trans ih

theorem eq_nil_of_decode {bytes : List UInt8} (h : decode bytes = []) : bytes = [] := by
  by_contra more
  rcases exists_front? more with ⟨c, width, found⟩
  rw [decode_of_front? found] at h
  contradiction

theorem after_of_decode {bytes : List UInt8} {count count' : Nat}
    (same : decode (after count bytes) = decode (after count' bytes)) :
    after count bytes = after count' bytes := by
  rw [decode_after, decode_after] at same
  have lengths := congrArg List.length same
  rw [List.length_drop, List.length_drop] at lengths
  by_cases inside : count < (decode bytes).length
  · have counts : count = count' := by omega
    rw [counts]
  · have ended : after count bytes = [] := by
      apply eq_nil_of_decode
      rw [decode_after, List.drop_eq_nil_iff]
      omega
    have ended' : after count' bytes = [] := by
      apply eq_nil_of_decode
      rw [decode_after, List.drop_eq_nil_iff]
      omega
    rw [ended, ended']

theorem length_decode_le (bytes : List UInt8) : (decode bytes).length ≤ bytes.length := by
  cases bytes with
  | nil => exact Nat.le_refl _
  | cons lead rest =>
    rcases exists_front? (List.cons_ne_nil lead rest) with ⟨c, width, found⟩
    have bounds := front?_width found
    have shorter := length_decode_le ((lead :: rest).drop width)
    rw [decode_of_front? found, List.length_cons]
    simp only [List.length_drop, List.length_cons] at bounds shorter ⊢
    omega
termination_by bytes.length
decreasing_by simp only [List.length_drop, List.length_cons] at bounds ⊢; omega

theorem front?_width_le {bytes : List UInt8} {c : Char} {width : Nat}
    (h : front? bytes = some (c, width)) : width ≤ 4 := by
  cases bytes with
  | nil => contradiction
  | cons lead rest =>
    simp only [front?] at h
    split at h
    · rcases Prod.mk.inj (Option.some.inj h) with ⟨-, rfl⟩
      exact Char.utf8Size_le_four _
    · rcases Prod.mk.inj (Option.some.inj h) with ⟨-, rfl⟩
      decide

theorem length_le_decode (bytes : List UInt8) : bytes.length ≤ 4 * (decode bytes).length := by
  cases bytes with
  | nil => exact Nat.zero_le _
  | cons lead rest =>
    rcases exists_front? (List.cons_ne_nil lead rest) with ⟨c, width, found⟩
    have bounds := front?_width found
    have narrow := front?_width_le found
    have longer := length_le_decode ((lead :: rest).drop width)
    rw [decode_of_front? found]
    simp only [List.length_drop, List.length_cons] at bounds longer ⊢
    omega
termination_by bytes.length
decreasing_by simp only [List.length_drop, List.length_cons] at bounds ⊢; omega

theorem decode_encode (text : Text) : decode (encode text) = text := by
  induction text with
  | nil => rfl
  | cons c rest ih =>
    have passed := passFront_encode c rest
    simp only [passFront, front?_encode] at passed
    rw [decode_of_front? (front?_encode c rest), passed, ih]

theorem after_encode (count : Nat) (text : Text) :
    after count (encode text) = encode (text.drop count) := by
  induction count with
  | zero => rfl
  | succ count ih =>
    rw [after, ih, ← List.tail_drop]
    cases text.drop count with
    | nil => rfl
    | cons c rest => exact passFront_encode c rest

/-- How bytes are read one character at a time, said without asking what the first byte announces:
    the character whose whole encoding stands in front is read and passed, and where none does, one
    byte is read as the replacement character. -/
inductive Fronts : List UInt8 → Option Char → Nat → Prop
  | ended : Fronts [] none 0
  | encoded (c : Char) (rest : List UInt8) :
      Fronts (String.utf8EncodeChar c ++ rest) (some c) c.utf8Size
  | malformed {lead : UInt8} {rest : List UInt8} :
      (∀ c, ¬ String.utf8EncodeChar c <+: lead :: rest) →
        Fronts (lead :: rest) (some replacement) 1

theorem fronts_iff {bytes : List UInt8} {found : Option Char} {width : Nat} :
    Fronts bytes found width ↔
      found = (front? bytes).map Prod.fst ∧ width = (front? bytes).elim 0 Prod.snd := by
  constructor
  · intro fronts
    cases fronts with
    | ended => exact ⟨rfl, rfl⟩
    | encoded c rest =>
      rw [front?_encoded]
      exact ⟨rfl, rfl⟩
    | @malformed lead rest none =>
      have absent : firstChar? ((lead :: rest).take (announced lead)) = Option.none := by
        rw [Option.eq_none_iff_forall_ne_some]
        intro c first
        exact none c ((isPrefix_of_firstChar? first).trans (List.take_prefix ..))
      simp only [front?, absent]
      exact ⟨rfl, rfl⟩
  · rintro ⟨rfl, rfl⟩
    cases bytes with
    | nil => exact .ended
    | cons lead rest =>
      cases first : firstChar? ((lead :: rest).take (announced lead)) with
      | some c =>
        obtain ⟨more, split⟩ := (isPrefix_of_firstChar? first).trans (List.take_prefix ..)
        rw [← split, front?_encoded]
        exact .encoded c more
      | none =>
        have read : front? (lead :: rest) = some (replacement, 1) := by simp only [front?, first]
        rw [read]
        refine .malformed fun c inFront => ?_
        obtain ⟨more, split⟩ := inFront
        rw [← split, front?_encoded] at read
        -- The replacement character itself takes three bytes.
        obtain ⟨rfl, size⟩ := Prod.mk.inj (Option.some.inj read)
        contradiction

theorem Fronts.unique {bytes : List UInt8} {found found' : Option Char} {width width' : Nat}
    (fronts : Fronts bytes found width) (fronts' : Fronts bytes found' width') :
    found = found' ∧ width = width' := by
  obtain ⟨rfl, rfl⟩ := fronts_iff.mp fronts
  obtain ⟨rfl, rfl⟩ := fronts_iff.mp fronts'
  exact ⟨rfl, rfl⟩

end NetTrace.Utf8
