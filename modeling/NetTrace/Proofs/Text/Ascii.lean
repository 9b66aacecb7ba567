import NetTrace.Proofs.Text.Utf8
import NetTrace.Proofs.Text.Words

namespace NetTrace.Utf8

variable {byte : UInt8} {bytes left right : List UInt8} {c : Char} {rest : Text}

section Parting

theorem front?_small (small : byte < 0x80) (rest : List UInt8) :
    front? (byte :: rest) = some (Char.ofUInt8 byte, 1) := by
  have one : announced byte = 1 := by
    rw [announced, if_neg, if_neg, if_neg] <;>
      simp only [UInt8.le_iff_toNat_le, UInt8.lt_iff_toNat_lt, UInt8.reduceToNat] at small ⊢ <;> omega
  have first : firstChar? [byte] = some (Char.ofUInt8 byte) := if_pos small
  simp only [front?, one, List.take_succ_cons, List.take_zero, first]
  rw [utf8Size_ofUInt8 small]

theorem decode_cons_small (small : byte < 0x80) (rest : List UInt8) :
    decode (byte :: rest) = Char.ofUInt8 byte :: decode rest :=
  decode_of_front? (front?_small small rest)

theorem not_mem_tail (small : byte < 0x80) (c : Char) : byte ∉ (String.utf8EncodeChar c).tail := by
  have first : byte.IsUTF8FirstByte := by
    have checked : ∀ n < 128, UInt8.ofNat n &&& 0x80 = 0 := by decide
    have bound : byte.toNat < 128 := by simpa [UInt8.lt_iff_toNat_lt] using small
    have zero := checked byte.toNat bound
    rw [UInt8.ofNat_toNat] at zero
    exact .inl zero
  intro member
  obtain ⟨index, inside, same⟩ := List.getElem_of_mem member
  rw [List.getElem_tail] at same
  rw [← same, UInt8.isUTF8FirstByte_getElem_utf8EncodeChar] at first
  omega

theorem fronts_some {width : Nat} :
    Fronts bytes (some c) width ↔ front? bytes = some (c, width) := by
  rw [fronts_iff]
  cases front? bytes with
  | none => simp
  | some front => simp [Prod.ext_iff, eq_comm]

theorem Fronts.append {found : Option Char} {width : Nat} (fronts : Fronts left found width)
    (some : left ≠ []) (small : byte < 0x80) (right : List UInt8) :
    Fronts (left ++ byte :: right) found width := by
  cases fronts with
  | ended => contradiction
  | encoded c rest =>
    rw [List.append_assoc]
    exact .encoded c _
  | @malformed lead rest none =>
    refine .malformed fun c inFront => ?_
    rcases List.prefix_or_prefix_of_prefix inFront (List.prefix_append (lead :: rest) _) with
      within | beyond
    · exact none c within
    · obtain ⟨more, same⟩ := beyond
      cases more with
      | nil => exact none c ⟨[], by rw [← same, List.append_nil, List.append_nil]⟩
      | cons next more =>
        rw [← same] at inFront
        have parted := (List.prefix_append_right_inj (lead :: rest)).mp inFront
        obtain ⟨rfl, -⟩ := List.cons_prefix_cons.mp parted
        apply not_mem_tail small c
        rw [← same]
        simp

theorem decode_append_small (small : byte < 0x80) (left right : List UInt8) :
    decode (left ++ byte :: right) = decode left ++ Char.ofUInt8 byte :: decode right := by
  -- By induction on the length: each character before the small byte is read without it.
  induction count : left.length using Nat.strongRecOn generalizing left with
  | ind count ih =>
    by_cases ended : left = []
    · subst ended
      exact decode_cons_small small right
    · obtain ⟨c, width, found⟩ := exists_front? ended
      have bounds := front?_width found
      have same := fronts_some.mp ((fronts_some.mpr found).append ended small right)
      have shorter := ih (left.drop width).length (by rw [List.length_drop]; omega) _ rfl
      rw [decode_of_front? found, decode_of_front? same, List.drop_append_of_le_length bounds.2, shorter]
      rfl

theorem decode_eq_cons_small (reads : decode bytes = c :: rest) (ascii : c.toNat < 128) :
    ∃ byte others, bytes = byte :: others ∧ byte < 0x80 ∧ Char.ofUInt8 byte = c ∧
      decode others = rest := by
  cases found : front? bytes with
  | none =>
    have head := head?_decode bytes
    rw [reads, found] at head
    contradiction
  | some front =>
    obtain ⟨d, width⟩ := front
    rw [decode_of_front? found] at reads
    obtain ⟨rfl, left⟩ := List.cons.inj reads
    cases fronts_some.mpr found with
    | malformed _ => contradiction
    | encoded _ others =>
      have one : d.utf8Size = 1 := by
        rw [Char.utf8Size_eq_one_iff, UInt32.le_iff_toNat_le]
        exact Nat.le_of_lt_succ ascii
      have single := String.utf8EncodeChar_eq_singleton one
      have small : d.val.toUInt8 < 0x80 := by
        have value : d.val.toNat < 128 := ascii
        rw [UInt8.lt_iff_toNat_lt, UInt32.toNat_toUInt8]
        exact Nat.lt_of_le_of_lt (Nat.mod_le _ _) ascii
      have first := firstChar?_encoded d
      rw [single] at first
      have same : Char.ofUInt8 d.val.toUInt8 = d := by
        have read : firstChar? [d.val.toUInt8] = some (Char.ofUInt8 d.val.toUInt8) := if_pos small
        rw [read] at first
        exact Option.some.inj first
      rw [single, one] at left
      exact ⟨_, others, by rw [single]; rfl, small, same, left⟩

end Parting

section Words

open Text (isBlank)

theorem ascii_of_isBlank (blank : isBlank c = true) : c.toNat < 128 := by
  simp only [isBlank, Bool.or_eq_true, beq_iff_eq] at blank
  rcases blank with (((rfl | rfl) | rfl) | rfl) | rfl <;> decide

theorem small_of_isBlank (blank : isBlank (Char.ofUInt8 byte) = true) : byte < 0x80 := by
  have bound := ascii_of_isBlank blank
  have value : (Char.ofUInt8 byte).toNat = byte.toNat := UInt8.toNat_toUInt32 byte
  rw [value] at bound
  exact UInt8.lt_iff_toNat_lt.mpr bound

theorem first_of_isBlank (reads : decode bytes = c :: rest) (blank : isBlank c = true) :
    ∃ byte others, bytes = byte :: others ∧ isBlank (Char.ofUInt8 byte) = true := by
  obtain ⟨byte, others, rfl, -, rfl, -⟩ := decode_eq_cons_small reads (ascii_of_isBlank blank)
  exact ⟨byte, others, rfl, blank⟩

theorem visible_decode (visible : ∀ byte ∈ bytes, isBlank (Char.ofUInt8 byte) = false) :
    ∀ c ∈ decode bytes, isBlank c = false := by
  -- By induction on the number of bytes: the first character leaves fewer of them.
  induction count : bytes.length using Nat.strongRecOn generalizing bytes with
  | ind size ih =>
    intro c member
    cases found : front? bytes with
    | none =>
      have head := head?_decode bytes
      rw [found, Option.map_none, List.head?_eq_none_iff] at head
      rw [head] at member
      contradiction
    | some front =>
      obtain ⟨d, width⟩ := front
      have bounds := front?_width found
      have reads := decode_of_front? found
      rw [reads] at member
      rcases List.mem_cons.mp member with rfl | member
      · by_contra blank
        obtain ⟨byte, others, rfl, blank'⟩ := first_of_isBlank reads (by simpa using blank)
        rw [visible byte (List.mem_cons_self ..)] at blank'
        contradiction
      · have shorter : (bytes.drop width).length < size := by
          rw [List.length_drop]
          omega
        exact ih _ shorter (fun byte inside => visible byte (List.mem_of_mem_drop inside)) rfl c member

theorem split_of_small {word : Text} (reads : decode bytes = word ++ rest)
    (ascii : ∀ c ∈ word, c.toNat < 128) :
    ∃ front others, bytes = front ++ others ∧ front.length = word.length ∧ decode others = rest := by
  induction word generalizing bytes with
  | nil => exact ⟨[], bytes, rfl, rfl, reads⟩
  | cons c word ih =>
    obtain ⟨byte, others, rfl, -, -, left⟩ := decode_eq_cons_small reads (ascii c (List.mem_cons_self ..))
    obtain ⟨front, others, rfl, length, left⟩ :=
      ih left fun d member => ascii d (List.mem_cons_of_mem _ member)
    exact ⟨byte :: front, others, rfl, by rw [List.length_cons, List.length_cons, length], left⟩

theorem visible_front (visible : isBlank (Char.ofUInt8 byte) = false) (rest : List UInt8) :
    ∃ c others, decode (byte :: rest) = c :: others ∧ isBlank c = false := by
  obtain ⟨c, width, found⟩ := exists_front? (List.cons_ne_nil byte rest)
  have reads := decode_of_front? found
  refine ⟨c, _, reads, ?_⟩
  by_contra blank
  obtain ⟨byte', others, same, blank'⟩ := first_of_isBlank reads (by simpa using blank)
  obtain ⟨rfl, -⟩ := List.cons.inj same
  rw [visible] at blank'
  contradiction

theorem length_cut (visible : ∀ byte ∈ left, isBlank (Char.ofUInt8 byte) = false) {word : Text}
    {others : List Text} (words : (decode (left ++ right)).words = word :: others)
    (ascii : ∀ c ∈ word, c.toNat < 128) : (decode left).length ≤ word.length := by
  have bound := length_decode_le left
  by_contra longer
  obtain ⟨byte, more, rfl⟩ : ∃ byte more, left = byte :: more :=
    List.exists_cons_of_length_pos (by omega)
  rcases Text.words_cases (decode (byte :: more ++ right)) with
    ⟨-, none⟩ | ⟨first, rest, -, parts, split, some⟩
  · rw [none] at words
    contradiction
  · rw [some] at words
    obtain ⟨rfl, -⟩ := List.cons.inj words
    obtain ⟨c, text, shown, seen⟩ :=
      visible_front (visible byte (List.mem_cons_self ..)) (more ++ right)
    rw [List.cons_append, shown, List.dropWhile_cons_of_neg (by simp [seen]), ← shown] at split
    obtain ⟨front, others', same, length, left'⟩ := split_of_small split ascii
    have whole : byte :: more ++ right = front ++ others' := same
    rcases List.append_eq_append_iff.mp whole with
      ⟨after, rfl, -⟩ | ⟨after, inside, rfl⟩
    · rw [List.length_append] at length
      omega
    · cases after with
      | nil =>
        rw [List.append_nil] at inside
        rw [inside] at bound longer
        omega
      | cons next after =>
        -- The word would go on with this byte.
        have member : next ∈ byte :: more := by
          rw [inside]
          simp
        obtain ⟨d, text', shown', seen'⟩ := visible_front (visible next member) (after ++ right)
        rw [← left', List.cons_append, shown'] at parts
        have blank : isBlank d = true := by simpa using Text.stops_cons.mp parts
        rw [seen'] at blank
        contradiction

end Words

end NetTrace.Utf8
