import NetTrace.Proofs.Text.Ascii

namespace NetTrace.Text

variable {text front last passed rest : Text} {words command : List Text}

/-- These are the words of a longer text, of which the given text is read so far. A word that is
    cut off is not shorter than what is read of it, if it has small characters only. -/
def Cut (text : Text) (words : List Text) : Prop :=
  ∃ front last others, text = front ++ last ∧ (∀ c ∈ front.getLast?, isBlank c = true) ∧
    (∀ c ∈ last, isBlank c = false) ∧ words = front.words ++ others ∧
    ∀ word ∈ others.head?, (∀ c ∈ word, c.toNat < 128) → last.length ≤ word.length

theorem words_append_ended (ended : ∀ c ∈ front.getLast?, isBlank c = true) (rest : Text) :
    Text.words (front ++ rest) = Text.words front ++ Text.words rest := by
  cases shown : front.getLast? with
  | none =>
    rw [List.getLast?_eq_none_iff.mp shown]
    rfl
  | some c =>
    obtain ⟨before, rfl⟩ := List.getLast?_eq_some_iff.mp shown
    have blank := ended c shown
    rw [List.append_assoc, List.singleton_append, words_append_blank blank, words_append_blank blank,
      words_nil, List.append_nil]

theorem words_visible (visible : ∀ c ∈ last, isBlank c = false) :
    last = [] ∨ Text.words last = [last] := by
  by_cases empty : last = []
  · exact .inl empty
  · exact .inr (IsWord.words ⟨empty, visible⟩)

section Bytes

open Utf8

theorem exists_last {α : Type} (test : α → Bool) (list : List α) :
    (∀ a ∈ list, test a = false) ∨ ∃ before a after, list = before ++ a :: after ∧ test a = true ∧
      ∀ a ∈ after, test a = false := by
  induction list with
  | nil => exact .inl (List.forall_mem_nil _)
  | cons first list ih =>
    rcases ih with none | ⟨before, a, after, rfl, holds, none⟩
    · by_cases holds : test first = true
      · exact .inr ⟨[], first, list, rfl, holds, none⟩
      · exact .inl (List.forall_mem_cons.mpr ⟨by simpa using holds, none⟩)
    · exact .inr ⟨first :: before, a, after, rfl, holds, none⟩

theorem cut_decode (bytes more : List UInt8) :
    Cut (decode bytes) (decode (bytes ++ more)).words := by
  have first : ∀ {left : List UInt8}, (∀ byte ∈ left, isBlank (Char.ofUInt8 byte) = false) →
      ∀ word ∈ (decode (left ++ more)).words.head?, (∀ c ∈ word, c.toNat < 128) →
        (decode left).length ≤ word.length := by
    intro left visible word head ascii
    obtain ⟨others, same⟩ : ∃ others, (decode (left ++ more)).words = word :: others :=
      ⟨_, List.eq_cons_of_mem_head? head⟩
    exact length_cut visible same ascii
  rcases exists_last (fun byte => isBlank (Char.ofUInt8 byte)) bytes with
    visible | ⟨before, byte, after, rfl, blank, visible⟩
  · exact ⟨[], decode bytes, _, rfl, by simp, visible_decode visible, rfl, first visible⟩
  · have small := small_of_isBlank blank
    refine ⟨decode before ++ [Char.ofUInt8 byte], decode after, (decode (after ++ more)).words, ?_, ?_,
      visible_decode visible, ?_, first visible⟩
    · rw [decode_append_small small, List.append_assoc, List.singleton_append]
    · simp [blank]
    · rw [List.append_assoc, List.cons_append, decode_append_small small, words_append_blank blank,
        words_append_blank blank, words_nil, List.append_nil]

end Bytes

namespace Cut

theorem first (cut : Cut text words) {word next : Text} {more : List Text}
    (read : Text.words text = word :: next :: more) : ∃ others, words = word :: others := by
  obtain ⟨front, last, others, rfl, ended, visible, rfl, -⟩ := cut
  rw [words_append_ended ended] at read
  cases whole : Text.words front with
  | nil =>
    rw [whole, List.nil_append] at read
    rcases words_visible visible with rfl | one
    · rw [words_nil] at read
      contradiction
    · rw [one] at read
      cases read
  | cons first more =>
    rw [whole] at read
    rw [(List.cons.inj read).1]
    exact ⟨_, rfl⟩

theorem after (cut : Cut (passed ++ rest) words)
    (read : Text.words (passed ++ rest) = command ++ Text.words rest) (some : Text.words rest ≠ []) :
    ∃ others, words = command ++ others ∧ Cut rest others := by
  obtain ⟨front, last, others, split, ended, visible, rfl, longer⟩ := cut
  have whole : Text.words front ++ Text.words last = command ++ Text.words rest := by
    rw [← words_append_ended ended, ← split, read]
  rcases List.append_eq_append_iff.mp split with ⟨inside, rfl, rfl⟩ | ⟨inside, rfl, rfl⟩
  · -- The cut is behind what was passed.
    have ended' : ∀ c ∈ inside.getLast?, isBlank c = true := by
      intro c head
      apply ended c
      rw [List.getLast?_append, head]
      rfl
    rw [words_append_ended ended', ← List.append_assoc, List.append_cancel_right_eq] at whole
    exact ⟨Text.words inside ++ others, by rw [whole, List.append_assoc], inside, last, others, rfl,
      ended', visible, rfl, longer⟩
  · -- What is left is the last word.
    have visible' : ∀ c ∈ rest, isBlank c = false := fun c member =>
      visible c (List.mem_append_right inside member)
    have rest' : rest ≠ [] := by
      rintro rfl
      exact some words_nil
    have one := (words_visible visible').resolve_left rest'
    have one' := (words_visible visible).resolve_left (List.append_ne_nil_of_right_ne_nil inside rest')
    rw [one, one'] at whole
    obtain ⟨same, last⟩ := List.append_inj' whole rfl
    obtain rfl : inside = [] := by simpa using last
    exact ⟨others, by rw [same], [], rest, others, rfl, by simp, visible', rfl, longer⟩

/-- Where more is read than a word of the list can hold, no such word is to come in front. -/
theorem absent (cut : Cut text words) {list : List Text} {bound : Nat}
    (ascii : ∀ word ∈ list, ∀ c ∈ word, c.toNat < 128) (short : ∀ word ∈ list, word.length ≤ bound)
    (long : bound < (text.dropWhile isBlank).length)
    (none : ∀ word others, Text.words text = word :: others → word ∉ list) {word : Text}
    {others : List Text} (same : words = word :: others) : word ∉ list := by
  obtain ⟨front, last, more, rfl, ended, -, rfl, longer⟩ := cut
  cases whole : Text.words front with
  | nil =>
    intro member
    rw [whole, List.nil_append] at same
    have fits := longer word (by rw [same]; rfl) (ascii word member)
    have limit := short word member
    have blank := words_eq_nil.mp whole
    rw [List.dropWhile_append, blank, List.isEmpty_nil, if_pos rfl] at long
    have dropped := (List.dropWhile_sublist isBlank (l := last)).length_le
    omega
  | cons first others' =>
    rw [whole] at same
    rw [← (List.cons.inj same).1]
    exact none first _ (by rw [words_append_ended ended, whole]; rfl)

end Cut

end NetTrace.Text
