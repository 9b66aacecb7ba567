import NetTrace.Text.Excerpt

namespace NetTrace.Text

variable {count : Nat} {text line rest place quoted : Text}

/-- A line that starts at the front of a text, as far as it goes or as `count` characters of it, and
    what follows in the text. A line ends at a line feed or at a carriage return before one. -/
structure FirstLine (count : Nat) (text line rest : Text) : Prop where
  split : text = line ++ rest
  oneLine : '\n' ∉ line
  unbroken : line.getLast? = some '\r' → rest.head? ≠ some '\n'
  short : line.length ≤ count
  complete : line.length = count ∨ rest = [] ∨ ['\n'] <+: rest ∨ ['\r', '\n'] <+: rest

theorem firstLine_nil (complete : count = 0 ∨ rest = [] ∨ ['\n'] <+: rest ∨ ['\r', '\n'] <+: rest) :
    FirstLine count rest [] rest where
  split := rfl
  oneLine := List.not_mem_nil
  unbroken := nofun
  short := Nat.zero_le _
  complete := complete.imp_left Eq.symm

theorem FirstLine.cons {c : Char} (other : c ≠ '\n') (inside : ¬ ['\r', '\n'] <+: c :: text)
    (first : FirstLine count text line rest) : FirstLine (count + 1) (c :: text) (c :: line) rest where
  split := congrArg (List.cons c) first.split
  oneLine := by
    rw [List.mem_cons, not_or]
    exact ⟨other.symm, first.oneLine⟩
  unbroken := by
    intro last head
    cases line with
    | nil =>
      obtain rfl : c = '\r' := by simpa using last
      obtain ⟨others, rfl⟩ := List.head?_eq_some_iff.mp head
      rw [first.split] at inside
      exact inside ⟨others, rfl⟩
    | cons d line =>
      rw [List.getLast?_cons_cons] at last
      exact first.unbroken last head
  short := Nat.succ_le_succ first.short
  complete := first.complete.imp_left (congrArg (· + 1))

theorem FirstLine.tail {c d : Char} (first : FirstLine (count + 1) (c :: text) (d :: line) rest) :
    c = d ∧ FirstLine count text line rest := by
  obtain ⟨split, oneLine, unbroken, short, complete⟩ := first
  obtain ⟨rfl, after⟩ := List.cons.inj split
  refine ⟨rfl, after, fun member => oneLine (List.mem_cons_of_mem _ member), ?_,
    Nat.le_of_succ_le_succ short, complete.imp_left Nat.succ.inj⟩
  intro last
  cases line with
  | nil => contradiction
  | cons d line => exact unbroken (by rw [List.getLast?_cons_cons, last])

theorem firstLine_lineStart (count : Nat) (text : Text) :
    FirstLine count text (lineStart count text) (text.drop (lineStart count text).length) := by
  fun_induction lineStart count text with
  | case1 text => exact firstLine_nil (.inl rfl)
  | case2 count => exact firstLine_nil (.inr (.inl rfl))
  | case3 count rest => exact firstLine_nil (.inr (.inr (.inl ⟨rest, rfl⟩)))
  | case4 count rest => exact firstLine_nil (.inr (.inr (.inr ⟨rest, rfl⟩)))
  | case5 count c rest other inside ih =>
    refine ih.cons other fun begins => ?_
    obtain ⟨others, same⟩ := begins
    obtain ⟨rfl, rfl⟩ := List.cons.inj same
    exact inside others rfl rfl

theorem FirstLine.eq_lineStart (first : FirstLine count text line rest) :
    line = lineStart count text := by
  fun_induction lineStart count text generalizing line rest with
  | case1 text => exact List.length_eq_zero_iff.mp (Nat.le_zero.mp first.short)
  | case2 count => exact (List.append_eq_nil_iff.mp first.split.symm).1
  | case3 count others =>
    cases line with
    | nil => rfl
    | cons c line =>
      obtain ⟨rfl, -⟩ := List.cons.inj first.split
      exact absurd (List.mem_cons_self ..) first.oneLine
  | case4 count others =>
    cases line with
    | nil => rfl
    | cons c line =>
      obtain ⟨rfl, after⟩ := first.tail
      cases line with
      | nil =>
        have head : rest.head? = some '\n' := congrArg List.head? after.split.symm
        exact absurd head (first.unbroken rfl)
      | cons d line =>
        obtain ⟨rfl, -⟩ := List.cons.inj after.split
        exact absurd (List.mem_cons_self ..) after.oneLine
  | case5 count c others other inside ih =>
    cases line with
    | nil =>
      obtain ⟨rfl, -, -, -, complete⟩ := first
      rcases complete with none | none | ⟨_, same⟩ | ⟨tail, same⟩
      · contradiction
      · contradiction
      · exact absurd (List.cons.inj same).1.symm other
      · obtain ⟨rfl, rfl⟩ := List.cons.inj same
        exact absurd rfl (inside tail rfl)
    | cons d line =>
      obtain ⟨rfl, after⟩ := first.tail
      rw [ih after]

/-- What is quoted of a place: the line of its first character that is no space, from there on and at
    most 80 characters, with dots if that leaves out anything that follows. -/
def Shown (place quoted : Text) : Prop :=
  ∃ line rest, FirstLine 80 (place.dropWhile isSpace) line rest ∧
    (rest = [] ∧ quoted = line ∨ rest ≠ [] ∧ quoted = line ++ "...".toList)

theorem shown_iff : Shown place quoted ↔ quoted = place.excerpt := by
  have first := firstLine_lineStart 80 (place.dropWhile isSpace)
  constructor
  · intro shown
    obtain ⟨line, rest, first, given⟩ := shown
    obtain rfl := first.eq_lineStart
    obtain rfl := List.append_cancel_left (first.split.symm.trans (firstLine_lineStart _ _).split)
    rcases given with ⟨none, rfl⟩ | ⟨some, rfl⟩
    · exact (if_pos none).symm
    · exact (if_neg some).symm
  · intro same
    subst same
    by_cases none : (place.dropWhile isSpace).drop (lineStart 80 (place.dropWhile isSpace)).length = []
    · exact ⟨_, _, first, .inl ⟨none, if_pos none⟩⟩
    · exact ⟨_, _, first, .inr ⟨none, if_neg none⟩⟩

structure Clipped (text : Text) : Prop where
  oneLine : '\n' ∉ text
  short : text.length ≤ 80 ∨ ∃ shown : Text, shown.length ≤ 80 ∧ text = shown ++ "...".toList

theorem clipped_clip (text : Text) : Clipped (clip text) := by
  have first := firstLine_lineStart Excerpt.limit text
  have short : (lineStart Excerpt.limit text).length ≤ 80 := first.short
  simp only [clip]
  split
  · exact ⟨first.oneLine, .inl short⟩
  · exact ⟨by simp [first.oneLine], .inr ⟨_, short, rfl⟩⟩

end NetTrace.Text
