import NetTrace.Text.Basic
import Mathlib.Data.List.TakeWhile

namespace NetTrace

namespace Text

def visible? (text : Text) : Option Char := (text.dropWhile isBlank).head?

def Blanks (text : Text) : Prop := ∀ c ∈ text, isBlank c = true

instance (text : Text) : Decidable (Blanks text) :=
  decidable_of_iff (text.all isBlank = true) List.all_eq_true

def Lexeme (word text : Text) : Prop := ∃ blanks, Blanks blanks ∧ text = blanks ++ word

theorem visible_of_test {test : Char → Bool}
    (rejects : [' ', '\t', '\n', '\x0c', '\r'].all (!test ·) = true) {c : Char}
    (holds : test c = true) : isBlank c = false := by
  by_contra blank
  have member : c ∈ [' ', '\t', '\n', '\x0c', '\r'] := by
    simpa only [isBlank, Bool.not_eq_false, Bool.or_eq_true, beq_iff_eq, or_assoc, List.mem_cons,
      List.not_mem_nil, or_false] using blank
  have rejected := List.all_eq_true.mp rejects c member
  rw [holds] at rejected
  contradiction

theorem visible_of_isDigit {c : Char} (digit : c.isDigit = true) : isBlank c = false :=
  visible_of_test (by decide) digit

theorem visible_of_all {text : Text} (all : text.all (!isBlank ·) = true) :
    ∀ c ∈ text, isBlank c = false := by
  intro c member
  simpa using List.all_eq_true.mp all c member

theorem Blanks.nil : Blanks [] := by simp [Blanks]

theorem Blanks.append {left right : Text} (hl : Blanks left) (hr : Blanks right) :
    Blanks (left ++ right) := by
  intro c member
  rcases List.mem_append.mp member with member | member
  · exact hl c member
  · exact hr c member

theorem Blanks.cons {c : Char} {text : Text} (isEnd : isBlank c = true) (blank : Blanks text) :
    Blanks (c :: text) := List.forall_mem_cons.mpr ⟨isEnd, blank⟩

theorem blanks_takeWhile (text : Text) : Blanks (text.takeWhile isBlank) :=
  fun _ member => List.mem_takeWhile_imp member

theorem Lexeme.self (word : Text) : Lexeme word word := ⟨[], .nil, rfl⟩

theorem Lexeme.padded {word text blanks : Text} (blank : Blanks blanks) (lexeme : Lexeme word text) :
    Lexeme word (blanks ++ text) := by
  rcases lexeme with ⟨before, blank', rfl⟩
  exact ⟨blanks ++ before, blank.append blank', by rw [List.append_assoc]⟩

/-- What follows does not continue a run of the characters that meet the test. -/
def Stops (test : Char → Bool) (rest : Text) : Prop := ∀ c, rest.head? = some c → test c = false

theorem stops_nil (test : Char → Bool) : Stops test [] := by
  intro c head
  cases head

theorem stops_cons {test : Char → Bool} {c : Char} {rest : Text} :
    Stops test (c :: rest) ↔ test c = false := by
  simp [Stops]

theorem stops_dropWhile (test : Char → Bool) (text : Text) : Stops test (text.dropWhile test) := by
  intro c head
  simpa [head] using List.head?_dropWhile_not test text

theorem takeWhile_of_stops {test : Char → Bool} {front rest : Text}
    (all : ∀ c ∈ front, test c = true) (stops : Stops test rest) :
    (front ++ rest).takeWhile test = front := by
  induction front with
  | nil =>
    cases rest with
    | nil => rfl
    | cons c rest => rw [List.nil_append, List.takeWhile_cons_of_neg (by simp [stops_cons.mp stops])]
  | cons c front ih =>
    have first := all c (List.mem_cons_self ..)
    rw [List.cons_append, List.takeWhile_cons_of_pos first]
    rw [ih fun d member => all d (List.mem_cons_of_mem _ member)]

theorem dropWhile_of_stops {test : Char → Bool} {front rest : Text}
    (all : ∀ c ∈ front, test c = true) (stops : Stops test rest) :
    (front ++ rest).dropWhile test = rest := by
  have split := List.takeWhile_append_dropWhile (p := test) (l := front ++ rest)
  rw [takeWhile_of_stops all stops] at split
  exact List.append_cancel_left split

theorem dropWhile_dropWhile (test : Char → Bool) (text : Text) :
    (text.dropWhile test).dropWhile test = text.dropWhile test := by
  have stops := stops_dropWhile test text
  exact dropWhile_of_stops (List.forall_mem_nil _) stops

theorem stops_replicate {test : Char → Bool} {c : Char} (other : test c = false) (count : Nat) :
    Stops test (List.replicate count c) := by
  intro d head
  obtain ⟨-, rfl⟩ := List.mem_replicate.mp (List.mem_of_mem_head? head)
  exact other

theorem dropWhile_replicate {c : Char} (visible : isBlank c = false) (count : Nat) :
    (List.replicate count c).dropWhile isBlank = List.replicate count c :=
  dropWhile_of_stops (List.forall_mem_nil _) (stops_replicate visible count)

def Alike (left right : Text) : Prop := left.dropWhile isBlank = right.dropWhile isBlank

namespace Alike

variable {left middle right : Text}

theorem refl (text : Text) : Alike text text := rfl

theorem symm (alike : Alike left right) : Alike right left := Eq.symm alike

theorem trans (first : Alike left middle) (second : Alike middle right) : Alike left right :=
  Eq.trans first second

theorem dropWhile (text : Text) : Alike (text.dropWhile isBlank) text := dropWhile_dropWhile _ _

theorem visible (alike : Alike left right) : left.visible? = right.visible? :=
  congrArg List.head? alike

end Alike

def Remains (left rest : Text) : Prop := left = rest ∨ left = rest.dropWhile isBlank

namespace Remains

variable {left rest : Text}

theorem refl (text : Text) : Remains text text := .inl rfl

theorem alike (remains : Remains left rest) : Alike left rest := by
  rcases remains with rfl | rfl
  · exact .refl _
  · exact .dropWhile _

end Remains

theorem Blanks.dropWhile {blanks : Text} (blank : Blanks blanks) (text : Text) :
    (blanks ++ text).dropWhile isBlank = text.dropWhile isBlank := by
  induction blanks with
  | nil => rfl
  | cons c blanks ih =>
    rw [List.cons_append, List.dropWhile_cons_of_pos (blank c (List.mem_cons_self ..))]
    exact ih fun d member => blank d (List.mem_cons_of_mem _ member)

theorem Blanks.alike {blanks : Text} (blank : Blanks blanks) (text : Text) :
    Alike (blanks ++ text) text := blank.dropWhile text

theorem lexeme_after {text word rest : Text} (h : text.dropWhile isBlank = word ++ rest) :
    ∃ front, text = front ++ rest ∧ Lexeme word front := by
  refine ⟨text.takeWhile isBlank ++ word, ?_, _, blanks_takeWhile text, rfl⟩
  rw [List.append_assoc, ← h, List.takeWhile_append_dropWhile]

theorem Lexeme.seen {c : Char} {others front rest text : Text} (lexeme : Lexeme (c :: others) front)
    (visible : isBlank c = false) (alike : Alike text (front ++ rest)) :
    text.dropWhile isBlank = c :: others ++ rest := by
  rcases lexeme with ⟨blanks, blank, rfl⟩
  rw [alike, List.append_assoc, blank.dropWhile]
  exact List.dropWhile_cons_of_neg (by simp [visible])

theorem visible?_cons {c : Char} {others text : Text} (seen : text.dropWhile isBlank = c :: others) :
    text.visible? = some c := by
  rw [visible?, seen, List.head?_cons]

end Text

end NetTrace
