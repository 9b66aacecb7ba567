import NetTrace.Proofs.Text.Blanks

namespace NetTrace.Text

def words (text : Text) : List Text := (text.splitOnP isBlank).filter (!·.isEmpty)

def IsWord (word : Text) : Prop := word ≠ [] ∧ ∀ c ∈ word, isBlank c = false

instance (word : Text) : Decidable (IsWord word) :=
  decidable_of_iff (word ≠ [] ∧ word.all (!isBlank ·) = true) (by simp [IsWord])

/-- What follows makes no word before it longer. -/
abbrev Parts (rest : Text) : Prop := Stops (!isBlank ·) rest

variable {text left right word rest : Text} {c : Char}

section Runs

variable {test : Char → Bool}

theorem takeWhile_append_of_stops (stops : Stops test rest) (front : Text) :
    (front ++ rest).takeWhile test = front.takeWhile test := by
  induction front with
  | nil => exact takeWhile_of_stops (List.forall_mem_nil _) stops
  | cons c front ih =>
    by_cases holds : test c = true
    · rw [List.cons_append, List.takeWhile_cons_of_pos holds, List.takeWhile_cons_of_pos holds, ih]
    · rw [List.cons_append, List.takeWhile_cons_of_neg holds, List.takeWhile_cons_of_neg holds]

theorem dropWhile_append_of_stops (stops : Stops test rest) (front : Text) :
    (front ++ rest).dropWhile test = front.dropWhile test ++ rest := by
  have split := List.takeWhile_append_dropWhile (p := test) (l := front ++ rest)
  rw [takeWhile_append_of_stops stops] at split
  have whole : front.takeWhile test ++ (front ++ rest).dropWhile test =
      front.takeWhile test ++ (front.dropWhile test ++ rest) := by
    rw [split, ← List.append_assoc, List.takeWhile_append_dropWhile]
  exact List.append_cancel_left whole

theorem Parts.stops (parts : Parts rest) (inside : ∀ c, test c = true → isBlank c = false) :
    Stops test rest := by
  intro c head
  have blank : isBlank c = true := by simpa using parts c head
  by_contra holds
  rw [inside c (by simpa using holds)] at blank
  contradiction

end Runs

theorem isWord_cons (visible : isBlank c = false) (all : ∀ d ∈ word, isBlank d = false) :
    IsWord (c :: word) :=
  ⟨List.cons_ne_nil _ _, List.forall_mem_cons.mpr ⟨visible, all⟩⟩

theorem isWord_append (hl : IsWord left) (hr : IsWord right) : IsWord (left ++ right) := by
  refine ⟨List.append_ne_nil_of_left_ne_nil hl.1 _, fun c member => ?_⟩
  rcases List.mem_append.mp member with member | member
  · exact hl.2 c member
  · exact hr.2 c member

theorem words_nil : words [] = [] := rfl

theorem words_append_blank (blank : isBlank c = true) (left right : Text) :
    words (left ++ c :: right) = words left ++ words right := by
  rw [words, List.splitOnP_append_cons left right blank, List.filter_append]
  rfl

theorem words_cons_blank (blank : isBlank c = true) (text : Text) :
    words (c :: text) = words text := words_append_blank blank [] text

theorem IsWord.words (isWord : IsWord word) : words word = [word] := by
  rw [Text.words, List.splitOnP_eq_singleton isWord.2, List.filter_cons_of_pos, List.filter_nil]
  simpa using isWord.1

theorem words_append (parts : Parts rest) (text : Text) :
    words (text ++ rest) = words text ++ words rest := by
  cases rest with
  | nil => rw [List.append_nil, words_nil, List.append_nil]
  | cons c rest =>
    have blank : isBlank c = true := by simpa using stops_cons.mp parts
    rw [words_append_blank blank, words_cons_blank blank]

theorem IsWord.words_append (isWord : IsWord word) (parts : Parts rest) :
    Text.words (word ++ rest) = word :: Text.words rest := by
  rw [Text.words_append parts, isWord.words]
  rfl

theorem IsWord.words_pair (isWord : IsWord left) (isWord' : IsWord right) :
    Text.words (left ++ ' ' :: right) = [left, right] := by
  rw [words_append_blank rfl, isWord.words, isWord'.words]
  rfl

theorem words_dropWhile (text : Text) : words (text.dropWhile isBlank) = words text := by
  induction text with
  | nil => rfl
  | cons c text ih =>
    by_cases blank : isBlank c = true
    · rw [List.dropWhile_cons_of_pos blank, ih, words_cons_blank blank]
    · rw [List.dropWhile_cons_of_neg blank]

theorem words_cases (text : Text) :
    (text.dropWhile isBlank = [] ∧ words text = []) ∨
      ∃ word rest, IsWord word ∧ Parts rest ∧ text.dropWhile isBlank = word ++ rest ∧
        words text = word :: words rest := by
  rw [← words_dropWhile text]
  have stops := stops_dropWhile isBlank text
  cases seen : text.dropWhile isBlank with
  | nil => exact .inl ⟨rfl, rfl⟩
  | cons c others =>
    rw [seen] at stops
    have visible : isBlank c = false := stops_cons.mp stops
    have isWord : IsWord ((c :: others).takeWhile (!isBlank ·)) := by
      refine ⟨?_, fun d member => by simpa using List.mem_takeWhile_imp member⟩
      rw [List.takeWhile_cons_of_pos (by simp [visible])]
      exact List.cons_ne_nil _ _
    have parts := stops_dropWhile (!isBlank ·) (c :: others)
    have split := (List.takeWhile_append_dropWhile (p := (!isBlank ·)) (l := c :: others)).symm
    refine .inr ⟨_, _, isWord, parts, split, ?_⟩
    rw [← isWord.words_append parts, ← split]

theorem words_eq_cons {others : List Text} : words text = word :: others ↔
    ∃ rest, text.dropWhile isBlank = word ++ rest ∧ IsWord word ∧ Parts rest ∧ words rest = others := by
  constructor
  · intro same
    rcases words_cases text with ⟨-, none⟩ | ⟨first, rest, isWord, parts, split, some⟩
    · rw [none] at same
      contradiction
    · rw [some] at same
      obtain ⟨rfl, rfl⟩ := List.cons.inj same
      exact ⟨rest, split, isWord, parts, rfl⟩
  · intro given
    obtain ⟨rest, split, isWord, parts, rfl⟩ := given
    rw [← words_dropWhile, split, isWord.words_append parts]

theorem IsWord.stops (isWord : IsWord word) (rest : Text) : Stops isBlank (word ++ rest) := by
  obtain ⟨c, others, rfl⟩ := List.exists_cons_of_ne_nil isWord.1
  exact stops_cons.mpr (isWord.2 c (List.mem_cons_self ..))

theorem IsWord.dropWhile (isWord : IsWord word) (rest : Text) :
    (word ++ rest).dropWhile isBlank = word ++ rest :=
  dropWhile_of_stops (List.forall_mem_nil _) (isWord.stops rest)

theorem Blanks.parts {blanks : Text} (blank : Blanks blanks) (some : blanks ≠ []) (rest : Text) :
    Parts (blanks ++ rest) := by
  obtain ⟨c, others, rfl⟩ := List.exists_cons_of_ne_nil some
  exact stops_cons.mpr (by simp [blank c (List.mem_cons_self ..)])

theorem words_eq_pair {others : List Text} : words text = left :: right :: others ↔
    ∃ blanks rest, text.dropWhile isBlank = left ++ blanks ++ (right ++ rest) ∧ IsWord left ∧
      blanks ≠ [] ∧ Blanks blanks ∧ IsWord right ∧ Parts rest ∧ words rest = others := by
  constructor
  · intro same
    obtain ⟨tail, split, isWord, parts, same⟩ := words_eq_cons.mp same
    obtain ⟨rest, split', isWord', parts', rfl⟩ := words_eq_cons.mp same
    refine ⟨tail.takeWhile isBlank, rest, ?_, isWord, ?_, blanks_takeWhile tail, isWord', parts', rfl⟩
    · rw [split, ← split', List.append_assoc, List.takeWhile_append_dropWhile]
    · cases tail with
      | nil => contradiction
      | cons c tail =>
        have blank : isBlank c = true := by simpa using stops_cons.mp parts
        rw [List.takeWhile_cons_of_pos blank]
        exact List.cons_ne_nil _ _
  · intro given
    obtain ⟨blanks, rest, split, isWord, some, blank, isWord', parts, rfl⟩ := given
    rw [List.append_assoc] at split
    have split' := (blank.dropWhile (right ++ rest)).trans (isWord'.dropWhile rest)
    exact words_eq_cons.mpr ⟨_, split, isWord, blank.parts some _,
      words_eq_cons.mpr ⟨rest, split', isWord', parts, rfl⟩⟩

theorem words_eq_nil : words text = [] ↔ text.dropWhile isBlank = [] := by
  rcases words_cases text with ⟨blank, none⟩ | ⟨word, rest, isWord, -, split, some⟩
  · exact ⟨fun _ => blank, fun _ => none⟩
  · rw [some, split, List.append_eq_nil_iff]
    exact ⟨fun none => (List.cons_ne_nil _ _ none).elim, fun none => (isWord.1 none.1).elim⟩

theorem words_eq_nil_iff_blanks : words text = [] ↔ Blanks text := by
  rw [words_eq_nil, List.dropWhile_eq_nil_iff]
  rfl

theorem isWord_of_mem_words (member : word ∈ words text) : IsWord word := by
  -- By induction on the length: after the first word the text is shorter.
  induction count : text.length using Nat.strongRecOn generalizing text with
  | ind count ih =>
    rcases words_cases text with ⟨-, none⟩ | ⟨first, rest, isWord, -, split, some⟩
    · rw [none] at member
      contradiction
    · rw [some] at member
      rcases List.mem_cons.mp member with rfl | member
      · exact isWord
      · have passed := (List.dropWhile_sublist isBlank (l := text)).length_le
        have positive := List.length_pos_iff.mpr isWord.1
        rw [split, List.length_append] at passed
        exact ih rest.length (by omega) member rfl

theorem flatten_words (text : Text) : text.words.flatten = text.filter (!isBlank ·) := by
  induction count : text.length using Nat.strongRecOn generalizing text with
  | ind count ih =>
    have split := List.takeWhile_append_dropWhile (p := isBlank) (l := text)
    have none : (text.takeWhile isBlank).filter (!isBlank ·) = [] :=
      List.filter_eq_nil_iff.mpr fun c member => by simp [blanks_takeWhile text c member]
    have visible : text.filter (!isBlank ·) = (text.dropWhile isBlank).filter (!isBlank ·) := by
      rw [← List.nil_append ((text.dropWhile isBlank).filter _), ← none, ← List.filter_append, split]
    rcases text.words_cases with ⟨blank, empty⟩ | ⟨word, rest, isWord, -, seen, some⟩
    · rw [visible, blank, empty]
      rfl
    · have passed := (List.dropWhile_sublist isBlank (l := text)).length_le
      have positive := List.length_pos_iff.mpr isWord.1
      rw [seen, List.length_append] at passed
      have all : word.filter (!isBlank ·) = word :=
        List.filter_eq_self.mpr fun c member => by simp [isWord.2 c member]
      rw [visible, seen, some, List.flatten_cons, List.filter_append, all,
        ih rest.length (by omega) rest rfl]

theorem alike_of_words {whole : Text} (hl : left <:+ whole) (hr : right <:+ whole)
    (same : left.words = right.words) : Alike left right := by
  have shorter : ∀ {short long : Text}, short <:+ long → short.words = long.words →
      Alike long short := by
    intro short long suffix same
    obtain ⟨front, rfl⟩ := suffix
    have visible := congrArg List.flatten same
    rw [flatten_words, flatten_words, List.filter_append] at visible
    have none : front.filter (!isBlank ·) = [] := List.self_eq_append_left.mp visible
    have blank : Blanks front := fun c member => by simpa using List.filter_eq_nil_iff.mp none c member
    exact blank.alike short
  rcases List.suffix_or_suffix_of_suffix hl hr with suffix | suffix
  · exact (shorter suffix same).symm
  · exact shorter suffix same.symm

theorem words_intercalate (blank : isBlank c = true) (texts : List Text) :
    words (List.intercalate [c] texts) = texts.flatMap words := by
  induction texts with
  | nil => rfl
  | cons text texts ih =>
    cases texts with
    | nil => simp [List.intercalate]
    | cons next others =>
      rw [List.flatMap_cons, ← ih]
      exact words_append_blank blank text _

theorem words_append_flatMap {α : Type} (f : α → Text) (values : List α) (text : Text) :
    words (text ++ values.flatMap fun value => ' ' :: f value) =
      words text ++ values.flatMap fun value => words (f value) := by
  induction values generalizing text with
  | nil => simp
  | cons value values ih =>
    rw [List.flatMap_cons, ← List.append_assoc, ih, words_append_blank rfl, List.append_assoc]
    rfl

theorem flatMap_words {list : List Text} (all : ∀ word ∈ list, IsWord word) :
    list.flatMap words = list := by
  induction list with
  | nil => rfl
  | cons word list ih =>
    rw [List.flatMap_cons, (all word (List.mem_cons_self ..)).words]
    rw [ih fun other member => all other (List.mem_cons_of_mem _ member)]
    rfl

theorem words_joined {list : List Text} (all : ∀ word ∈ list, IsWord word) :
    words (List.intercalate [' '] list) = list :=
  (words_intercalate rfl list).trans (flatMap_words all)

section Layout

def endsBlank (text : Text) : Bool := text.getLast?.any isBlank

theorem endsBlank_append (some : rest ≠ []) (front : Text) :
    endsBlank (front ++ rest) = endsBlank rest := by
  rw [endsBlank, endsBlank, List.getLast?_append, List.getLast?_eq_some_getLast some]
  rfl

theorem endsBlank_of_blanks (some : text ≠ []) (blank : Blanks text) : endsBlank text = true := by
  rw [endsBlank, List.getLast?_eq_some_getLast some]
  exact blank _ (List.getLast_mem some)

theorem IsWord.endsBlank (isWord : IsWord word) : endsBlank word = false := by
  rw [Text.endsBlank, List.getLast?_eq_some_getLast isWord.1]
  exact isWord.2 _ (List.getLast_mem isWord.1)

/-- The same words, and a blank after the last of them in both texts or in neither. -/
structure Relaid (text other : Text) : Prop where
  words : text.words = other.words
  ends : text.words ≠ [] → text.endsBlank = other.endsBlank

theorem Relaid.after {front front' rest' : Text} (relaid : Relaid (front ++ rest) (front' ++ rest'))
    (same : rest'.words = rest.words) : Relaid rest rest' := by
  refine ⟨same.symm, fun some => ?_⟩
  have whole : (front ++ rest).words ≠ [] := by
    intro none
    have blank := words_eq_nil_iff_blanks.mp none
    exact some (words_eq_nil_iff_blanks.mpr fun c member => blank c (List.mem_append_right _ member))
  have ends := relaid.ends whole
  rwa [endsBlank_append (by rintro rfl; exact some rfl),
    endsBlank_append (by rintro rfl; exact some same.symm)] at ends

theorem Relaid.dropWhile {other : Text} (relaid : Relaid text other) :
    Relaid (text.dropWhile isBlank) (other.dropWhile isBlank) := by
  have split := List.takeWhile_append_dropWhile (p := isBlank) (l := text)
  have split' := List.takeWhile_append_dropWhile (p := isBlank) (l := other)
  rw [← split, ← split'] at relaid
  refine relaid.after ?_
  rw [words_dropWhile, words_dropWhile, ← split, ← split', relaid.words]

end Layout

section Trimming

theorem trimEnd_append_blank (blank : isBlank c = true) (text : Text) :
    trimEnd (text ++ [c]) = trimEnd text := by
  rw [trimEnd, List.reverse_append, List.reverse_singleton, List.singleton_append,
    List.dropWhile_cons_of_pos (isSpace_of_isBlank blank)]
  rfl

theorem trimEnd_cons (visible : isSpace c = false) (text : Text) :
    trimEnd (c :: text) = c :: trimEnd text := by
  have stops : Stops isSpace [c] := stops_cons.mpr visible
  rw [trimEnd, List.reverse_cons, dropWhile_append_of_stops stops, List.reverse_append]
  rfl

theorem trimEnd_trimEnd (text : Text) : trimEnd (trimEnd text) = trimEnd text := by
  rw [trimEnd, trimEnd, List.reverse_reverse, dropWhile_dropWhile]

theorem trimEnd_of_all (all : ∀ c ∈ text, isSpace c = false) : trimEnd text = text := by
  have stops : Stops isSpace text.reverse := fun c head =>
    all c (List.mem_reverse.mp (List.mem_of_mem_head? head))
  have kept : text.reverse.dropWhile isSpace = text.reverse :=
    dropWhile_of_stops (List.forall_mem_nil _) stops
  rw [trimEnd, kept, List.reverse_reverse]

theorem mem_of_mem_trimEnd (member : c ∈ trimEnd text) : c ∈ text := by
  have kept := (List.dropWhile_sublist isSpace).subset (List.mem_reverse.mp member)
  exact List.mem_reverse.mp kept

end Trimming

end NetTrace.Text
