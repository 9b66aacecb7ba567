import NetTrace.Proofs.Netlist.Lexemes
import NetTrace.Proofs.Scan.Words
import NetTrace.Proofs.Vcd.OnText

namespace NetTrace.Vcd

open Scan Text

variable {text rest word value : Text} {words others : List Text}

def OneWord : WordGrammar Text := fun words value others => words = value :: others

def Exactly (word : Text) : WordGrammar Text := fun words value others =>
  words = word :: others ∧ value = word

def OneOf (keywords : List Text) : WordGrammar Text := fun words value others =>
  words = value :: others ∧ value ∈ keywords

/-- The words of a command after its keyword: the last of them is the first `$end`. -/
def Closes (body : List Text) : Prop := ∃ before, body = before ++ [Word.endTag] ∧ Word.endTag ∉ before

def ToEnd : WordGrammar Text := fun words value others =>
  ∃ body, Closes body ∧ words = body ++ others ∧ value = List.intercalate [' '] body

def CommandOf (keywords : List Text) : WordGrammar Text := fun words value others =>
  ∃ keyword body, keyword ∈ keywords ∧ Closes body ∧ words = keyword :: body ++ others ∧
    value = List.intercalate [' '] (keyword :: body)

theorem CommandOf.starts {keywords : List Text} (reads : CommandOf keywords words value others) :
    ∃ keyword rest, words = keyword :: rest ∧ keyword ∈ keywords := by
  obtain ⟨keyword, body, member, -, same, -⟩ := reads
  exact ⟨keyword, body ++ others, same, member⟩

theorem word_eq_ok : Word.scan text = .ok value rest ↔
    text.dropWhile isBlank = value ++ rest ∧ IsWord value ∧ Parts rest := by
  simp only [Word.scan, phrase_eq_ok, bind_skipBlanks, bind_eq_ok, span_eq_ok, ite_eq_ok]
  constructor
  · intro runs
    obtain ⟨written, left, ⟨same, visible, parts⟩, ⟨-, runs⟩ | ⟨some, runs⟩⟩ := runs
    · cases runs
    · cases runs
      exact ⟨same, ⟨some, fun c member => by simpa using visible c member⟩, parts⟩
  · intro given
    obtain ⟨same, isWord, parts⟩ := given
    exact ⟨value, rest, ⟨same, fun c member => by simpa using isWord.2 c member, parts⟩,
      .inr ⟨isWord.1, rfl⟩⟩

theorem byWords_word : ByWords Word.scan OneWord := by
  intro text value others
  simp only [OneWord, words_eq_cons, word_eq_ok, and_assoc]

theorem byWords_code : ByWords Word.scanCode OneWord := byWords_word.phrase _

theorem run_scanCharacters (word rest : Text) :
    (Word.scanCharacters word : Scan Text Bool) (word ++ rest) = .ok true rest := by
  induction word with
  | nil => rfl
  | cons c others ih =>
    rw [Word.scanCharacters, List.cons_append, bind_next]
    simpa using ih

theorem scanText_eq_ok : (Word.scanText word : Scan Text Text) text = .ok value rest ↔
    value = word ∧ text.dropWhile isBlank = word ++ rest := by
  rw [Word.scanText, phrase_eq_ok, bind_skipBlanks, bind_mark, bind_eq_ok]
  constructor
  · rintro ⟨whole, middle, run, run'⟩
    cases whole with
    | true =>
      cases run'
      exact ⟨rfl, run_characters run⟩
    | false => cases run'
  · rintro ⟨rfl, split⟩
    exact ⟨true, rest, by rw [split, run_scanCharacters], rfl⟩

theorem scanExactly_eq_ok : (Word.scanExactly word : Scan Text Text) text = .ok value rest ↔
    value = word ∧ text.dropWhile isBlank = word ++ rest ∧ Parts rest := by
  rw [Word.scanExactly, rewinding_eq_ok, bind_mark, bind_eq_ok]
  constructor
  · rintro ⟨found, middle, run, run'⟩
    obtain ⟨rfl, split⟩ := scanText_eq_ok.mp run
    rw [bind_peek] at run'
    cases middle with
    | nil =>
      cases run'
      exact ⟨rfl, split, stops_nil _⟩
    | cons c others =>
      obtain ⟨blank, run'⟩ | ⟨-, run'⟩ := ite_eq_ok.mp run'
      · cases run'
        exact ⟨rfl, split, stops_cons.mpr (by simp [blank])⟩
      · cases run'
  · rintro ⟨rfl, split, parts⟩
    refine ⟨value, rest, scanText_eq_ok.mpr ⟨rfl, split⟩, ?_⟩
    rw [bind_peek]
    cases rest with
    | nil => rfl
    | cons c others =>
      have blank : isBlank c = true := by simpa using stops_cons.mp parts
      exact ite_eq_ok.mpr (.inl ⟨blank, rfl⟩)

theorem byWords_exactly (isWord : IsWord word) : ByWords (Word.scanExactly word) (Exactly word) := by
  intro text value others
  constructor
  · rintro ⟨rest, runs, rfl⟩
    obtain ⟨rfl, split, parts⟩ := scanExactly_eq_ok.mp runs
    refine ⟨?_, rfl⟩
    rw [← words_dropWhile, split, isWord.words_append parts]
  · rintro ⟨same, rfl⟩
    rcases text.words_cases with ⟨-, none⟩ | ⟨first, rest, -, parts, split, some⟩
    · rw [none] at same
      contradiction
    · rw [some] at same
      obtain ⟨rfl, left⟩ := List.cons.inj same
      exact ⟨rest, scanExactly_eq_ok.mpr ⟨rfl, split, parts⟩, left⟩

theorem byWords_tag {name : Text} (isWord : IsWord ('$' :: name)) :
    ByWords (Word.scanTag name) (Exactly ('$' :: name)) := (byWords_exactly isWord).phrase _

theorem firstOf_iff {keywords : List Text} (areWords : ∀ keyword ∈ keywords, IsWord keyword) :
    (∃ rest, (Word.scanFirstOf keywords : Scan Text _) text = .ok (some value) rest ∧
      rest.words = others) ↔ OneOf keywords text.words value others := by
  induction keywords with
  | nil =>
    refine ⟨fun ⟨rest, runs, _⟩ => ?_, fun ⟨_, member⟩ => ?_⟩
    · cases runs
    · contradiction
  | cons keyword keywords ih =>
    have exactly := byWords_exactly (areWords keyword (List.mem_cons_self ..))
    have ih := ih fun other member => areWords other (List.mem_cons_of_mem _ member)
    constructor
    · rintro ⟨rest, runs, rfl⟩
      obtain ⟨found, middle, run, run'⟩ := bind_eq_ok.mp runs
      cases found with
      | some written =>
        cases run'
        obtain ⟨same, rfl⟩ := exactly.words (optionally_eq_some.mp run)
        exact ⟨same, List.mem_cons_self ..⟩
      | none =>
        obtain ⟨rfl, -⟩ := optionally_eq_none.mp run
        obtain ⟨same, member⟩ := ih.mp ⟨rest, run', rfl⟩
        exact ⟨same, List.mem_cons_of_mem _ member⟩
    · rintro ⟨same, member⟩
      by_cases here : value = keyword
      · obtain ⟨rest, run, left⟩ := (exactly text value others).mpr ⟨by rw [same, here], here⟩
        exact ⟨rest, bind_eq_ok.mpr ⟨_, _, optionally_eq_some.mpr run, rfl⟩, left⟩
      · have absent : ∀ value' others', ¬ Exactly keyword text.words value' others' := by
          intro value' others' holds
          rw [same] at holds
          exact here (List.cons.inj holds.1).1
        obtain ⟨failure, left, refused⟩ := exactly.refuses absent
        have others' : value ∈ keywords := (List.mem_cons.mp member).resolve_left here
        obtain ⟨rest, run, same'⟩ := ih.mpr ⟨same, others'⟩
        have none := optionally_eq_none.mpr ⟨rfl, failure, left, refused⟩
        exact ⟨rest, bind_eq_ok.mpr ⟨_, _, none, run⟩, same'⟩

theorem byWords_keyword (name : String) {keywords : List Text}
    (areWords : ∀ keyword ∈ keywords, IsWord keyword) :
    ByWords (Word.scanKeyword name keywords) (OneOf keywords) := by
  refine .phrase _ ?_
  intro text value others
  rw [← firstOf_iff areWords]
  constructor
  · rintro ⟨rest, runs, left⟩
    obtain ⟨found, middle, run, run'⟩ := bind_eq_ok.mp runs
    cases found with
    | some written =>
      cases run'
      exact ⟨rest, run, left⟩
    | none => cases run'
  · rintro ⟨rest, run, left⟩
    exact ⟨rest, bind_eq_ok.mpr ⟨_, _, run, rfl⟩, left⟩

theorem closes_cons : Closes (word :: others) ↔
    (word = Word.endTag ∧ others = []) ∨ (word ≠ Word.endTag ∧ Closes others) := by
  constructor
  · rintro ⟨before, same, absent⟩
    cases before with
    | nil =>
      obtain ⟨rfl, rfl⟩ := List.cons.inj same
      exact .inl ⟨rfl, rfl⟩
    | cons first before =>
      obtain ⟨rfl, rfl⟩ := List.cons.inj same
      have other := Ne.symm (List.ne_of_not_mem_cons absent)
      exact .inr ⟨other, before, rfl, List.not_mem_of_not_mem_cons absent⟩
  · rintro (⟨rfl, rfl⟩ | ⟨other, before, rfl, absent⟩)
    · exact ⟨[], rfl, List.not_mem_nil⟩
    · exact ⟨word :: before, rfl, List.not_mem_cons_of_ne_of_not_mem (Ne.symm other) absent⟩

theorem not_closes_nil : ¬ Closes [] := by
  rintro ⟨before, same, -⟩
  exact List.append_ne_nil_of_right_ne_nil _ (List.cons_ne_nil _ _) same.symm

theorem toEndUpTo_iff {limit : Nat} (above : text.length < limit) {body : List Text} :
    (∃ rest, (Word.scanToEndUpTo limit : Scan Text _) text = .ok body rest ∧ rest.words = others) ↔
      Closes body ∧ text.words = body ++ others := by
  -- By induction on the limit, along the words.
  induction limit generalizing text body with
  | zero => omega
  | succ limit ih =>
    constructor
    · rintro ⟨rest, runs, rfl⟩
      obtain ⟨written, middle, run, run'⟩ := bind_eq_ok.mp runs
      have same : text.words = written :: middle.words := byWords_word.words run
      have shorter := passes_word.length run
      obtain ⟨ended, run'⟩ | ⟨other, run'⟩ := ite_eq_ok.mp run'
      · cases run'
        exact ⟨closes_cons.mpr (.inl ⟨ended, rfl⟩), same⟩
      · obtain ⟨more, left, run', kept⟩ := bind_eq_ok.mp run'
        cases kept
        obtain ⟨closes, split⟩ := (ih (by omega)).mp ⟨_, run', rfl⟩
        exact ⟨closes_cons.mpr (.inr ⟨other, closes⟩), by rw [same, split, List.cons_append]⟩
    · rintro ⟨closes, split⟩
      cases body with
      | nil => exact (not_closes_nil closes).elim
      | cons written more =>
        obtain ⟨middle, run, left⟩ := (byWords_word text written (more ++ others)).mpr split
        have shorter := passes_word.length run
        rcases closes_cons.mp closes with ⟨ended, rfl⟩ | ⟨other, closes⟩
        · refine ⟨middle, bind_eq_ok.mpr ⟨_, _, run, ?_⟩, left⟩
          exact ite_eq_ok.mpr (.inl ⟨ended, rfl⟩)
        · obtain ⟨rest, run', left'⟩ := (ih (by omega)).mpr ⟨closes, left⟩
          refine ⟨rest, bind_eq_ok.mpr ⟨_, _, run, ?_⟩, left'⟩
          exact ite_eq_ok.mpr (.inr ⟨other, bind_eq_ok.mpr ⟨_, _, run', rfl⟩⟩)

theorem byWords_toEnd : ByWords Word.scanToEnd ToEnd := by
  refine .phrase _ ?_
  intro text value others
  have bytes := length_le_byteLength text
  have above : text.length < byteLength text + 1 := by omega
  constructor
  · rintro ⟨rest, runs, rfl⟩
    obtain ⟨_, _, counted, runs⟩ := bind_eq_ok.mp runs
    cases counted
    obtain ⟨body, middle, run, run'⟩ := bind_eq_ok.mp runs
    cases run'
    obtain ⟨closes, split⟩ := (toEndUpTo_iff above).mp ⟨_, run, rfl⟩
    exact ⟨body, closes, split, rfl⟩
  · rintro ⟨body, closes, split, rfl⟩
    obtain ⟨rest, run, left⟩ := (toEndUpTo_iff above).mpr ⟨closes, split⟩
    refine ⟨rest, bind_eq_ok.mpr ⟨byteLength text, text, rfl, ?_⟩, left⟩
    exact bind_eq_ok.mpr ⟨body, rest, run, rfl⟩

theorem joined_cons {body : List Text} (closes : Closes body) (word : Text) :
    word ++ ' ' :: List.intercalate [' '] body = List.intercalate [' '] (word :: body) := by
  cases body with
  | nil => exact (not_closes_nil closes).elim
  | cons next body => rfl

theorem byWords_command {keywords : List Text} {scan : Scan Text Text}
    (reads : ByWords scan (OneOf keywords)) :
    ByWords (scan >>= fun keyword => Word.scanToEnd >>= fun text => pure (keyword ++ ' ' :: text))
      (CommandOf keywords) := by
  refine (reads.bind fun keyword => byWords_toEnd.bind fun text => .pure _).congr ?_
  intro words value others _
  constructor
  · rintro ⟨keyword, _, ⟨rfl, member⟩, _, _, ⟨body, closes, rfl, rfl⟩, rfl, rfl⟩
    exact ⟨keyword, body, member, closes, rfl, joined_cons closes keyword⟩
  · rintro ⟨keyword, body, member, closes, rfl, rfl⟩
    exact ⟨keyword, _, ⟨rfl, member⟩, _, _, ⟨body, closes, rfl, rfl⟩,
      (joined_cons closes keyword).symm, rfl⟩

theorem byWords_declaration :
    ByWords Command.scanDeclaration (CommandOf Command.declarationKeywords) :=
  .phrase _ (byWords_command (byWords_keyword _ (by decide)))

end NetTrace.Vcd
