import NetTrace.Proofs.Vcd.Simulation
import NetTrace.Vcd.Variable

namespace NetTrace.Vcd

open Scan Text
open Netlist (DigitRun SimpleName EscapedName)

variable {α : Type} {text rest word : Text}

def Digits : WordGrammar Text :=
  Front (fun value front => value = front ∧ DigitRun Char.isDigit front) Char.isDigit

def IsName (word : Text) : Prop := SimpleName word ∨ ∃ body, word = '\\' :: body

def Wire : WordGrammar Variable := fun words declared others =>
  ∃ middle digits width code name, words = "$var".toList :: "wire".toList :: middle ∧
    Digits middle digits (code :: name :: Word.endTag :: others) ∧
    Numeral.word64? 10 digits = some width ∧ IsName name ∧
    declared = { type := .wire, width, code, name := trimEnd name }

theorem byWords_digits : ByWords Netlist.Literal.scanDigits Digits := by
  refine byWords_front ?_ ?_ visible_of_isDigit
  · intro text rest value
    rw [Netlist.digits_eq_ok]
    constructor
    · rintro ⟨split, run, stops⟩
      exact ⟨value, split, ⟨rfl, run⟩, stops⟩
    · rintro ⟨_, split, ⟨rfl, run⟩, stops⟩
      exact ⟨split, run, stops⟩
  · rintro value _ ⟨rfl, some, all⟩
    exact ⟨some, fun c member => visible_of_isDigit (all c member)⟩

theorem byWords_width : ByWords Variable.scanWidth fun words width others =>
    ∃ digits, Digits words digits others ∧ Numeral.word64? 10 digits = some width := by
  have reads : ByWords Variable.scanWidth fun words width others => ∃ digits middle,
      Digits words digits middle ∧ Numeral.word64? 10 digits = some width ∧ others = middle := by
    apply byWords_digits.bind
    intro digits
    cases found : Numeral.word64? 10 digits with
    | some width =>
      refine (ByWords.pure width).congr fun words value others _ => ?_
      rw [Option.some.injEq, eq_comm]
    | none =>
      intro text value others
      constructor
      · rintro ⟨rest, runs, -⟩
        cases runs
      · rintro ⟨same, -⟩
        contradiction
  refine reads.congr fun words width others _ => ?_
  constructor
  · rintro ⟨digits, _, holds, same, rfl⟩
    exact ⟨digits, holds, same⟩
  · rintro ⟨digits, holds, same⟩
    exact ⟨digits, others, holds, same, rfl⟩

theorem SimpleName.isWord (simple : SimpleName word) : IsWord word := by
  obtain ⟨first, others, rfl, starts, all⟩ := simple
  refine ⟨List.cons_ne_nil _ _, fun c member => Netlist.visible_of_continues ?_⟩
  rcases List.mem_cons.mp member with rfl | member
  · exact Netlist.continues_of_starts starts
  · exact all c member

/-- A simple name before `$end` ends with a blank, since a dollar sign would belong to it. -/
theorem parts_of_tag {more : Text} (stops : Stops Netlist.Name.continues rest)
    (tag : rest.dropWhile isBlank = Word.endTag ++ more) : Parts rest := by
  cases rest with
  | nil => exact stops_nil _
  | cons c others =>
    by_cases blank : isBlank c = true
    · exact stops_cons.mpr (by simp [blank])
    · rw [List.dropWhile_cons_of_neg blank] at tag
      have first : c = '$' := (List.cons.inj tag).1
      have continues := stops_cons.mp stops
      rw [first] at continues
      contradiction

theorem words_of_name {name : Text} (split : text.dropWhile isBlank = name ++ rest)
    (named : SimpleName name ∧ Parts rest ∨ EscapedName name) :
    ∃ word, text.words = word :: rest.words ∧ IsName word ∧ trimEnd name = trimEnd word := by
  rw [← words_dropWhile, split]
  rcases named with ⟨simple, parts⟩ | ⟨body, terminator, rfl, all, blank⟩
  · exact ⟨name, (SimpleName.isWord simple).words_append parts, .inl simple, rfl⟩
  · have isWord : IsWord ('\\' :: body) := isWord_cons rfl all
    refine ⟨'\\' :: body, ?_, .inr ⟨body, rfl⟩, trimEnd_append_blank blank _⟩
    rw [List.append_assoc, List.singleton_append, words_append_blank blank, isWord.words]
    rfl

theorem name_of_words {others : List Text} (same : text.words = word :: others) (isName : IsName word)
    (some : others ≠ []) : ∃ name rest, Netlist.Name.scan text = .ok name rest ∧
      rest.words = others ∧ trimEnd name = trimEnd word := by
  rcases text.words_cases with ⟨-, none⟩ | ⟨first, tail, isWord, parts, split, words⟩
  · rw [none] at same
    contradiction
  · rw [words] at same
    obtain ⟨rfl, left⟩ := List.cons.inj same
    rcases isName with simple | ⟨body, rfl⟩
    · have stops := parts.stops fun c holds => Netlist.visible_of_continues (c := c) holds
      exact ⟨first, tail, Netlist.name_eq_ok.mpr ⟨split, .inl ⟨simple, stops⟩⟩, left, rfl⟩
    · cases tail with
      | nil => exact absurd left.symm some
      | cons b tail =>
        have blank : isBlank b = true := by simpa using stops_cons.mp parts
        have escaped : EscapedName ('\\' :: body ++ [b]) :=
          ⟨body, b, rfl, fun c member => isWord.2 c (List.mem_cons_of_mem _ member), blank⟩
        rw [words_cons_blank blank] at left
        refine ⟨_, tail, Netlist.name_eq_ok.mpr ⟨?_, .inr escaped⟩, left, trimEnd_append_blank blank _⟩
        rw [split, List.append_assoc, List.singleton_append]

theorem byWords_named (f : Text → α) :
    ByWords (Netlist.Name.scan >>= fun name => Word.scanTag "end".toList >>= fun _ =>
      pure (f (trimEnd name))) fun words value others =>
        ∃ name, words = name :: Word.endTag :: others ∧ IsName name ∧ value = f (trimEnd name) := by
  have tag : ByWords (Word.scanTag "end".toList) (Exactly Word.endTag) := byWords_tag (by decide)
  intro text value others
  constructor
  · rintro ⟨rest, runs, rfl⟩
    obtain ⟨name, middle, run, runs⟩ := bind_eq_ok.mp runs
    obtain ⟨written, left, run', runs⟩ := bind_eq_ok.mp runs
    cases runs
    obtain ⟨split, named⟩ := Netlist.name_eq_ok.mp run
    obtain ⟨-, split', -⟩ := scanExactly_eq_ok.mp (phrase_eq_ok.mp run')
    obtain ⟨word, same, isName, trimmed⟩ := words_of_name split
      (named.imp_left fun ⟨simple, stops⟩ => ⟨simple, parts_of_tag stops split'⟩)
    exact ⟨word, by rw [same, (tag.words run').1], isName, by rw [trimmed]⟩
  · rintro ⟨word, same, isName, rfl⟩
    obtain ⟨name, middle, run, same', trimmed⟩ := name_of_words same isName (List.cons_ne_nil _ _)
    obtain ⟨left, run', left'⟩ := (tag middle Word.endTag others).mpr ⟨same', rfl⟩
    refine ⟨left, bind_eq_ok.mpr ⟨name, middle, run, bind_eq_ok.mpr ⟨_, left, run', ?_⟩⟩, left'⟩
    rw [trimmed]
    rfl

theorem byWords_wire : ByWords Variable.scanWire Wire := by
  have tag : ByWords (Word.scanTag "var".toList) (Exactly "$var".toList) := byWords_tag (by decide)
  have type : ByWords (Word.scanExactly VariableType.wire.keyword) (Exactly "wire".toList) :=
    byWords_exactly (by decide)
  refine .phrase _ ((tag.bind fun _ => type.bind fun _ => byWords_width.bind fun width =>
    byWords_code.bind fun code => byWords_named fun name =>
      ({ type := .wire, width, code, name } : Variable)).congr ?_)
  intro words declared others _
  constructor
  · rintro ⟨_, _, ⟨rfl, rfl⟩, _, _, ⟨rfl, rfl⟩, width, _, ⟨digits, holds, read⟩, code, _, rfl, name,
      rfl, isName, rfl⟩
    exact ⟨_, digits, width, code, name, rfl, holds, read, isName, rfl⟩
  · rintro ⟨middle, digits, width, code, name, rfl, holds, read, isName, rfl⟩
    exact ⟨_, _, ⟨rfl, rfl⟩, _, _, ⟨rfl, rfl⟩, width, _, ⟨digits, holds, read⟩, code, _, rfl, name,
      rfl, isName, rfl⟩

end NetTrace.Vcd
