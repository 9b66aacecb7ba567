import NetTrace.Proofs.Vcd.Relexing

namespace NetTrace.Vcd

open Scan Text
open Netlist (DigitRun SimpleName)
open NetTrace.Token (complete_eq_ok)

variable {α : Type} {scan : Scan Text α} {grammar : WordGrammar α} {value : α} {text token : Text}
  {words others : List Text} {declared : Variable} {change : ValueChange}

section Grammar

def Ending (first : Text) : WordGrammar Text := fun words name others =>
  (words = Word.endTag :: others ∧ name = first) ∨
    ∃ range, range ≠ Word.endTag ∧ words = range :: Word.endTag :: others ∧ name = first ++ range

/-- A variable of any type with its width, code and name. The code may follow the width in the same
    word. -/
def Declared : WordGrammar Variable := fun words declared others =>
  ∃ middle digits first ending, words = "$var".toList :: declared.type.keyword :: middle ∧
    Digits middle digits (declared.code :: first :: ending) ∧
    Numeral.word64? 10 digits = some declared.width ∧ Ending first ending declared.name others

theorem VariableType.ofKeyword?_eq_some {word : Text} {type : VariableType} :
    ofKeyword? word = some type ↔ word = type.keyword := by
  constructor
  · intro found
    unfold ofKeyword? at found
    have same := List.find?_some found
    exact (eq_of_beq same).symm
  · intro same
    subst same
    cases type <;> decide

theorem byWords_typed {next : VariableType → Scan Text α} {after : VariableType → WordGrammar α}
    (reads : ∀ type, ByWords (next type) (after type)) :
    ByWords (Word.scan >>= fun word => match VariableType.ofKeyword? word with
        | none => throw { cause := .missing "a VCD variable type" word }
        | some type => next type) fun words value others =>
      ∃ type middle, words = type.keyword :: middle ∧ after type middle value others := by
  intro text value others
  constructor
  · intro given
    obtain ⟨rest, runs, rfl⟩ := given
    obtain ⟨word, middle, run, runs⟩ := bind_eq_ok.mp runs
    have same : text.words = word :: middle.words := byWords_word.words run
    cases known : VariableType.ofKeyword? word with
    | none =>
      rw [known] at runs
      cases runs
    | some type =>
      rw [known] at runs
      rw [VariableType.ofKeyword?_eq_some.mp known] at same
      exact ⟨type, middle.words, same, (reads type).words runs⟩
  · intro given
    obtain ⟨type, _, same, holds⟩ := given
    obtain ⟨middle, run, rfl⟩ := (byWords_word text type.keyword _).mpr same
    obtain ⟨rest, runs, left⟩ := (reads type middle value others).mpr holds
    refine ⟨rest, bind_eq_ok.mpr ⟨type.keyword, middle, run, ?_⟩, left⟩
    rw [VariableType.ofKeyword?_eq_some.mpr rfl]
    exact runs

theorem byWords_ending (f : Text → α) (first : Text) :
    ByWords (optionally (Word.scanTag "end".toList) >>= fun ended => match ended with
        | some _ => pure (f first)
        | none => Word.scan >>= fun range => Word.scanTag "end".toList >>= fun _ =>
          pure (f (first ++ range))) fun words value others =>
      ∃ name, Ending first words name others ∧ value = f name := by
  have tag : ByWords (Word.scanTag "end".toList) (Exactly Word.endTag) := byWords_tag (by decide)
  have second : ByWords (Word.scan >>= fun range => Word.scanTag "end".toList >>= fun _ =>
      pure (f (first ++ range))) _ :=
    byWords_word.bind fun range => tag.bind fun _ => .pure _
  refine (tag.perhaps (fun _ => .pure (f first)) second).congr fun words value others _ => ?_
  constructor
  · intro given
    rcases given with ⟨_, _, ⟨rfl, rfl⟩, same, rfl⟩ | ⟨absent, range, _, rfl, _, _, ⟨rfl, rfl⟩, same, rfl⟩
    · exact ⟨first, .inl ⟨rfl, rfl⟩, same⟩
    · have apart : range ≠ Word.endTag := fun ended => absent range _ ⟨by rw [ended], ended⟩
      exact ⟨first ++ range, .inr ⟨range, apart, rfl, rfl⟩, same⟩
  · intro given
    obtain ⟨name, ⟨rfl, rfl⟩ | ⟨range, apart, rfl, rfl⟩, same⟩ := given
    · exact .inl ⟨_, others, ⟨rfl, rfl⟩, same, rfl⟩
    · have absent : ∀ value left, ¬ Exactly Word.endTag (range :: Word.endTag :: others) value left :=
        fun value left holds => apart (List.cons.inj holds.1).1
      exact .inr ⟨absent, range, _, rfl, _, _, ⟨rfl, rfl⟩, same, rfl⟩

theorem byWords_declared : ByWords Variable.scanDeclaration Declared := by
  have tag : ByWords (Word.scanTag "var".toList) (Exactly "$var".toList) := byWords_tag (by decide)
  refine .phrase _ ((tag.bind fun _ => byWords_typed fun type => byWords_width.bind fun width =>
    byWords_code.bind fun code => byWords_word.bind fun first => byWords_ending
      (fun name => ({ type, width, code, name } : Variable)) first).congr ?_)
  intro words declared others _
  constructor
  · intro given
    obtain ⟨_, _, ⟨rfl, rfl⟩, type, middle, rfl, width, _, ⟨digits, holds, read⟩, code, _, rfl,
      first, ending, rfl, name, ends, rfl⟩ := given
    exact ⟨middle, digits, first, ending, rfl, holds, read, ends⟩
  · intro given
    obtain ⟨middle, digits, first, ending, rfl, holds, read, ends⟩ := given
    exact ⟨_, _, ⟨rfl, rfl⟩, declared.type, middle, rfl, declared.width, _, ⟨digits, holds, read⟩,
      declared.code, _, rfl, first, ending, rfl, declared.name, ends, rfl⟩

end Grammar

section Decoders

theorem readsAll_iff (reads : ByWords scan grammar) :
    ReadsAll scan text value ↔ grammar text.words value [] := by
  constructor
  · intro all
    obtain ⟨rest, runs, blank⟩ := all
    have holds := reads.words runs
    rwa [words_eq_nil.mpr blank] at holds
  · exact readsAll_of_words reads

theorem declaration_eq_ok :
    Token.declaration text = .ok declared ↔ Declared text.words declared [] := by
  rw [← readsAll_iff byWords_declared]
  unfold Token.declaration ReadsAll
  cases (Variable.scanDeclaration : Scan Text Variable) text with
  | error failure rest => simp
  | ok found rest =>
    by_cases blank : rest.dropWhile isBlank = []
    · simp [blank, -List.dropWhile_eq_nil_iff]
    · simp [blank, -List.dropWhile_eq_nil_iff]

theorem wire_eq_ok : Token.wire text = .ok declared ↔ Wire text.words declared [] :=
  complete_eq_ok.trans (readsAll_iff byWords_wire)

theorem valueChange_eq_ok : Token.valueChange text = .ok change ↔ Change text.words change [] :=
  complete_eq_ok.trans (readsAll_iff byWords_change)

end Decoders

section Renderings

def ValueChange.Legal : ValueChange → Prop
  | .scalar value code => isBit value = true ∧ IsWord code
  | .vector bits code => DigitRun isBit bits ∧ IsWord code
  | .real number code => number.Canonical ∧ IsWord code

theorem Declared.areWords (reads : Declared words declared others)
    (all : ∀ word ∈ words, IsWord word) : IsWord declared.code ∧ IsWord declared.name := by
  obtain ⟨middle, digits, first, ending, rfl, holds, -, ends⟩ := reads
  have left := byWords_digits.areWords
    (fun word member => all word (List.mem_cons_of_mem _ (List.mem_cons_of_mem _ member))) holds
  refine ⟨left _ (by simp), ?_⟩
  rcases ends with ⟨-, same⟩ | ⟨range, -, rfl, same⟩
  · rw [same]
    exact left first (by simp)
  · rw [same]
    exact isWord_append (left first (by simp)) (left range (by simp))

theorem declared_rendered (isCode : IsWord declared.code) (isName : IsWord declared.name) :
    Declared declared.render.words declared [] := by
  rw [Variable.words_render isCode isName]
  exact ⟨_, _, declared.name, [Word.endTag], rfl, digits_decimal _ _, Numeral.word64?_decimal _,
    .inl ⟨rfl, rfl⟩⟩

theorem change_rendered (legal : change.Legal) : Change change.render.words change [] := by
  rw [← List.append_nil change.render.words]
  cases change with
  | scalar value code => exact .inl (.inl (scalar_rendered legal.1 legal.2 []))
  | vector bits code => exact .inl (.inr (vector_rendered legal.1 legal.2 []))
  | real number code => exact .inr (real_rendered legal.1 legal.2 [])

theorem Change.legal (all : ∀ word ∈ words, IsWord word) (reads : Change words change others) :
    change.Legal := by
  rcases reads with (⟨value, code, rfl, bit, some, rfl⟩ | ⟨_, bits, code, rfl, -, some, run, rfl⟩) |
    ⟨_, written, number, code, rfl, -, read, rfl⟩
  · have isWord := all (value :: code) (List.mem_cons_self ..)
    exact ⟨bit, some, fun c member => isWord.2 c (List.mem_cons_of_mem _ member)⟩
  · exact ⟨⟨some, run⟩, all code (by simp)⟩
  · exact ⟨Binary64.canonical_read read, all code (by simp)⟩

/-- A declaration is decoded from its rendering if its code and its name are words, whichever words
    they are, and no declaration is decoded that has other codes or names. A value change is decoded
    from its rendering if its value is one of its kind and its code a word, and no other value change
    is decoded. -/
theorem renderings_decode :
    (∀ declared : Variable, IsWord declared.code → IsWord declared.name →
      Token.declaration declared.render = .ok declared) ∧
    (∀ text declared, Token.declaration text = .ok declared →
      IsWord declared.code ∧ IsWord declared.name) ∧
    (∀ change : ValueChange, change.Legal → Token.valueChange change.render = .ok change) ∧
    ∀ text change, Token.valueChange text = .ok change → change.Legal := by
  have areWords : ∀ text : Text, ∀ word ∈ text.words, IsWord word :=
    fun text word member => isWord_of_mem_words member
  refine ⟨fun declared isCode isName => ?_, fun text declared decoded => ?_, fun change legal => ?_,
    fun text change decoded => ?_⟩
  · exact declaration_eq_ok.mpr (declared_rendered isCode isName)
  · exact (declaration_eq_ok.mp decoded).areWords (areWords text)
  · exact valueChange_eq_ok.mpr (change_rendered legal)
  · exact (valueChange_eq_ok.mp decoded).legal (areWords text)

theorem renderings_decode_tags :
    let declared : Variable := { type := .trireg, width := 8, code := "07".toList,
                                 name := "$end".toList }
    let change : ValueChange := .vector "01x".toList "b1".toList
    declared.render = "$var trireg 8 07 $end $end".toList ∧
      Token.declaration declared.render = .ok declared ∧ change.render = "b01x b1".toList ∧
      Token.valueChange change.render = .ok change := by
  intro declared change
  have run : DigitRun ValueChange.isBit "01x".toList := by decide
  have legal : change.Legal := ⟨run, by decide⟩
  obtain ⟨decodes, -, decodes', -⟩ := renderings_decode
  have decoded := decodes declared (by decide) (by decide)
  exact ⟨by decide +kernel, decoded, by decide, decodes' change legal⟩

end Renderings

section Wires

theorem trimEnd_of_simple {word : Text} (simple : SimpleName word) : trimEnd word = word := by
  obtain ⟨first, others, rfl, starts, all⟩ := simple
  refine trimEnd_of_all (List.forall_mem_cons.mpr ⟨?_, fun c member => ?_⟩)
  · exact isSpace_of_continues (Netlist.continues_of_starts starts)
  · exact isSpace_of_continues (all c member)

/-- The words after the code are the last of all the words, whether the code stands by itself or in
    one word with the width. -/
theorem Digits.after_code {digits code : Text} (all : ∀ word ∈ words, IsWord word)
    (reads : Digits words digits (code :: others)) : ∃ front, words = front ++ others := by
  obtain ⟨front, more, rest, rfl, -, -, same⟩ := reads
  by_cases none : more = []
  · subst none
    rw [words_nil, List.nil_append] at same
    exact ⟨[front ++ [], code], by rw [← same]; rfl⟩
  · have whole := all (front ++ more) (List.mem_cons_self ..)
    have isWord : IsWord more := ⟨none, fun c member => whole.2 c (List.mem_append_right _ member)⟩
    rw [isWord.words] at same
    obtain ⟨-, rfl⟩ := List.cons.inj same
    exact ⟨[front ++ more], rfl⟩

theorem Wire.declares (all : ∀ word ∈ words, IsWord word) (reads : Wire words declared others) :
    ∃ name, IsName name ∧ declared.type = .wire ∧ declared.name = trimEnd name ∧
      Declared words { declared with name } others ∧
      ∃ front, words = front ++ name :: Word.endTag :: others := by
  obtain ⟨middle, digits, width, code, name, rfl, holds, read, isName, rfl⟩ := reads
  have left : ∀ word ∈ middle, IsWord word := fun word member =>
    all word (List.mem_cons_of_mem _ (List.mem_cons_of_mem _ member))
  obtain ⟨front, same⟩ := holds.after_code left
  refine ⟨name, isName, rfl, rfl, ⟨middle, digits, name, _, rfl, holds, read, .inl ⟨rfl, rfl⟩⟩, ?_⟩
  exact ⟨"$var".toList :: "wire".toList :: front, by rw [same]; rfl⟩

/-- What is lexed as a wire to its end is decoded as a declaration with the name as it was written,
    which is the word before the last `$end`. Decoded as a wire it has the same type, width and code,
    and the name without the white space at its end. A simple name has none there, but an escaped
    name may end with white space that is no blank. -/
theorem wires_are_declarations (lexed : Rule.lex (.vcd .var) text = .ok ([], token)) :
    ∃ declared : Variable, Token.declaration text = .ok declared ∧ declared.type = .wire ∧
      IsName declared.name ∧ (∃ front, text.words = front ++ [declared.name, Word.endTag]) ∧
      Token.wire text = .ok { declared with name := trimEnd declared.name } ∧
      (Token.wire text = .ok declared ↔ trimEnd declared.name = declared.name) ∧
      (SimpleName declared.name → Token.wire text = .ok declared) := by
  obtain ⟨found, left, run, -, blank⟩ := (Rule.lex_map rfl).mp lexed
  have reads := (readsAll_iff byWords_wire).mp ⟨left, run, blank.symm⟩
  obtain ⟨name, isName, type, same, declares, before⟩ :=
    reads.declares fun word member => isWord_of_mem_words member
  have trimmed : Token.wire text = .ok { found with name := trimEnd name } := by
    rw [← same]
    exact wire_eq_ok.mpr reads
  have agrees : Token.wire text = .ok { found with name } ↔ trimEnd name = name := by
    rw [trimmed]
    simp
  exact ⟨{ found with name }, declaration_eq_ok.mpr declares, type, isName, before, trimmed, agrees,
    fun simple => agrees.mpr (trimEnd_of_simple simple)⟩

/-- A code in the same word as the width, and an escaped name that looks like the end. -/
theorem wires_are_declarations_escaped :
    let text := "\n$var wire 08! \\$end\t$end ".toList
    let declared : Variable := { type := .wire, width := 8, code := "!".toList,
                                 name := "\\$end".toList }
    Rule.lex (.vcd .var) text = .ok ([], "$var wire 8 ! \\$end $end".toList) ∧
      Token.declaration text = .ok declared ∧ Token.wire text = .ok declared := by
  intro text declared
  have lexed : Rule.lex (.vcd .var) text = .ok ([], "$var wire 8 ! \\$end $end".toList) := by
    decide +kernel
  have known : Token.declaration text = .ok declared := by decide +kernel
  obtain ⟨found, decoded, -, -, -, -, agrees, -⟩ := wires_are_declarations lexed
  rw [known] at decoded
  obtain rfl := Except.ok.inj decoded
  exact ⟨lexed, known, agrees.mpr (by decide)⟩

/-- The ideographic space at the end of an escaped name is no blank and belongs to the name. As a
    declaration the name keeps it, as a wire the name loses it. -/
theorem wire_loses_space :
    let text := "$var wire 1 ! \\a\u3000 $end".toList
    let declared : Variable := { type := .wire, width := 1, code := "!".toList,
                                 name := "\\a\u3000".toList }
    Rule.lex (.vcd .var) text = .ok ([], "$var wire 1 ! \\a $end".toList) ∧
      Token.declaration text = .ok declared ∧ Token.wire text ≠ .ok declared ∧
      Token.wire text = .ok { declared with name := "\\a".toList } := by
  decide +kernel

end Wires

end NetTrace.Vcd
