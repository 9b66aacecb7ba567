import NetTrace.Proofs.Binary64.RoundTrip
import NetTrace.Proofs.Vcd.Wire

namespace NetTrace.Vcd

open Scan Text
open Netlist (DigitRun SimpleName)

variable {α : Type} {grammar : WordGrammar α} {render : α → Text} {word value text : Text}
  {words others : List Text} {keywords : List Text}

def Rereads (grammar : WordGrammar α) (render : α → Text) : Prop :=
  ∀ {words : List Text} {value : α} {others : List Text}, (∀ word ∈ words, IsWord word) →
    grammar words value others → ∀ more, grammar ((render value).words ++ more) value more

theorem Rereads.map (again : Rereads grammar render) :
    Rereads (fun words value others => ∃ found, grammar words found others ∧ render found = value)
      id := by
  intro words value others all reads more
  obtain ⟨found, reads, rfl⟩ := reads
  exact ⟨found, again all reads more, rfl⟩

section Parts

theorem rereads_word : Rereads OneWord id := by
  intro words value others all same more
  have isWord := all value (by rw [same]; exact List.mem_cons_self ..)
  rw [id, isWord.words]
  rfl

theorem rereads_keyword : Rereads (OneOf keywords) id := by
  intro words value others all reads more
  exact ⟨rereads_word all reads.1 more, reads.2⟩

theorem rereads_toEnd : Rereads ToEnd id := by
  intro words value others all reads more
  obtain ⟨body, closes, rfl, rfl⟩ := reads
  have split := words_joined fun word member => all word (List.mem_append_left _ member)
  exact ⟨body, closes, by rw [id, split], rfl⟩

theorem rereads_command : Rereads (CommandOf keywords) id := by
  intro words value others all reads more
  obtain ⟨keyword, body, member, closes, rfl, rfl⟩ := reads
  have split := words_joined fun word member => all word (List.mem_append_left _ member)
  exact ⟨keyword, body, member, closes, by rw [id, split], rfl⟩

theorem rereads_front {spelled : α → Text → Prop} {test : Char → Bool}
    (renders : ∀ {value front}, spelled value front → render value = front)
    (isWord : ∀ {value front}, spelled value front → IsWord front) :
    Rereads (Front spelled test) render := by
  intro words value others all reads more
  obtain ⟨front, _, _, -, spells, -, -⟩ := reads
  refine ⟨front, [], more, ?_, spells, stops_nil test, rfl⟩
  rw [renders spells, (isWord spells).words, List.append_nil]
  rfl

theorem rereads_time : Rereads (Front (Marked '#' Char.isDigit) Char.isDigit) id :=
  rereads_front (fun marked => marked.1) (Marked.isWord rfl visible_of_isDigit)

theorem rereads_anyTag : Rereads (Front (Marked '$' Word.continuesTag) Word.continuesTag) id :=
  rereads_front (fun marked => marked.1) (Marked.isWord rfl (visible_of_test (by decide)))

theorem rereads_bit : Rereads (Front (fun bit front => front = [bit] ∧ ValueChange.isBit bit = true)
    fun _ => false) fun bit => [bit] := by
  apply rereads_front
  · intro bit front spells
    exact spells.1.symm
  · intro bit front spells
    obtain ⟨rfl, holds⟩ := spells
    exact ⟨List.cons_ne_nil _ _, by simpa using visible_of_isBit holds⟩

end Parts

section Changes

theorem scalar_rendered {value : Char} {code : Text} (bit : ValueChange.isBit value = true)
    (isCode : IsWord code) (more : List Text) :
    ScalarChange ((ValueChange.scalar value code).render.words ++ more) (.scalar value code) more := by
  have isWord : IsWord (value :: code) := isWord_cons (visible_of_isBit bit) isCode.2
  exact ⟨value, code, by rw [ValueChange.render, isWord.words]; rfl, bit, isCode.1, rfl⟩

theorem vector_rendered {bits code : Text} (run : DigitRun ValueChange.isBit bits)
    (isCode : IsWord code) (more : List Text) :
    VectorChange ((ValueChange.vector bits code).render.words ++ more) (.vector bits code) more := by
  have isWord : IsWord ('b' :: bits) :=
    isWord_cons rfl fun c member => visible_of_isBit (run.2 c member)
  have split := isWord.words_pair isCode
  exact ⟨'b', bits, code, by rw [ValueChange.render, split]; rfl, .inl rfl, run.1, run.2, rfl⟩

theorem real_rendered {number : Binary64} {code : Text} (canonical : number.Canonical)
    (isCode : IsWord code) (more : List Text) :
    RealChange ((ValueChange.real number code).render.words ++ more) (.real number code) more := by
  have isWord : IsWord ('r' :: number.render) := isWord_cons rfl number.visible_render
  have split := isWord.words_pair isCode
  have again := Binary64.read?_render canonical
  exact ⟨'r', number.render, number, code, by rw [ValueChange.render, split]; rfl, .inl rfl, again, rfl⟩

theorem rereads_scalar : Rereads ScalarChange ValueChange.render := by
  intro words change others all reads more
  obtain ⟨value, code, rfl, bit, some, rfl⟩ := reads
  have isWord := all (value :: code) (List.mem_cons_self ..)
  have isCode : IsWord code := ⟨some, fun c member => isWord.2 c (List.mem_cons_of_mem _ member)⟩
  exact scalar_rendered bit isCode more

theorem rereads_vector : Rereads VectorChange ValueChange.render := by
  intro words change others all reads more
  obtain ⟨kind, bits, code, rfl, -, some, allBits, rfl⟩ := reads
  exact vector_rendered ⟨some, allBits⟩ (all code (by simp)) more

/-- The number is rounded where it is read, and its rendering has the same value. -/
theorem rereads_real : Rereads RealChange ValueChange.render := by
  intro words change others all reads more
  obtain ⟨kind, written, number, code, rfl, -, read, rfl⟩ := reads
  exact real_rendered (Binary64.canonical_read read) (all code (by simp)) more

theorem rereads_change : Rereads Change ValueChange.render := by
  intro words change others all reads more
  rcases reads with (scalar | vector) | real
  · exact .inl (.inl (rereads_scalar all scalar more))
  · exact .inl (.inr (rereads_vector all vector more))
  · exact .inr (rereads_real all real more)

end Changes

section Commands

theorem Rereads.many {scan : Scan Text α} (again : Rereads grammar render)
    (reads : ByWords scan grammar) {values : List α} {more : List Text}
    (all : ∀ word ∈ words, IsWord word) (many : Many grammar words values others)
    (absent : ∀ value left, ¬ grammar more value left) :
    Many grammar (values.flatMap (fun value => (render value).words) ++ more) values more := by
  induction many with
  | stop _ => exact .stop absent
  | more first _ ih =>
    have rest := ih (reads.areWords all first)
    rw [List.flatMap_cons, List.append_assoc]
    exact .more (again all first _) rest

theorem rereads_values : Rereads Values id := by
  intro words value others all reads more
  obtain ⟨keyword, middle, changes, rfl, member, many, rfl⟩ := reads
  have isWord := all keyword (List.mem_cons_self ..)
  have tag : IsWord Word.endTag := by decide
  have absent : ∀ change left, ¬ Change (Word.endTag :: more) change left := by
    intro change left holds
    exact holds.not_starts rfl ⟨'$', "end".toList, more, rfl, beq_self_eq_true '$'⟩
  have again := rereads_change.many byWords_change
    (fun word member => all word (List.mem_cons_of_mem _ member)) many absent
  refine ⟨keyword, _, changes, ?_, member, again, rfl⟩
  rw [id, words_append_blank rfl, words_append_flatMap, isWord.words, tag.words]
  simp

theorem rereads_simulation : Rereads Simulation id := by
  intro words value others all reads more
  rcases reads with ((change | time) | values) | comment
  · exact .inl (.inl (.inl (rereads_change.map all change more)))
  · exact .inl (.inl (.inr (rereads_time all time more)))
  · exact .inl (.inr (rereads_values all values more))
  · exact .inr (rereads_command all comment more)

theorem not_simulation_nil (command : Text) (left : List Text) : ¬ Simulation [] command left := by
  rintro (((⟨change, reads, -⟩ | reads) | reads) | reads)
  · obtain ⟨_, _, _, same, -⟩ := reads.starts
    contradiction
  · obtain ⟨_, _, _, same, -⟩ := reads.starts
    contradiction
  · obtain ⟨_, _, same, -⟩ := reads.starts
    contradiction
  · obtain ⟨_, _, same, -⟩ := reads.starts
    contradiction

/-- No command of the body that was read after those of the header is one of these when it is
    written: a comment would have been read among them. -/
theorem not_declaration (all : ∀ word ∈ words, IsWord word) (reads : Simulation words value others)
    (absent : ∀ command left, ¬ CommandOf Command.declarationKeywords words command left)
    (more : List Text) (command : Text) (left : List Text) :
    ¬ CommandOf Command.declarationKeywords (value.words ++ more) command left := by
  intro holds
  have dollar : Starts (· == '$') (value.words ++ more) := starts_of_keyword (by decide) holds.starts
  rcases reads with ((change | time) | values) | comment
  · obtain ⟨found, again, -⟩ := rereads_change.map all change more
    exact again.not_starts rfl dollar
  · exact (rereads_time all time more).not_starts (by decide) dollar
  · obtain ⟨keyword, rest, same, member⟩ := (rereads_values all values more).starts
    obtain ⟨keyword', rest', same', member'⟩ := holds.starts
    rw [id] at same
    rw [same] at same'
    obtain ⟨rfl, -⟩ := List.cons.inj same'
    have apart : ∀ keyword ∈ Command.simulationKeywords, keyword ∉ Command.declarationKeywords := by
      decide
    exact apart keyword member member'
  · obtain ⟨keyword, body, member, others⟩ := comment
    refine absent value _ ⟨keyword, body, ?_, others⟩
    rw [List.mem_singleton.mp member]
    decide

theorem rereads_definitions (all : ∀ word ∈ words, IsWord word) (reads : Definitions words value others) :
    Definitions value.words value [] := by
  obtain ⟨declarations, middle, commands, many, many', rfl⟩ := reads
  have areWords := (byWords_declaration.collectAll passes_declaration).areWords all many
  have after := rereads_simulation.many byWords_simulation areWords many' not_simulation_nil
  -- What is written for the body is not taken for more commands of the header.
  have stopped : ∀ command left, ¬ CommandOf Command.declarationKeywords
      (commands.flatMap (fun command => (id command).words) ++ []) command left := by
    cases many' with
    | stop _ =>
      intro command left holds
      obtain ⟨_, _, same, -⟩ := holds.starts
      contradiction
    | more first _ =>
      rw [List.flatMap_cons, List.append_assoc]
      exact not_declaration areWords first many.stopped _
  have before := rereads_command.many byWords_declaration all many stopped
  refine ⟨declarations, _, commands, ?_, after, rfl⟩
  rw [words_intercalate rfl, List.flatMap_append]
  simpa using before

end Commands

section Wires

theorem isSpace_of_continues {c : Char} (continues : Netlist.Name.continues c = true) :
    isSpace c = false := by
  have small : c.toNat < 128 := by
    simp only [Netlist.Name.continues, Char.isAlphanum, Netlist.isAlpha_eq, Netlist.isUpper_iff,
      Netlist.isLower_iff, Char.isDigit, Bool.or_eq_true, Bool.and_eq_true, decide_eq_true_eq,
      beq_iff_eq, Char.le_def, ge_iff_le, UInt32.le_iff_toNat_le, Char.toNat_val,
      Char.reduceToNat] at continues
    rcases continues with (((⟨_, _⟩ | ⟨_, _⟩) | ⟨_, _⟩) | rfl) | rfl
    · omega
    · omega
    · omega
    · decide
    · decide
  have checked : ∀ n < 128, Netlist.Name.continues (Char.ofNat n) = true →
      isSpace (Char.ofNat n) = false := by decide
  have apart := checked c.toNat small
  rw [Char.ofNat_toNat] at apart
  exact apart continues

/-- Spaces that are no blanks can end an escaped name. They are trimmed from it. -/
theorem IsName.trimEnd (isName : IsName word) : IsName (trimEnd word) := by
  rcases isName with ⟨first, others, rfl, starts, all⟩ | ⟨body, rfl⟩
  · rw [trimEnd_cons (isSpace_of_continues (Netlist.continues_of_starts starts))]
    exact .inl ⟨first, _, rfl, starts, fun c member => all c (mem_of_mem_trimEnd member)⟩
  · rw [trimEnd_cons (by decide)]
    exact .inr ⟨_, rfl⟩

theorem isWord_trimEnd (isName : IsName word) (isWord : IsWord word) : IsWord (trimEnd word) := by
  refine ⟨?_, fun c member => isWord.2 c (mem_of_mem_trimEnd member)⟩
  rcases isName.trimEnd with ⟨first, others, same, -⟩ | ⟨body, same⟩
  · rw [same]
    exact List.cons_ne_nil _ _
  · rw [same]
    exact List.cons_ne_nil _ _

theorem isWord_decimal (n : Nat) : IsWord (Numeral.decimal n) :=
  ⟨Numeral.decimal_ne_nil n, fun _ member => visible_of_isDigit (Numeral.isDigit_of_mem_decimal member)⟩

theorem Variable.render_eq (declared : Variable) : declared.render = List.intercalate [' ']
    ["$var".toList, declared.type.keyword, Numeral.decimal declared.width.toNat, declared.code,
      declared.name, Word.endTag] := by
  obtain ⟨type, width, code, name⟩ := declared
  have front : "$var ".toList = "$var".toList ++ [' '] := rfl
  have ending : " $end".toList = ' ' :: Word.endTag := rfl
  show "$var ".toList ++ type.keyword ++ ' ' :: Numeral.decimal width.toNat ++ ' ' :: code ++
    ' ' :: name ++ " $end".toList = _
  rw [front, ending]
  simp [List.intercalate]

theorem VariableType.isWord_keyword (type : VariableType) : IsWord type.keyword := by
  cases type <;> decide

theorem Variable.words_render {declared : Variable} (isCode : IsWord declared.code)
    (isName : IsWord declared.name) : declared.render.words =
      ["$var".toList, declared.type.keyword, Numeral.decimal declared.width.toNat, declared.code,
        declared.name, Word.endTag] := by
  have var : IsWord "$var".toList := by decide
  have tag : IsWord Word.endTag := by decide
  rw [declared.render_eq]
  apply words_joined
  simp only [List.forall_mem_cons]
  exact ⟨var, declared.type.isWord_keyword, isWord_decimal _, isCode, isName, tag,
    List.forall_mem_nil _⟩

theorem digits_decimal (n : Nat) (others : List Text) :
    Digits (Numeral.decimal n :: others) (Numeral.decimal n) others := by
  have run : DigitRun Char.isDigit (Numeral.decimal n) :=
    ⟨Numeral.decimal_ne_nil _, fun _ => Numeral.isDigit_of_mem_decimal⟩
  exact ⟨_, [], _, by rw [List.append_nil], ⟨rfl, run⟩, stops_nil _, rfl⟩

theorem rereads_wire : Rereads Wire Variable.render := by
  intro words declared others all reads more
  obtain ⟨middle, digits, width, code, name, rfl, holds, read, isName, rfl⟩ := reads
  have left := byWords_digits.areWords
    (fun word member => all word (List.mem_cons_of_mem _ (List.mem_cons_of_mem _ member))) holds
  have isWord := isWord_trimEnd isName (left name (by simp))
  refine ⟨_, _, width, code, trimEnd name, ?_, digits_decimal width.toNat _,
    Numeral.word64?_decimal width, isName.trimEnd, by rw [trimEnd_trimEnd]⟩
  rw [Variable.words_render (left code (by simp)) isWord]
  rfl

end Wires

end NetTrace.Vcd
