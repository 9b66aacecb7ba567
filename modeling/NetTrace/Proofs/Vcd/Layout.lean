import NetTrace.Proofs.Lexing.Rules
import NetTrace.Proofs.Vcd.Wire

namespace NetTrace.Vcd

open Scan Text

variable {text other word : Text}

theorem byWords_text (visible : ∀ c ∈ word, isBlank c = false) :
    ∃ grammar, ByWords (Word.scanText word) grammar := by
  by_cases empty : word = []
  · refine ⟨fun words value others => value = [] ∧ others = words, ?_⟩
    intro text value others
    subst empty
    simp only [scanText_eq_ok, List.nil_append]
    constructor
    · rintro ⟨rest, ⟨rfl, rfl⟩, rfl⟩
      exact ⟨rfl, words_dropWhile text⟩
    · rintro ⟨rfl, rfl⟩
      exact ⟨_, ⟨rfl, rfl⟩, words_dropWhile text⟩
  · refine ⟨Front (fun value front => value = word ∧ front = word) fun _ => false, ?_⟩
    apply byWords_front
    · intro text rest value
      rw [scanText_eq_ok]
      constructor
      · rintro ⟨rfl, split⟩
        exact ⟨value, split, ⟨rfl, rfl⟩, fun _ _ => rfl⟩
      · rintro ⟨_, split, ⟨rfl, rfl⟩, -⟩
        exact ⟨rfl, split⟩
    · rintro value _ ⟨-, rfl⟩
      exact ⟨empty, visible⟩
    · intro c holds
      contradiction

namespace Phrase

def argument? : Phrase → Option Text
  | exactString text => some text
  | tag name => some name
  | _ => none

theorem byWords_read (phrase : Phrase)
    (visible : ∀ argument, phrase.argument? = some argument → ∀ c ∈ argument, isBlank c = false) :
    ∃ grammar, ByWords phrase.read grammar := by
  cases phrase with
  | exactString text => exact byWords_text (visible text rfl)
  | tag name =>
    have isWord : IsWord ('$' :: name) := isWord_cons rfl (visible name rfl)
    exact ⟨_, byWords_tag isWord⟩
  | anyTag => exact ⟨_, byWords_anyTag⟩
  | nonWhitespace => exact ⟨_, byWords_word⟩
  | identifierCode => exact ⟨_, byWords_code⟩
  | textToEnd => exact ⟨_, byWords_toEnd⟩
  | declarationKeyword => exact ⟨_, byWords_keyword _ (by decide)⟩
  | declarationCommand => exact ⟨_, byWords_declaration⟩
  | simulationKeyword => exact ⟨_, byWords_keyword _ (by decide)⟩
  | simulationTime => exact ⟨_, byWords_time⟩
  | value => exact ⟨_, byWords_bit.map _⟩
  | scalarValueChange => exact ⟨_, byWords_scalar.map _⟩
  | binaryVectorValueChange => exact ⟨_, byWords_vector.map _⟩
  | realVectorValueChange => exact ⟨_, byWords_real.map _⟩
  | valueChange => exact ⟨_, byWords_change.map _⟩
  | simulationValueCommand => exact ⟨_, byWords_values⟩
  | comment => exact ⟨_, byWords_comment⟩
  | simulationCommand => exact ⟨_, byWords_simulation⟩
  | vcdDefinitions => exact ⟨_, byWords_definitions⟩
  | var => exact ⟨_, byWords_wire.map _⟩

end Phrase

end NetTrace.Vcd

namespace NetTrace.Scan.ByWords

open Text

variable {grammar : WordGrammar Text} {rule : Rule} {text other rest token : Text}

theorem lex_transfers (reads : ByWords rule.token grammar) (same : text.words = other.words)
    (lexed : rule.lex text = .ok (rest, token)) :
    ∃ left, rule.lex other = .ok (left, token) ∧ left.words = rest.words := by
  obtain ⟨left, run, words⟩ := reads.transfers same (Rule.lex_eq_ok.mp lexed)
  exact ⟨left, Rule.lex_eq_ok.mpr run, words⟩

end NetTrace.Scan.ByWords

namespace NetTrace.Vcd.Phrase

open Scan Text

variable {text other : Text}

/-- Texts of the same words are read alike: a phrase is found in both or in neither, with the same
    token, and leaves the same words. -/
theorem lexes_words (phrase : Phrase)
    (visible : ∀ argument, phrase.argument? = some argument → ∀ c ∈ argument, isBlank c = false)
    (same : text.words = other.words) :
    ((∃ found, Rule.lex (.vcd phrase) text = .ok found) ↔
      ∃ found, Rule.lex (.vcd phrase) other = .ok found) ∧
    ∀ rest rest' token token', Rule.lex (.vcd phrase) text = .ok (rest, token) →
      Rule.lex (.vcd phrase) other = .ok (rest', token') →
        token' = token ∧ rest'.words = rest.words := by
  obtain ⟨grammar, reads⟩ := phrase.byWords_read visible
  have reads : ByWords (Rule.token (.vcd phrase)) grammar := Rule.byWords_token reads
  refine ⟨⟨?forth, ?back⟩, ?equal⟩
  case forth =>
    rintro ⟨found, lexed⟩
    obtain ⟨left, lexed', -⟩ := reads.lex_transfers same lexed
    exact ⟨_, lexed'⟩
  case back =>
    rintro ⟨found, lexed⟩
    obtain ⟨left, lexed', -⟩ := reads.lex_transfers same.symm lexed
    exact ⟨_, lexed'⟩
  case equal =>
    intro rest rest' token token' lexed lexed'
    obtain ⟨left, lexed'', words⟩ := reads.lex_transfers same lexed
    rw [lexed'] at lexed''
    obtain ⟨rfl, rfl⟩ := Prod.mk.inj (Except.ok.inj lexed'')
    exact ⟨rfl, words⟩

theorem lexes_words_dumped :
    let dumped : Text := "$dumpvars 1! b0z q $end #5".toList
    let apart : Text := "\n$dumpvars\t1!\r\n  b0z \t q\n$end\n\n#5\n".toList
    dumped.words = apart.words ∧
      (∃ rest, Rule.lex (.vcd .simulationValueCommand) apart =
          .ok (rest, "$dumpvars 1! b0z q $end".toList) ∧ rest.words = ["#5".toList]) ∧
      ∃ rest, Rule.lex (.vcd (.exactString "$dump".toList)) apart = .ok (rest, "$dump".toList) ∧
        rest.words = words "vars 1! b0z q $end #5".toList := by
  intro dumped apart
  have same : dumped.words = apart.words := by decide +kernel
  refine ⟨same, ?values, ?front⟩
  case values =>
    have lexed : Rule.lex (.vcd .simulationValueCommand) dumped =
        .ok ("#5".toList, "$dumpvars 1! b0z q $end".toList) := by decide +kernel
    obtain ⟨both, equal⟩ := lexes_words .simulationValueCommand (by intro _ asked; cases asked) same
    obtain ⟨⟨rest, token⟩, lexed'⟩ := both.mp ⟨_, lexed⟩
    obtain ⟨rfl, words⟩ := equal _ _ _ _ lexed lexed'
    exact ⟨rest, lexed', words.trans (by decide +kernel)⟩
  case front =>
    have visible : ∀ argument, argument? (.exactString "$dump".toList) = some argument →
        ∀ c ∈ argument, isBlank c = false := by
      rintro _ ⟨⟩
      exact visible_of_all (by decide)
    have lexed : Rule.lex (.vcd (.exactString "$dump".toList)) dumped =
        .ok ("vars 1! b0z q $end #5".toList, "$dump".toList) := by decide +kernel
    obtain ⟨both, equal⟩ := lexes_words _ visible same
    obtain ⟨⟨rest, token⟩, lexed'⟩ := both.mp ⟨_, lexed⟩
    obtain ⟨rfl, words⟩ := equal _ _ _ _ lexed lexed'
    exact ⟨rest, lexed', words⟩

end NetTrace.Vcd.Phrase
