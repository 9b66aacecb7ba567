import NetTrace.Proofs.Lexing.Rules
import NetTrace.Proofs.Vcd.Rereading
import NetTrace.Vcd.Token

namespace NetTrace.Vcd

open Scan Text
open NetTrace.Token (complete complete_eq_ok)

variable {α : Type} {scan scan' : Scan Text α} {grammar grammar' : WordGrammar α}
  {render : α → Text} {value : α} {text rest token word : Text}

def ReadsAll (scan : Scan Text α) (text : Text) (value : α) : Prop :=
  ∃ rest, scan text = .ok value rest ∧ rest.dropWhile isBlank = []

section Complete

theorem readsAll_of_words (reads : ByWords scan grammar) (holds : grammar text.words value []) :
    ReadsAll scan text value := by
  obtain ⟨rest, runs, none⟩ := (reads text value []).mpr holds
  exact ⟨rest, runs, words_eq_nil.mp none⟩

theorem Rereads.from_words (again : Rereads grammar render) (reads : ByWords scan grammar)
    (runs : scan text = .ok value rest) : grammar (render value).words value [] := by
  have all : ∀ word ∈ text.words, IsWord word := fun word member => isWord_of_mem_words member
  have holds := again all (reads.words runs) []
  rwa [List.append_nil] at holds

theorem Rereads.readsAll (again : Rereads grammar render) (reads : ByWords scan grammar)
    (runs : scan text = .ok value rest) : ReadsAll scan (render value) value :=
  readsAll_of_words reads (again.from_words reads runs)

theorem ReadsAll.complete (all : ReadsAll scan text value) (name : String) :
    complete name scan text = .ok value := complete_eq_ok.mpr all

theorem ReadsAll.lex {phrase : Phrase} (all : ReadsAll phrase.read token token) :
    Rule.lex (.vcd phrase) token = .ok ([], token) := by
  obtain ⟨rest, runs, blank⟩ := all
  refine Rule.lex_eq_ok.mpr (bind_eq_ok.mpr ⟨token, rest, runs, ?_⟩)
  rw [bind_skipBlanks, blank]
  rfl

theorem Rereads.readsAll_map (again : Rereads grammar render) (reads : ByWords scan grammar)
    (runs : (render <$> scan) text = .ok token rest) : ReadsAll (render <$> scan) token token := by
  obtain ⟨value, run, rfl⟩ := map_eq_ok.mp runs
  obtain ⟨left, run', blank⟩ := again.readsAll reads run
  exact ⟨left, map_eq_ok.mpr ⟨value, run', rfl⟩, blank⟩

theorem Rereads.complete (again : Rereads grammar render) (reads : ByWords scan grammar)
    (reads' : ByWords scan' grammar')
    (wider : ∀ {words value others}, grammar words value others → grammar' words value others)
    (name : String) (runs : (render <$> scan) text = .ok token rest) :
    ∃ value, complete name scan' token = .ok value ∧ render value = token := by
  obtain ⟨value, run, rfl⟩ := map_eq_ok.mp runs
  have all := readsAll_of_words reads' (wider (again.from_words reads run))
  exact ⟨value, all.complete name, rfl⟩

end Complete

section Arguments

theorem dropWhile_of_split (split : text.dropWhile isBlank = word ++ rest) :
    word.dropWhile isBlank = word := by
  cases word with
  | nil => rfl
  | cons c others =>
    have stops := stops_dropWhile isBlank text
    rw [split, List.cons_append, stops_cons] at stops
    exact List.dropWhile_cons_of_neg (by simp [stops])

theorem readsAll_scanText (runs : (Word.scanText word : Scan Text Text) text = .ok token rest) :
    ReadsAll (Word.scanText word) token token := by
  obtain ⟨rfl, split⟩ := scanText_eq_ok.mp runs
  have front := dropWhile_of_split split
  exact ⟨[], scanText_eq_ok.mpr ⟨rfl, by rw [front, List.append_nil]⟩, rfl⟩

theorem readsAll_scanTag {name : Text}
    (runs : (Word.scanTag name : Scan Text Text) text = .ok token rest) :
    ReadsAll (Word.scanTag name) token token := by
  obtain ⟨rfl, split, -⟩ := scanExactly_eq_ok.mp (phrase_eq_ok.mp runs)
  have front := dropWhile_of_split split
  have again := scanExactly_eq_ok.mpr ⟨rfl, by rw [front, List.append_nil], stops_nil _⟩
  exact ⟨[], phrase_eq_ok.mpr again, rfl⟩

end Arguments

namespace Phrase

/-- The token is taken apart where tokens of the phrase are, and its parts are written as it is. -/
def TakenApart : Phrase → Text → Prop
  | var, token => ∃ declared, Token.wire token = .ok declared ∧ declared.render = token
  | scalarValueChange, token | binaryVectorValueChange, token | realVectorValueChange, token
  | valueChange, token => ∃ change, Token.valueChange token = .ok change ∧ change.render = token
  | simulationTime, token => ∃ time, Token.simulationTime token = .ok time
  | _, _ => True

theorem readsAll_token (phrase : Phrase)
    (runs : (phrase.read : Scan Text Text) text = .ok token rest) :
    ReadsAll phrase.read token token := by
  cases phrase with
  | exactString word => exact readsAll_scanText runs
  | tag name => exact readsAll_scanTag runs
  | anyTag => exact rereads_anyTag.readsAll byWords_anyTag runs
  | nonWhitespace => exact rereads_word.readsAll byWords_word runs
  | identifierCode => exact rereads_word.readsAll byWords_code runs
  | textToEnd => exact rereads_toEnd.readsAll byWords_toEnd runs
  | declarationKeyword => exact rereads_keyword.readsAll (byWords_keyword _ (by decide)) runs
  | declarationCommand => exact rereads_command.readsAll byWords_declaration runs
  | simulationKeyword => exact rereads_keyword.readsAll (byWords_keyword _ (by decide)) runs
  | simulationTime => exact rereads_time.readsAll byWords_time runs
  | value => exact rereads_bit.readsAll_map byWords_bit runs
  | scalarValueChange => exact rereads_scalar.readsAll_map byWords_scalar runs
  | binaryVectorValueChange => exact rereads_vector.readsAll_map byWords_vector runs
  | realVectorValueChange => exact rereads_real.readsAll_map byWords_real runs
  | valueChange => exact rereads_change.readsAll_map byWords_change runs
  | simulationValueCommand => exact rereads_values.readsAll byWords_values runs
  | comment => exact rereads_command.readsAll byWords_comment runs
  | simulationCommand => exact rereads_simulation.readsAll byWords_simulation runs
  | vcdDefinitions =>
    have all : ∀ word ∈ text.words, IsWord word := fun word member => isWord_of_mem_words member
    exact readsAll_of_words byWords_definitions
      (rereads_definitions all (byWords_definitions.words runs))
  | var => exact rereads_wire.readsAll_map byWords_wire runs

theorem takenApart_time (all : ReadsAll Command.scanTime token token) :
    simulationTime.TakenApart token := by
  show ∃ time, Token.simulationTime token = .ok time
  rw [Token.simulationTime, all.complete "SimulationTime"]
  dsimp only [bind, Except.bind, pure, Except.pure]
  cases Numeral.word64? 10 token.tail with
  | some time => exact ⟨_, rfl⟩
  | none => exact ⟨_, rfl⟩

theorem takenApart_token (phrase : Phrase)
    (runs : (phrase.read : Scan Text Text) text = .ok token rest) : phrase.TakenApart token := by
  cases phrase with
  | var => exact rereads_wire.complete byWords_wire byWords_wire id _ runs
  -- A change of one kind is taken apart as a change of any kind.
  | scalarValueChange =>
    exact rereads_scalar.complete byWords_scalar byWords_change (fun reads => .inl (.inl reads)) _ runs
  | binaryVectorValueChange =>
    exact rereads_vector.complete byWords_vector byWords_change (fun reads => .inl (.inr reads)) _ runs
  | realVectorValueChange =>
    exact rereads_real.complete byWords_real byWords_change .inr _ runs
  | valueChange => exact rereads_change.complete byWords_change byWords_change id _ runs
  | simulationTime =>
    have whole := rereads_time.readsAll byWords_time runs
    exact takenApart_time whole
  | _ => exact trivial

/-- The token of a phrase is lexed as itself, whatever was written for it in the input. -/
theorem relexes (phrase : Phrase) (lexed : Rule.lex (.vcd phrase) text = .ok (rest, token)) :
    Rule.lex (.vcd phrase) token = .ok ([], token) ∧ phrase.TakenApart token := by
  obtain ⟨found, left, runs, same⟩ := bind_eq_ok.mp (Rule.lex_eq_ok.mp lexed)
  obtain rfl : found = token := by
    rw [bind_skipBlanks] at same
    cases same
    rfl
  exact ⟨(phrase.readsAll_token runs).lex, phrase.takenApart_token runs⟩

/-- The zeros of the width, the letter of the vector and the digits of the number are written in
    another way than they were read. -/
theorem relexes_definitions :
    let text := "$var wire 08! a $end #5\tB1x ! $dumpvars r1.50 ! 0! $end rest".toList
    let token := "$var wire 08! a $end\n#5\nb1x !\n$dumpvars r1.5 ! 0! $end".toList
    Rule.lex (.vcd .vcdDefinitions) text = .ok ("rest".toList, token) ∧
      Rule.lex (.vcd .vcdDefinitions) token = .ok ([], token) := by
  intro text token
  have lexed : Rule.lex (.vcd .vcdDefinitions) text = .ok ("rest".toList, token) := by
    decide +kernel
  exact ⟨lexed, (relexes .vcdDefinitions lexed).1⟩

end Phrase

/-- A value change is lexed where a text holds one of its three kinds, and each kind where the text
    holds that one. What is left stands after the code and the blanks behind it, and the token is
    taken apart to what the text holds. No text holds two changes, of one kind or of two. -/
theorem changes_are_exact :
    (∀ text rest token, (Rule.vcd .valueChange).lex text = .ok (rest, token) ↔
      ∃ (phrase : Phrase) (change : ValueChange) (after : Text), phrase.Holds change text after ∧
        token = change.render ∧ rest = after.dropWhile isBlank) ∧
    (∀ phrase ∈ [Phrase.scalarValueChange, .binaryVectorValueChange, .realVectorValueChange],
      ∀ text rest token, (Rule.vcd phrase).lex text = .ok (rest, token) ↔
        ∃ change after, phrase.Holds change text after ∧ token = change.render ∧
          rest = after.dropWhile isBlank) ∧
    (∀ (phrase other : Phrase) text change change' after after', phrase.Holds change text after →
      other.Holds change' text after' → other = phrase ∧ change' = change ∧ after' = after) ∧
    ∀ (phrase : Phrase) text change after, phrase.Holds change text after →
      Token.valueChange change.render = .ok change := by
  refine ⟨fun text rest token => ?_, ?_, ?_, ?_⟩
  · have lexed : (Rule.vcd .valueChange).lex text = .ok (rest, token) ↔ ∃ change after,
        ValueChange.scan text = .ok change after ∧ token = change.render ∧
          rest = after.dropWhile isBlank := Rule.lex_map rfl
    simp only [change_eq_ok] at lexed
    rw [lexed]
    constructor
    · intro given
      obtain ⟨change, after, ⟨phrase, holds⟩, ended⟩ := given
      exact ⟨phrase, change, after, holds, ended⟩
    · intro given
      obtain ⟨phrase, change, after, holds, ended⟩ := given
      exact ⟨change, after, ⟨phrase, holds⟩, ended⟩
  · simp only [List.forall_mem_cons]
    refine ⟨fun text rest token => ?_, fun text rest token => ?_, fun text rest token => ?_,
      List.forall_mem_nil _⟩
    · simp only [← scalar_eq_ok]
      exact Rule.lex_map rfl
    · simp only [← vector_eq_ok]
      exact Rule.lex_map rfl
    · simp only [← real_eq_ok]
      exact Rule.lex_map rfl
  · intro phrase other text change change' after after' holds holds'
    have run := change_eq_ok.mpr ⟨phrase, holds⟩
    have run' := change_eq_ok.mpr ⟨other, holds'⟩
    obtain ⟨rfl, rfl⟩ := EStateM.Result.ok.inj (run'.symm.trans run)
    exact ⟨holds.kind holds', rfl, rfl⟩
  · intro phrase text change after holds
    have run := change_eq_ok.mpr ⟨phrase, holds⟩
    exact (rereads_change.readsAll byWords_change run).complete _

theorem changes_are_exact_vector :
    Phrase.scalarValueChange.Holds (.scalar 'x' "1".toList) "x1 b".toList " b".toList ∧
      Rule.lex (.vcd .scalarValueChange) "x1 b".toList = .ok ("b".toList, "x1".toList) ∧
      Phrase.binaryVectorValueChange.Holds (.vector "01x".toList "!a".toList)
        " B01x  !a 1!".toList " 1!".toList ∧
      Rule.lex (.vcd .valueChange) " B01x  !a 1!".toList = .ok ("1!".toList, "b01x !a".toList) ∧
      Token.valueChange "b01x !a".toList = .ok (.vector "01x".toList "!a".toList) ∧
      ∀ change after, ¬ Phrase.scalarValueChange.Holds change " B01x  !a 1!".toList after := by
  have parts : Parts " 1!".toList := stops_cons.mpr rfl
  have parts' : Parts " b".toList := stops_cons.mpr rfl
  have scalar : Phrase.scalarValueChange.Holds (.scalar 'x' "1".toList) "x1 b".toList " b".toList :=
    ⟨_, _, _, rfl, .scalar rfl, by decide, parts', rfl⟩
  have leads : Phrase.binaryVectorValueChange.Leads (.vector "01x".toList)
      ('B' :: "01x".toList ++ [' ', ' ']) :=
    .vector (by decide) (by decide) (by decide) (by decide)
  have vector : Phrase.binaryVectorValueChange.Holds (.vector "01x".toList "!a".toList)
      " B01x  !a 1!".toList " 1!".toList :=
    ⟨_, _, _, rfl, leads, by decide, parts, rfl⟩
  obtain ⟨any, each, apart, decoded⟩ := changes_are_exact
  refine ⟨scalar, (each _ (by decide) _ _ _).mpr ⟨_, _, scalar, rfl, rfl⟩, vector,
    (any _ _ _).mpr ⟨_, _, _, vector, rfl, rfl⟩, decoded _ _ _ _ vector, fun change after holds => ?_⟩
  exact absurd (apart _ _ _ _ _ _ _ vector holds).1 (by decide)

end NetTrace.Vcd
