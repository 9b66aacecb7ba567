import NetTrace.Lexing
import NetTrace.Proofs.Scan.Causes
import NetTrace.Proofs.Scan.Words
import NetTrace.Proofs.Vcd.Follows

namespace NetTrace

open Scan View

theorem Netlist.restores_phrase (phrase : Netlist.Phrase) :
    Restores (phrase.read : Scan Text Netlist.Reading) := by
  have operand : Restores (Netlist.Operand.scan : Scan Text Netlist.Operand) := by
    intro text failure rest refused
    exact Scan.restores_phrase _ _ refused
  cases phrase with
  | connectedElement => exact operand.map _
  | _ => exact (Scan.restores_phrase _ _).map _

theorem Vcd.restores_phrase (phrase : Vcd.Phrase) :
    Restores (phrase.read : Scan Text Text) := by
  cases phrase with
  | value => exact (Scan.restores_phrase _ _).map _
  | scalarValueChange => exact (Scan.restores_phrase _ _).map _
  | binaryVectorValueChange => exact (Scan.restores_phrase _ _).map _
  | realVectorValueChange => exact (Scan.restores_phrase _ _).map _
  | valueChange => exact (Scan.restores_phrase _ _).map _
  | var => exact (Scan.restores_phrase _ _).map _
  | _ => exact Scan.restores_phrase _ _

theorem Signal.restores_key : Restores (Signal.key : Scan Text Text) := by
  apply Restores.map
  apply (Scan.restores_phrase _ _).andThen
  intro name text
  rcases optionally_goes Netlist.Bounds.scan text with ⟨bounds, rest, runs⟩
  exact ⟨{ name, bounds }, rest, bind_ok _ runs⟩

namespace Rule

theorem restores_read (rule : Rule) : Restores (rule.read : Scan Text Text) := by
  cases rule with
  | netlist phrase => exact (Netlist.restores_phrase phrase).map _
  | character c => exact (restores_rewinding _).map _
  | wrapped inner opening closing => exact (Scan.restores_phrase _ _).map _
  | vcd phrase => exact Vcd.restores_phrase phrase
  | signalKey => exact Signal.restores_key

theorem restores_token (rule : Rule) : Restores (rule.token : Scan Text Text) :=
  rule.restores_read.andThen fun token text => ⟨token, text.dropWhile Text.isBlank, rfl⟩

variable {σ μ : Type} [Input σ μ] {view : View σ μ} {marks : List (μ × Text)}

theorem follows_read (faithful : view.Faithful) (rule : Rule) :
    view.Follows marks rule.read rule.read := by
  cases rule with
  | netlist phrase => exact .map _ (Netlist.follows_netlist faithful phrase)
  | character c => exact .map _ (follows_symbol faithful c)
  | wrapped inner opening closing =>
    apply Follows.map
    apply Netlist.follows_enclosed faithful
    exact fun _ => Netlist.follows_netlist faithful inner
  | vcd phrase => exact Vcd.follows_vcd faithful phrase
  | signalKey => exact .map _ (Netlist.follows_selection faithful)

theorem follows_token (faithful : view.Faithful) (rule : Rule) :
    view.Follows marks rule.token rule.token :=
  .bind (rule.follows_read faithful) fun _ => .bind (follows_skipBlanks faithful) fun _ => .pure _

theorem byWords_token {rule : Rule} {grammar : WordGrammar Text}
    (reads : ByWords rule.read grammar) : ByWords rule.token grammar := by
  refine (reads.bind fun token text value others => ?_ :
    ByWords rule.token fun words value others => ∃ found middle, grammar words found middle ∧
      value = found ∧ others = middle).congr ?_
  · rw [bind_skipBlanks, run_pure]
    constructor
    · rintro ⟨rest, runs, rfl⟩
      cases runs
      exact ⟨rfl, Text.words_dropWhile text⟩
    · rintro ⟨rfl, rfl⟩
      exact ⟨_, rfl, Text.words_dropWhile text⟩
  · intro words value others _
    constructor
    · rintro ⟨_, _, holds, rfl, rfl⟩
      exact holds
    · exact fun holds => ⟨value, others, holds, rfl, rfl⟩

theorem lex_eq_ok {rule : Rule} {text rest token : Text} :
    rule.lex text = .ok (rest, token) ↔ rule.token text = .ok token rest := by
  unfold lex
  cases rule.token text <;> simp [and_comm]

theorem lex_eq_error {rule : Rule} {text : Text} {failure : Failure} :
    rule.lex text = .error failure ↔ ∃ rest, rule.token text = .error failure rest := by
  unfold lex
  cases rule.token text <;> simp

theorem lex_refuses {rule : Rule} {text : Text} {cause : Cause} :
    (∃ failure, rule.lex text = .error failure ∧ failure.cause = cause) ↔
      RefusesFor rule.read text cause := by
  constructor
  · intro given
    obtain ⟨failure, refused, same⟩ := given
    obtain ⟨left, refused⟩ := lex_eq_error.mp refused
    rcases bind_eq_error.mp refused with refused | ⟨_, _, -, refused⟩
    · exact ⟨failure, left, refused, same⟩
    · cases refused
  · intro refuses
    obtain ⟨failure, left, refused, same⟩ := refuses
    exact ⟨failure, lex_eq_error.mpr ⟨left, bind_eq_error.mpr (.inl refused)⟩, same⟩

theorem lex_iff_read {rule : Rule} {text rest token : Text} : rule.lex text = .ok (rest, token) ↔
    ∃ left, (rule.read : Scan Text Text) text = .ok token left ∧
      rest = left.dropWhile Text.isBlank := by
  rw [lex_eq_ok, Rule.token, bind_eq_ok]
  constructor
  · intro lexed
    obtain ⟨found, left, read, ended⟩ := lexed
    cases ended
    exact ⟨left, read, rfl⟩
  · intro given
    obtain ⟨left, read, rfl⟩ := given
    exact ⟨token, left, read, rfl⟩

theorem lex_map {α : Type} {rule : Rule} {scan : Scan Text α} {render : α → Text}
    (same : (rule.read : Scan Text Text) = render <$> scan) {text rest token : Text} :
    rule.lex text = .ok (rest, token) ↔ ∃ value left, scan text = .ok value left ∧
      token = render value ∧ rest = left.dropWhile Text.isBlank := by
  rw [lex_iff_read, same]
  constructor
  · intro lexed
    obtain ⟨left, read, rfl⟩ := lexed
    obtain ⟨value, run, rfl⟩ := map_eq_ok.mp read
    exact ⟨value, left, run, rfl, rfl⟩
  · intro given
    obtain ⟨value, left, run, rfl, rfl⟩ := given
    exact ⟨left, map_ok _ run, rfl⟩

end Rule

end NetTrace
