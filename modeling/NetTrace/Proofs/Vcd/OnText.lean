import NetTrace.Proofs.Scan.Limits
import NetTrace.Vcd.Phrase

namespace NetTrace.Scan

variable {α : Type} {text : Text}

theorem passes_run {test : Char → Bool} {refusal : Scan Text α} {next : Text → Scan Text α}
    (refuses : Passes 1 refusal) (passes : ∀ written, Passes 0 (next written)) :
    Passes 1 (span test >>= fun written => if written = [] then refusal else next written) := by
  intro text value rest runs
  rw [bind_span] at runs
  have whole : text = text.takeWhile test ++ text.dropWhile test :=
    List.takeWhile_append_dropWhile.symm
  by_cases empty : text.takeWhile test = []
  · rw [if_pos empty] at runs
    rw [empty, List.nil_append] at whole
    rw [← whole] at runs
    exact refuses runs
  · rw [if_neg empty] at runs
    rcases passes _ runs with ⟨front, same, -⟩
    refine ⟨text.takeWhile test ++ front, by rw [List.append_assoc, ← same, ← whole], ?_⟩
    have positive := List.length_pos_iff.mpr empty
    rw [List.length_append]
    omega

theorem passes_expected {c : Char} {refusal : Option Char → Scan Text α} {next' : Scan Text α}
    (refuses : ∀ found, Passes 1 (refusal found)) (passes : Passes 0 next') :
    Passes 1 (peek >>= fun found =>
      if found = some c then next >>= fun _ => next' else refusal found) := by
  intro text value rest runs
  rw [bind_peek] at runs
  by_cases here : text.head? = some c
  · rw [if_pos here, bind_next] at runs
    have whole := List.eq_cons_of_mem_head? here
    rcases passes runs with ⟨front, same, -⟩
    exact ⟨c :: front, by rw [List.cons_append, ← same, ← whole], Nat.le_add_left 1 _⟩
  · rw [if_neg here] at runs
    exact refuses _ runs

end NetTrace.Scan

namespace NetTrace.Vcd

open Scan

theorem run_characters {word text rest : Text}
    (runs : (Word.scanCharacters word : Scan Text Bool) text = .ok true rest) :
    text = word ++ rest := by
  induction word generalizing text with
  | nil =>
    cases runs
    rfl
  | cons c others ih =>
    rw [Word.scanCharacters, bind_next] at runs
    by_cases here : text.head? = some c
    · rw [if_pos here] at runs
      have whole := List.eq_cons_of_mem_head? here
      rw [whole, List.cons_append, ← ih runs]
    · rw [if_neg here] at runs
      cases runs

theorem passes_text (word : Text) : Passes word.length (Word.scanText word : Scan Text Text) := by
  refine .phrase _ (.andThen .skipBlanks fun _ => .andThen .mark fun start => ?_)
  intro text value rest runs
  rcases bind_eq_ok.mp runs with ⟨whole, middle, run, run'⟩
  cases whole with
  | true =>
    cases run'
    exact ⟨word, run_characters run, Nat.le_refl _⟩
  | false => cases run'

theorem passes_exactly (word : Text) :
    Passes word.length (Word.scanExactly word : Scan Text Text) := by
  refine .rewinding (.andThen .mark fun start => ?_)
  refine (Passes.bind (passes_text word) fun written => ?_ : Passes (word.length + 0) _)
  refine .andThen .peek fun found => ?_
  cases found with
  | none => exact .pure _
  | some c => exact .ite (fun _ => .pure _) fun _ => .refuseFrom _ _

theorem passes_tag (name : Text) : Passes 1 (Word.scanTag name : Scan Text Text) :=
  .phrase _ ((passes_exactly ('$' :: name)).mono (Nat.le_add_left 1 _))

theorem passes_word : Passes 1 (Word.scan : Scan Text Text) :=
  .phrase _ (.andThen .skipBlanks fun _ => passes_run (.refuseEnd _) fun _ => .pure _)

theorem passes_code : Passes 1 (Word.scanCode : Scan Text Text) := .phrase _ passes_word

theorem passes_toEndUpTo (limit : Nat) :
    Passes 0 (Word.scanToEndUpTo limit : Scan Text (List Text)) := by
  induction limit with
  | zero => exact .pure _
  | succ limit ih =>
    refine .andThen (passes_word.mono (Nat.zero_le _)) fun written => ?_
    exact .ite (fun _ => .pure _) fun _ => .andThen ih fun _ => .pure _

theorem toEndUpTo_congr {text : Text} {limit limit' : Nat} (above : text.length < limit)
    (above' : text.length < limit') :
    (Word.scanToEndUpTo limit : Scan Text (List Text)) text = Word.scanToEndUpTo limit' text := by
  -- By induction on the limit: a word is shorter than what it is read from.
  induction limit generalizing text limit' with
  | zero => omega
  | succ limit ih =>
    rcases limit' with _ | limit'
    · omega
    · refine bind_congr fun written rest runs => ?_
      have shorter := passes_word.length runs
      by_cases ended : written = Word.endTag
      · rw [if_pos ended, if_pos ended]
      · rw [if_neg ended, if_neg ended]
        have again : (Word.scanToEndUpTo limit : Scan Text (List Text)) rest =
            Word.scanToEndUpTo limit' rest := ih (by omega) (by omega)
        simp only [Bind.bind, EStateM.bind, again]

theorem passes_toEnd : Passes 1 (Word.scanToEnd : Scan Text Text) := by
  refine .phrase _ (.andThen .remaining fun bytes => ?_)
  refine @Passes.bind _ _ _ 1 0 _ ?_ fun _ => .pure _
  exact passes_word.bind fun written => .ite (fun _ => .pure _) fun _ =>
    .andThen (passes_toEndUpTo bytes) fun _ => .pure _

theorem passes_firstOf {keywords : List Text} :
    Passes 0 (Word.scanFirstOf keywords : Scan Text (Option Text)) := by
  induction keywords with
  | nil => exact .pure _
  | cons keyword others ih =>
    have exactly := (passes_exactly keyword).mono (Nat.zero_le _)
    refine .andThen (.optionally exactly) fun found => ?_
    cases found with
    | none => exact ih
    | some written => exact .pure _

theorem passes_keyword (name : String) (keywords : List Text) :
    Passes 0 (Word.scanKeyword name keywords : Scan Text Text) := by
  refine .phrase _ (.andThen passes_firstOf fun found => ?_)
  cases found with
  | none => exact .andThen .skipBlanks fun _ => .refuse _
  | some written => exact .pure _

theorem passes_separator : Passes 0 (ValueChange.scanSeparator : Scan Text Unit) :=
  .andThen .skipBlanks fun _ => .ite (fun _ => .refuse _) fun _ => .pure _

theorem passes_kind (lower upper : Char) :
    Passes 0 (ValueChange.scanKind lower upper : Scan Text Unit) := by
  refine .andThen .skipBlanks fun _ => .andThen .peek fun found => ?_
  exact .ite (fun _ => .andThen .next fun _ => .pure _) fun _ => .refuse _

theorem passes_bitHere : Passes 0 (ValueChange.scanBitHere : Scan Text Char) := by
  refine .andThen .peek fun found => ?_
  cases found with
  | none => exact .refuseEnd _
  | some c => exact .ite (fun _ => .andThen .next fun _ => .pure _) fun _ => .refuse _

theorem passes_coded (change : Text → ValueChange) :
    Passes 1 (Word.scanCode >>= fun code => pure (change code) : Scan Text ValueChange) :=
  passes_code.bind fun _ => .pure _

theorem passes_scalar : Passes 1 (ValueChange.scanScalar : Scan Text ValueChange) := by
  refine .phrase _ (.andThen .skipBlanks fun _ => .andThen passes_bitHere fun value => ?_)
  exact .andThen .peek fun _ => .ite (fun _ => .refuse _) fun _ => passes_coded _

theorem passes_vector : Passes 1 (ValueChange.scanVector : Scan Text ValueChange) := by
  refine .phrase _ (.andThen (passes_kind _ _) fun _ => .andThen (.span _) fun bits => ?_)
  exact .ite (fun _ => .refuse _) fun _ => .andThen passes_separator fun _ => passes_coded _

theorem passes_real : Passes 1 (ValueChange.scanReal : Scan Text ValueChange) := by
  refine .phrase _ (.andThen (passes_kind _ _) fun _ => .andThen .mark fun start => ?_)
  refine .andThen (.span _) fun text => ?_
  cases Binary64.read? text with
  | none => exact .refuseFrom _ _
  | some value => exact .andThen passes_separator fun _ => passes_coded _

theorem passes_change : Passes 1 (ValueChange.scan : Scan Text ValueChange) := by
  have scalar : Restores (ValueChange.scanScalar : Scan Text ValueChange) := restores_phrase _ _
  have vector : Restores (ValueChange.scanVector : Scan Text ValueChange) := restores_phrase _ _
  exact .phrase _ (.otherwise (scalar.otherwise vector)
    (.otherwise scalar passes_scalar passes_vector) passes_real)

theorem passes_declaration : Passes 1 (Command.scanDeclaration : Scan Text Text) :=
  .phrase _ (.andThen (passes_keyword _ _) fun _ => passes_toEnd.bind fun _ => .pure _)

theorem passes_time : Passes 1 (Command.scanTime : Scan Text Text) := by
  refine .phrase _ (.andThen .skipBlanks fun _ => passes_expected (fun _ => .refuse _) ?_)
  exact .andThen (.span _) fun digits => .ite (fun _ => .refuse _) fun _ => .pure _

theorem passes_values : Passes 1 (Command.scanValues : Scan Text Text) := by
  refine .phrase _ (.andThen (passes_keyword _ _) fun keyword => ?_)
  refine .andThen (.collectAll (passes_of_optionally passes_change)) fun changes => ?_
  exact (passes_tag _).bind fun _ => .pure _

theorem passes_comment : Passes 1 (Command.scanComment : Scan Text Text) :=
  .phrase _ (.andThen ((passes_tag _).mono (Nat.zero_le _)) fun _ =>
    passes_toEnd.bind fun _ => .pure _)

theorem passes_simulation : Passes 1 (Command.scanSimulation : Scan Text Text) := by
  have change : Restores (ValueChange.render <$> ValueChange.scan : Scan Text Text) :=
    (restores_phrase _ _).map _
  have time : Restores (Command.scanTime : Scan Text Text) := restores_phrase _ _
  have values : Restores (Command.scanValues : Scan Text Text) := restores_phrase _ _
  refine .phrase _ (.otherwise ((change.otherwise time).otherwise values) ?_ passes_comment)
  refine .otherwise (change.otherwise time) ?_ passes_values
  exact .otherwise change (passes_change.map _) passes_time

end NetTrace.Vcd
