import NetTrace.Proofs.Netlist.Follows
import NetTrace.Proofs.Vcd.OnText

namespace NetTrace.Vcd

open Scan View

variable {σ μ : Type} [Input σ μ] {view : View σ μ} {marks : List (μ × Text)}
  (faithful : view.Faithful)

include faithful

theorem follows_characters (word : Text) :
    view.Follows marks (Word.scanCharacters word) (Word.scanCharacters word) := by
  induction word with
  | nil => exact .pure _
  | cons c others ih =>
    exact .bind (follows_next faithful) fun _ => .ite (fun _ => ih) fun _ => .pure _

theorem follows_text (word : Text) :
    view.Follows marks (Word.scanText word) (Word.scanText word) := by
  apply follows_phrase faithful
  apply Follows.bind (follows_skipBlanks faithful)
  intro _
  apply follows_mark faithful
  intro start place
  apply Follows.bind (follows_characters faithful word)
  intro _
  refine .ite (fun _ => .pure _) fun _ => ?_
  exact follows_refuseFrom faithful (List.mem_cons_self ..) fun _ _ => rfl

theorem follows_exactly (word : Text) :
    view.Follows marks (Word.scanExactly word) (Word.scanExactly word) := by
  apply follows_rewinding faithful
  apply follows_mark faithful
  intro start place
  apply Follows.bind (follows_text faithful word)
  intro _
  apply Follows.bind (follows_peek faithful)
  intro found
  cases found with
  | none => exact .pure _
  | some c =>
    refine .ite (fun _ => .pure _) fun _ => ?_
    exact follows_refuseFrom faithful (List.mem_cons_self ..) fun _ _ => rfl

theorem follows_tag (name : Text) : view.Follows marks (Word.scanTag name) (Word.scanTag name) :=
  follows_phrase faithful _ (follows_exactly faithful _)

theorem follows_anyTag : view.Follows marks Word.scanAnyTag Word.scanAnyTag := by
  apply follows_phrase faithful
  apply Follows.bind (follows_skipBlanks faithful)
  intro _
  apply Follows.bind (follows_peek faithful)
  intro found
  refine .ite (fun _ => ?_) fun _ => follows_refuse faithful fun _ _ => rfl
  apply Follows.bind (follows_next faithful)
  intro _
  apply Follows.bind (follows_span faithful _)
  intro name
  exact .ite (fun _ => follows_refuse faithful fun _ _ => rfl) fun _ => .pure _

theorem follows_word : view.Follows marks Word.scan Word.scan := by
  apply follows_phrase faithful
  apply Follows.bind (follows_skipBlanks faithful)
  intro _
  apply Follows.bind (follows_span faithful _)
  intro _
  exact .ite (fun _ => .refuseEnd _) fun _ => .pure _

theorem follows_code : view.Follows marks Word.scanCode Word.scanCode :=
  follows_phrase faithful _ (follows_word faithful)

theorem follows_toEndUpTo (limit : Nat) :
    view.Follows marks (Word.scanToEndUpTo limit) (Word.scanToEndUpTo limit) := by
  induction limit with
  | zero => exact .pure _
  | succ limit ih =>
    apply Follows.bind (follows_word faithful)
    intro _
    refine .ite (fun _ => .pure _) fun _ => ?_
    exact .bind ih fun _ => .pure _

theorem follows_toEnd : view.Follows marks Word.scanToEnd Word.scanToEnd := by
  apply follows_phrase faithful
  apply follows_remaining faithful
  · intro text limit limit' above above'
    simp only [Bind.bind, EStateM.bind]
    rw [toEndUpTo_congr (show text.length < limit + 1 by omega) (show _ < limit' + 1 by omega)]
  · exact fun limit => .bind (follows_toEndUpTo faithful _) fun _ => .pure _

theorem follows_firstOf (keywords : List Text) :
    view.Follows marks (Word.scanFirstOf keywords) (Word.scanFirstOf keywords) := by
  induction keywords with
  | nil => exact .pure _
  | cons keyword others ih =>
    apply Follows.bind (follows_optionally faithful (follows_exactly faithful keyword))
    intro found
    cases found with
    | none => exact ih
    | some written => exact .pure _

theorem follows_keyword (name : String) (keywords : List Text) :
    view.Follows marks (Word.scanKeyword name keywords) (Word.scanKeyword name keywords) := by
  apply follows_phrase faithful
  apply Follows.bind (follows_firstOf faithful keywords)
  intro found
  cases found with
  | none =>
    apply Follows.bind (follows_skipBlanks faithful)
    intro _
    exact follows_refuse faithful fun _ _ => rfl
  | some written => exact .pure _

theorem follows_bitHere :
    view.Follows marks ValueChange.scanBitHere ValueChange.scanBitHere := by
  apply Follows.bind (follows_peek faithful)
  intro found
  cases found with
  | none => exact .refuseEnd _
  | some c =>
    refine .ite (fun _ => ?_) fun _ => follows_refuse faithful fun _ _ => rfl
    exact .bind (follows_next faithful) fun _ => .pure _

theorem follows_bit : view.Follows marks ValueChange.scanBit ValueChange.scanBit :=
  follows_phrase faithful _ (.bind (follows_skipBlanks faithful) fun _ => follows_bitHere faithful)

theorem follows_kind (lower upper : Char) :
    view.Follows marks (ValueChange.scanKind lower upper) (ValueChange.scanKind lower upper) := by
  apply Follows.bind (follows_skipBlanks faithful)
  intro _
  apply Follows.bind (follows_peek faithful)
  intro found
  refine .ite (fun _ => ?_) fun _ => follows_refuse faithful fun _ _ => rfl
  exact .bind (follows_next faithful) fun _ => .pure _

theorem follows_separator :
    view.Follows marks ValueChange.scanSeparator ValueChange.scanSeparator := by
  apply Follows.bind (follows_skipBlanks faithful)
  intro _
  refine .ite (fun _ => ?_) fun _ => .pure _
  exact follows_refuse faithful fun _ _ => rfl

theorem follows_scalar : view.Follows marks ValueChange.scanScalar ValueChange.scanScalar := by
  apply follows_phrase faithful
  apply Follows.bind (follows_skipBlanks faithful)
  intro _
  apply Follows.bind (follows_bitHere faithful)
  intro _
  apply Follows.bind (follows_peek faithful)
  intro _
  refine .ite (fun _ => ?_) fun _ => ?_
  · exact follows_refuse faithful fun _ _ => rfl
  · exact .bind (follows_code faithful) fun _ => .pure _

theorem follows_vector : view.Follows marks ValueChange.scanVector ValueChange.scanVector := by
  apply follows_phrase faithful
  apply Follows.bind (follows_kind faithful _ _)
  intro _
  apply Follows.bind (follows_span faithful _)
  intro bits
  refine .ite (fun _ => follows_refuse faithful fun _ _ => rfl) fun _ => ?_
  apply Follows.bind (follows_separator faithful)
  intro _
  exact .bind (follows_code faithful) fun _ => .pure _

theorem follows_real : view.Follows marks ValueChange.scanReal ValueChange.scanReal := by
  apply follows_phrase faithful
  apply Follows.bind (follows_kind faithful _ _)
  intro _
  apply follows_mark faithful
  intro start place
  apply Follows.bind (follows_span faithful _)
  intro text
  cases Binary64.read? text with
  | none => exact follows_refuseFrom faithful (List.mem_cons_self ..) fun _ _ => rfl
  | some value =>
    apply Follows.bind (follows_separator faithful)
    intro _
    exact .bind (follows_code faithful) fun _ => .pure _

theorem follows_change : view.Follows marks ValueChange.scan ValueChange.scan :=
  follows_phrase faithful _ (.otherwise
    (.otherwise (follows_scalar faithful) (follows_vector faithful)) (follows_real faithful))

theorem follows_declaration :
    view.Follows marks Command.scanDeclaration Command.scanDeclaration := by
  apply follows_phrase faithful
  exact .bind (follows_keyword faithful _ _) fun _ => .bind (follows_toEnd faithful) fun _ => .pure _

theorem follows_time : view.Follows marks Command.scanTime Command.scanTime := by
  apply follows_phrase faithful
  apply Follows.bind (follows_skipBlanks faithful)
  intro _
  apply Follows.bind (follows_peek faithful)
  intro found
  refine .ite (fun _ => ?_) fun _ => follows_refuse faithful fun _ _ => rfl
  apply Follows.bind (follows_next faithful)
  intro _
  apply Follows.bind (follows_span faithful _)
  intro digits
  exact .ite (fun _ => follows_refuse faithful fun _ _ => rfl) fun _ => .pure _

theorem follows_values : view.Follows marks Command.scanValues Command.scanValues := by
  have changes : view.Follows marks (collectAll (optionally ValueChange.scan))
      (collectAll (optionally ValueChange.scan)) :=
    follows_collectAll faithful (follows_optionally faithful (follows_change faithful))
      (advances_optionally passes_change)
  apply follows_phrase faithful
  apply Follows.bind (follows_keyword faithful _ _)
  intro _
  apply Follows.bind changes
  intro _
  exact .bind (follows_tag faithful _) fun _ => .pure _

theorem follows_comment : view.Follows marks Command.scanComment Command.scanComment := by
  apply follows_phrase faithful
  exact .bind (follows_tag faithful _) fun _ => .bind (follows_toEnd faithful) fun _ => .pure _

theorem follows_simulation :
    view.Follows marks Command.scanSimulation Command.scanSimulation :=
  follows_phrase faithful _ (.otherwise (.otherwise (.otherwise
    (.map _ (follows_change faithful)) (follows_time faithful)) (follows_values faithful))
    (follows_comment faithful))

theorem follows_all : view.Follows marks Command.scanAll Command.scanAll := by
  have declarations : view.Follows marks (collectAll (optionally Command.scanDeclaration))
      (collectAll (optionally Command.scanDeclaration)) :=
    follows_collectAll faithful (follows_optionally faithful (follows_declaration faithful))
      (advances_optionally passes_declaration)
  have commands : view.Follows marks (collectAll (optionally Command.scanSimulation))
      (collectAll (optionally Command.scanSimulation)) :=
    follows_collectAll faithful (follows_optionally faithful (follows_simulation faithful))
      (advances_optionally passes_simulation)
  exact follows_phrase faithful _ (.bind declarations fun _ => .bind commands fun _ => .pure _)

theorem follows_width : view.Follows marks Variable.scanWidth Variable.scanWidth := by
  apply Follows.bind (Netlist.follows_digits faithful)
  intro digits
  cases Numeral.word64? 10 digits with
  | none => exact .throw rfl
  | some value => exact .pure _

theorem follows_wire : view.Follows marks Variable.scanWire Variable.scanWire := by
  apply follows_phrase faithful
  apply Follows.bind (follows_tag faithful _)
  intro _
  apply Follows.bind (follows_exactly faithful _)
  intro _
  apply Follows.bind (follows_width faithful)
  intro _
  apply Follows.bind (follows_code faithful)
  intro _
  apply Follows.bind (Netlist.follows_name faithful)
  intro _
  exact .bind (follows_tag faithful _) fun _ => .pure _

theorem follows_vcd (phrase : Phrase) : view.Follows marks phrase.read phrase.read := by
  cases phrase with
  | exactString text => exact follows_text faithful text
  | tag name => exact follows_tag faithful name
  | anyTag => exact follows_anyTag faithful
  | nonWhitespace => exact follows_word faithful
  | identifierCode => exact follows_code faithful
  | textToEnd => exact follows_toEnd faithful
  | declarationKeyword => exact follows_keyword faithful _ _
  | declarationCommand => exact follows_declaration faithful
  | simulationKeyword => exact follows_keyword faithful _ _
  | simulationTime => exact follows_time faithful
  | value => exact .map _ (follows_bit faithful)
  | scalarValueChange => exact .map _ (follows_scalar faithful)
  | binaryVectorValueChange => exact .map _ (follows_vector faithful)
  | realVectorValueChange => exact .map _ (follows_real faithful)
  | valueChange => exact .map _ (follows_change faithful)
  | simulationValueCommand => exact follows_values faithful
  | comment => exact follows_comment faithful
  | simulationCommand => exact follows_simulation faithful
  | vcdDefinitions => exact follows_all faithful
  | var => exact .map _ (follows_wire faithful)

end NetTrace.Vcd
