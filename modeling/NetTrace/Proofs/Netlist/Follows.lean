import NetTrace.Proofs.Netlist.Operands

namespace NetTrace.Netlist

open Scan View

variable {σ μ : Type} [Input σ μ] {view : View σ μ} {marks : List (μ × Text)}
  (faithful : view.Faithful)

include faithful

theorem follows_simple : view.Follows marks Name.simple Name.simple := by
  apply follows_phrase faithful
  apply Follows.bind (follows_skipBlanks faithful)
  intro _
  apply Follows.bind (follows_peek faithful)
  intro found
  cases found with
  | none => exact .refuseEnd _
  | some c =>
    refine .ite (fun _ => follows_span faithful _) fun _ => ?_
    exact follows_refuse faithful fun _ _ => rfl

theorem follows_escaped : view.Follows marks Name.escaped Name.escaped := by
  apply follows_phrase faithful
  apply Follows.bind (follows_skipBlanks faithful)
  intro _
  apply follows_mark faithful
  intro start place
  apply Follows.bind (follows_peek faithful)
  intro found
  refine .ite (fun _ => ?_) fun _ => ?_
  · apply Follows.bind (follows_span faithful _)
    intro written
    apply Follows.bind (follows_next faithful)
    intro last
    cases last with
    | none => exact follows_refuseFrom faithful (List.mem_cons_self ..) fun _ _ => rfl
    | some terminator => exact .pure _
  · exact follows_refuse faithful fun _ _ => rfl

theorem follows_name : view.Follows marks Name.scan Name.scan := by
  apply follows_phrase faithful
  apply Follows.bind (follows_facing faithful _)
  intro _
  exact .ite (fun _ => follows_escaped faithful) fun _ => follows_simple faithful

theorem follows_digits : view.Follows marks Literal.scanDigits Literal.scanDigits := by
  apply follows_phrase faithful
  apply Follows.bind (follows_skipBlanks faithful)
  intro _
  apply Follows.bind (follows_span faithful _)
  intro digits
  refine .ite (fun _ => ?_) fun _ => .pure _
  apply Follows.bind (follows_peek faithful)
  intro found
  cases found with
  | none => exact .refuseEnd _
  | some c => exact follows_refuse faithful fun _ _ => rfl

theorem follows_sized (radix : Radix) :
    view.Follows marks (Literal.scanSized radix) (Literal.scanSized radix) := by
  apply follows_phrase faithful
  apply follows_mark faithful
  intro start place
  apply Follows.bind (follows_digits faithful)
  intro width
  apply Follows.bind (follows_symbol faithful _)
  intro _
  apply Follows.bind (follows_peek faithful)
  intro found
  refine .ite (fun _ => ?_) fun _ => ?_
  · apply Follows.bind (follows_next faithful)
    intro _
    apply Follows.bind (follows_span faithful _)
    intro digits
    refine .ite (fun _ => ?_) fun _ => .pure _
    exact follows_refuseFrom faithful (List.mem_cons_self ..) fun _ _ => rfl
  · exact follows_refuse faithful fun _ _ => rfl

theorem follows_string : view.Follows marks Literal.scanString Literal.scanString := by
  apply follows_phrase faithful
  apply Follows.bind (follows_skipBlanks faithful)
  intro _
  apply follows_mark faithful
  intro start place
  apply Follows.bind (follows_peek faithful)
  intro found
  refine .ite (fun _ => ?_) fun _ => ?_
  · apply Follows.bind (follows_next faithful)
    intro _
    apply Follows.bind (follows_span faithful _)
    intro text
    apply Follows.bind (follows_next faithful)
    intro last
    cases last with
    | none => exact follows_refuseFrom faithful (List.mem_cons_self ..) fun _ _ => rfl
    | some quote => exact .pure _
  · exact follows_refuse faithful fun _ _ => rfl

theorem follows_number : view.Follows marks Literal.scanNumber Literal.scanNumber := by
  apply follows_mark faithful
  intro start place
  apply Follows.bind (follows_digits faithful)
  intro digits
  apply Follows.bind (follows_facing faithful _)
  intro _
  refine .ite (fun _ => ?_) fun _ => .pure _
  apply follows_mark faithful
  intro tick place'
  apply Follows.bind (follows_next faithful)
  intro _
  apply Follows.bind (follows_peek faithful)
  intro marker
  cases marker.bind Radix.ofMarker? with
  | none => exact follows_refuseFrom faithful (List.mem_cons_self ..) fun _ _ => rfl
  | some radix =>
    have member : (start, place) ∈ (tick, place') :: (start, place) :: marks := by simp
    apply Follows.bind (follows_rewind faithful member)
    intro _
    exact follows_sized faithful radix

theorem follows_literal : view.Follows marks Literal.scan Literal.scan := by
  apply follows_phrase faithful
  apply Follows.bind (follows_skipBlanks faithful)
  intro _
  apply Follows.bind (follows_peek faithful)
  intro found
  cases found with
  | none => exact .refuseEnd _
  | some c =>
    refine .ite (fun _ => follows_string faithful) fun _ => ?_
    refine .ite (fun _ => follows_number faithful) fun _ => ?_
    exact follows_refuse faithful fun _ _ => rfl

theorem follows_bound {start : μ} {place : Text} (member : (start, place) ∈ marks) :
    view.Follows marks (Bounds.scanBound start) (Bounds.scanBound place) := by
  refine .outcome (follows_digits faithful) (fun digits => ?_) fun _ _ _ => ?_
  · dsimp only
    cases Numeral.word32? 10 digits with
    | none => exact follows_refuseFrom faithful member fun _ _ => rfl
    | some value => exact .pure _
  · exact follows_refuseFrom faithful member fun _ _ => rfl

theorem follows_bracket {start : μ} {place : Text} (member : (start, place) ∈ marks) (c : Char)
    (reason : String) :
    view.Follows marks (Bounds.scanBracket start c reason) (Bounds.scanBracket place c reason) := by
  refine .outcome (follows_symbol faithful c) (fun _ => .pure _) fun _ _ _ => ?_
  exact follows_refuseFrom faithful member fun _ _ => rfl

theorem follows_bounds : view.Follows marks Bounds.scan Bounds.scan := by
  apply follows_phrase faithful
  apply Follows.bind (follows_skipBlanks faithful)
  intro _
  apply follows_mark faithful
  intro start place
  have member : (start, place) ∈ (start, place) :: marks := List.mem_cons_self ..
  apply Follows.bind (follows_bracket faithful member _ _)
  intro _
  apply Follows.bind (follows_bound faithful member)
  intro first
  apply Follows.bind (follows_facing faithful _)
  intro colon
  refine .ite (fun _ => ?_) fun _ => ?_
  · apply Follows.bind (follows_next faithful)
    intro _
    apply Follows.bind (follows_bound faithful member)
    intro second
    exact .bind (follows_bracket faithful member _ _) fun _ => .pure _
  · refine .bind (.pure _) fun second => ?_
    exact .bind (follows_bracket faithful member _ _) fun _ => .pure _

theorem follows_selection : view.Follows marks Selection.scan Selection.scan :=
  .bind (follows_name faithful) fun _ =>
    .bind (follows_optionally faithful (follows_bounds faithful)) fun _ => .pure _

theorem follows_closeFrom (opening closing : Char) (depth missing : Nat) :
    view.Follows marks (Enclosed.closeFrom opening closing depth missing)
      (Enclosed.closeFrom opening closing depth missing) := by
  induction missing with
  | zero => exact .pure _
  | succ missing ih =>
    apply Follows.bind (follows_skipBlanks faithful)
    intro _
    apply Follows.bind (follows_peek faithful)
    intro found
    refine .ite (fun _ => .bind (follows_next faithful) fun _ => ih) fun _ => ?_
    exact follows_refuse faithful fun _ _ => rfl

theorem follows_open? (opening : Char) :
    view.Follows marks (Enclosed.open? opening) (Enclosed.open? opening) := by
  apply Follows.bind (follows_peek faithful)
  intro found
  refine .ite (fun _ => ?_) fun _ => .pure _
  exact .bind (follows_next faithful) fun _ => .bind (follows_skipBlanks faithful) fun _ => .pure _

/-- The content is read with marks of its own, so it must follow whatever marks stand. -/
theorem follows_enclosed {α : Type} (opening closing : Char) {content : Scan σ α}
    {contentOnText : Scan Text α}
    (follows : ∀ marks, view.Follows marks content contentOnText) :
    view.Follows marks (Enclosed.scan opening closing content)
      (Enclosed.scan opening closing contentOnText) := by
  apply follows_phrase faithful
  apply Follows.bind (follows_skipBlanks faithful)
  intro _
  apply follows_mark faithful
  intro first place
  apply Follows.bind
    (follows_collectAll faithful (follows_open? faithful opening) advances_open?)
  intro found
  refine .ite (fun _ => ?_) fun _ => ?_
  · exact .bind (follows_peek faithful) fun _ => follows_refuse faithful fun _ _ => rfl
  · apply Follows.bind (follows _)
    intro value
    refine .outcome (follows_rewinding faithful (follows_closeFrom faithful _ _ _ _))
      (fun _ => .pure _) fun failure reason same => .ite (fun _ => .throw same) fun _ => ?_
    apply Follows.bind (follows_rewind faithful (List.mem_cons_self ..))
    intro _
    apply Follows.bind (follows_next faithful)
    intro _
    refine .outcome (follows_rewinding faithful ?_) (fun _ => .pure _) fun _ _ _ => .throw same
    exact .bind (follows _) fun _ => .bind (follows_closeFrom faithful _ _ _ _) fun _ => .pure _

theorem follows_operandUpTo (limit : Nat) :
    view.Follows marks (Operand.scanUpTo limit) (Operand.scanUpTo limit) := by
  -- By induction on the limit, under which the same items are read on both.
  induction limit generalizing marks with
  | zero => exact .refuseEnd _
  | succ limit ih =>
    apply follows_phrase faithful
    apply Follows.bind (follows_skipBlanks faithful)
    intro _
    apply Follows.bind (follows_peek faithful)
    intro found
    cases found with
    | none => exact .refuseEnd _
    | some c =>
      refine .ite (fun _ => .map _ ?_) fun _ => .ite (fun _ => ?_) fun _ => ?_
      · apply follows_phrase faithful
        apply Follows.bind (follows_symbol faithful _)
        intro _
        apply Follows.bind (follows_phrase faithful _ (follows_commaListUpTo faithful _ ih))
        intro _
        exact .bind (follows_closeFrom faithful _ _ _ _) fun _ => .pure _
      · exact .map _ (follows_literal faithful)
      · exact .map _ (follows_selection faithful)

theorem follows_operand : view.Follows marks Operand.scan Operand.scan := by
  apply follows_remaining faithful
  · intro text limit limit' above above'
    exact operandUpTo_congr (by omega) (by omega)
  · exact fun limit => follows_operandUpTo faithful _

theorem follows_association {α : Type} {value : Scan σ α} {valueOnText : Scan Text α}
    (follows : ∀ marks, view.Follows marks value valueOnText) :
    view.Follows marks (Association.scan value) (Association.scan valueOnText) := by
  apply Follows.bind (follows_facing faithful _)
  intro _
  refine .ite (fun _ => ?_) fun _ => ?_
  · apply Follows.bind (follows_next faithful)
    intro _
    apply Follows.bind (follows_name faithful)
    intro pin
    exact .bind (follows_enclosed faithful _ _ follows) fun _ => .pure _
  · exact .bind (follows _) fun _ => .pure _

theorem follows_setting : view.Follows marks Setting.scan Setting.scan := by
  apply follows_phrase faithful
  apply Follows.bind (follows_skipBlanks faithful)
  intro _
  apply Follows.bind (follows_peek faithful)
  intro found
  cases found with
  | none => exact .refuseEnd _
  | some c =>
    refine .ite (fun _ => .map _ (follows_literal faithful)) fun _ => ?_
    exact .map _ (follows_name faithful)

theorem follows_connection :
    view.Follows marks Association.scanConnection Association.scanConnection :=
  follows_phrase faithful _ (follows_association faithful fun _ => follows_operand faithful)

theorem follows_parameter :
    view.Follows marks Association.scanParameter Association.scanParameter :=
  follows_phrase faithful _ (follows_association faithful fun _ => follows_setting faithful)

theorem follows_parameters :
    view.Follows marks Association.scanParameters Association.scanParameters :=
  follows_phrase faithful _ (follows_commaList faithful (follows_parameter faithful)
    (reads_parameter.passes fun _ _ _ => Nat.zero_le _))

theorem follows_block : view.Follows marks ParameterBlock.scan ParameterBlock.scan :=
  follows_phrase faithful _ (.bind (follows_symbol faithful _) fun _ =>
    follows_enclosed faithful _ _ fun _ => follows_parameters faithful)

theorem follows_netlist (phrase : Phrase) : view.Follows marks phrase.read phrase.read := by
  have names : Passes 0 (Name.scan : Scan Text Text) := reads_name.passes fun _ _ _ => Nat.zero_le _
  cases phrase with
  | identifier => exact .map _ (follows_name faithful)
  | simpleIdentifier => exact .map _ (follows_simple faithful)
  | escapedIdentifier => exact .map _ (follows_escaped faithful)
  | identifierList =>
    exact .map _ (follows_phrase faithful _ (follows_commaList faithful (follows_name faithful) names))
  | immediate => exact .map _ (follows_literal faithful)
  | unbasedImmediate => exact .map _ (follows_digits faithful)
  | basedImmediate radix => exact .map _ (follows_sized faithful radix)
  | stringLiteral => exact .map _ (follows_string faithful)
  | bitRange => exact .map _ (follows_bounds faithful)
  | connectedElement => exact .map _ (follows_operand faithful)
  | connectedElementList =>
    exact .map _ (follows_phrase faithful _
      (follows_commaList faithful (follows_operand faithful) passes_operand))
  | connection => exact .map _ (follows_connection faithful)
  | connectionList =>
    exact .map _ (follows_phrase faithful _ (follows_commaList faithful
      (follows_connection faithful) (reads_connection.passes fun _ _ _ => Nat.zero_le _)))
  | parameterConnectedElement => exact .map _ (follows_setting faithful)
  | parameterConnection => exact .map _ (follows_parameter faithful)
  | parameterList => exact .map _ (follows_parameters faithful)
  | moduleParameters => exact .map _ (follows_block faithful)

end NetTrace.Netlist
