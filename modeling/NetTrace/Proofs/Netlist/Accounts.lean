import NetTrace.Netlist.Phrase
import NetTrace.Proofs.Scan.Account

namespace NetTrace.Netlist

open Scan Account

variable {σ μ : Type} [Input σ μ] {account : Account σ} {start : σ} (lawful : account.Lawful)

include lawful

theorem covers_simple : account.Covers start Name.simple := by
  refine covers_phrase lawful _ fun start => .bind (covers_skipBlanks lawful) fun _ => ?_
  refine .bind (covers_peek lawful) fun found => ?_
  cases found with
  | none => exact covers_refuseEnd lawful _
  | some c => exact .ite (covers_span lawful _) (covers_refuse lawful fun _ => rfl)

theorem covers_escaped : account.Covers start Name.escaped := by
  refine covers_phrase lawful _ fun start => .bind (covers_skipBlanks lawful) fun _ => ?_
  refine covers_mark fun place marked => .bind (covers_peek lawful) fun found => .ite ?_ ?_
  · refine .bind (covers_span lawful _) fun written => .bind (covers_next lawful) fun last => ?_
    cases last with
    | none => exact covers_refuseFrom lawful marked fun _ => rfl
    | some terminator => exact .pure _
  · exact covers_refuse lawful fun _ => rfl

theorem covers_name : account.Covers start Name.scan :=
  covers_phrase lawful _ fun _ => .bind (covers_facing lawful _) fun _ =>
    .ite (covers_escaped lawful) (covers_simple lawful)

theorem covers_digits : account.Covers start Literal.scanDigits := by
  refine covers_phrase lawful _ fun start => .bind (covers_skipBlanks lawful) fun _ => ?_
  refine .bind (covers_span lawful _) fun digits => .ite ?_ (.pure _)
  refine .bind (covers_peek lawful) fun found => ?_
  cases found with
  | none => exact covers_refuseEnd lawful _
  | some c => exact covers_refuse lawful fun _ => rfl

theorem covers_sized (radix : Radix) : account.Covers start (Literal.scanSized radix) := by
  refine covers_phrase lawful _ fun start => covers_mark fun place marked => ?_
  refine .bind (covers_digits lawful) fun width => .bind (covers_symbol lawful _) fun _ => ?_
  refine .bind (covers_peek lawful) fun found => .ite ?_ (covers_refuse lawful fun _ => rfl)
  refine .bind (covers_next lawful) fun _ => .bind (covers_span lawful _) fun digits => ?_
  exact .ite (covers_refuseFrom lawful marked fun _ => rfl) (.pure _)

theorem covers_string : account.Covers start Literal.scanString := by
  refine covers_phrase lawful _ fun start => .bind (covers_skipBlanks lawful) fun _ => ?_
  refine covers_mark fun place marked => .bind (covers_peek lawful) fun found => .ite ?_ ?_
  · refine .bind (covers_next lawful) fun _ => .bind (covers_span lawful _) fun text => ?_
    refine .bind (covers_next lawful) fun last => ?_
    cases last with
    | none => exact covers_refuseFrom lawful marked fun _ => rfl
    | some quote => exact .pure _
  · exact covers_refuse lawful fun _ => rfl

theorem covers_number : account.Covers start Literal.scanNumber := by
  refine covers_mark fun place marked => .bind (covers_digits lawful) fun digits => ?_
  refine .bind (covers_facing lawful _) fun ticked => .ite ?_ (.pure _)
  refine covers_mark fun tick marked' => .bind (covers_next lawful) fun _ => ?_
  refine .bind (covers_peek lawful) fun marker => ?_
  cases marker.bind Radix.ofMarker? with
  | none => exact covers_refuseFrom lawful marked' fun _ => rfl
  | some radix => exact .bind (covers_rewind lawful marked) fun _ => covers_sized lawful radix

theorem covers_literal : account.Covers start Literal.scan := by
  refine covers_phrase lawful _ fun start => .bind (covers_skipBlanks lawful) fun _ => ?_
  refine .bind (covers_peek lawful) fun found => ?_
  cases found with
  | none => exact covers_refuseEnd lawful _
  | some c =>
    refine .ite (covers_string lawful) (.ite (covers_number lawful) ?_)
    exact covers_refuse lawful fun _ => rfl

theorem covers_bound {place : σ} (marked : account.Reaches start place) :
    account.Covers start (Bounds.scanBound (Input.mark place)) := by
  refine .outcome (covers_digits lawful) (fun digits => ?_) fun _ _ => ?_
  · dsimp only
    cases Numeral.word32? 10 digits with
    | none => exact covers_refuseFrom lawful marked fun _ => rfl
    | some value => exact .pure _
  · exact covers_refuseFrom lawful marked fun _ => rfl

theorem covers_bracket {place : σ} (marked : account.Reaches start place) (c : Char)
    (reason : String) : account.Covers start (Bounds.scanBracket (Input.mark place) c reason) :=
  .outcome (covers_symbol lawful c) (fun _ => .pure _) fun _ _ =>
    covers_refuseFrom lawful marked fun _ => rfl

theorem covers_bounds : account.Covers start Bounds.scan := by
  refine covers_phrase lawful _ fun start => .bind (covers_skipBlanks lawful) fun _ => ?_
  refine covers_mark fun place marked => .bind (covers_bracket lawful marked _ _) fun _ => ?_
  refine .bind (covers_bound lawful marked) fun first => ?_
  refine .bind (covers_facing lawful _) fun colon => .ite ?_ ?_
  · refine .bind (covers_next lawful) fun _ => .bind (covers_bound lawful marked) fun second => ?_
    exact .bind (covers_bracket lawful marked _ _) fun _ => .pure _
  · exact .bind (.pure _) fun _ => .bind (covers_bracket lawful marked _ _) fun _ => .pure _

theorem covers_selection : account.Covers start Selection.scan :=
  .bind (covers_name lawful) fun _ =>
    .bind (covers_optionally lawful (covers_bounds lawful)) fun _ => .pure _

theorem covers_closeFrom (opening closing : Char) (depth missing : Nat) :
    account.Covers start (Enclosed.closeFrom opening closing depth missing) := by
  induction missing with
  | zero => exact .pure _
  | succ missing ih =>
    refine .bind (covers_skipBlanks lawful) fun _ => .bind (covers_peek lawful) fun found => ?_
    exact .ite (.bind (covers_next lawful) fun _ => ih) (covers_refuse lawful fun _ => rfl)

theorem covers_open? (opening : Char) : account.Covers start (Enclosed.open? opening) := by
  refine .bind (covers_peek lawful) fun found => .ite ?_ (.pure _)
  exact .bind (covers_next lawful) fun _ => .bind (covers_skipBlanks lawful) fun _ => .pure _

/-- The failure of the first attempt is told of the same place as that of the second would be. -/
theorem covers_enclosed {α : Type} (opening closing : Char) {content : Scan σ α}
    (covers : ∀ place, account.Covers place content) :
    account.Covers start (Enclosed.scan opening closing content) := by
  refine covers_phrase lawful _ fun start => .bind (covers_skipBlanks lawful) fun _ => ?_
  refine covers_mark fun first marked => ?_
  refine .bind (covers_collectAll (covers_open? lawful opening)) fun found => .ite ?_ ?_
  · exact .bind (covers_peek lawful) fun _ => covers_refuse lawful fun _ => rfl
  · refine .bind (covers start) fun value => ?_
    refine .outcome (covers_rewinding lawful (covers_closeFrom lawful _ _ _ _)) (fun _ => .pure _)
      fun failure told => .ite (.throw told) ?_
    refine .bind (covers_rewind lawful marked) fun _ => .bind (covers_next lawful) fun _ => ?_
    refine .outcome (covers_rewinding lawful ?_) (fun _ => .pure _) fun _ _ => .throw told
    exact .bind (covers start) fun _ => .bind (covers_closeFrom lawful _ _ _ _) fun _ => .pure _

theorem covers_operandUpTo (limit : Nat) : account.Covers start (Operand.scanUpTo limit) := by
  induction limit generalizing start with
  | zero => exact covers_refuseEnd lawful _
  | succ limit ih =>
    refine covers_phrase lawful _ fun start => .bind (covers_skipBlanks lawful) fun _ => ?_
    refine .bind (covers_peek lawful) fun found => ?_
    cases found with
    | none => exact covers_refuseEnd lawful _
    | some c =>
      refine .ite (.map _ ?_) (.ite (.map _ (covers_literal lawful)) (.map _ (covers_selection lawful)))
      refine covers_phrase lawful _ fun start => .bind (covers_symbol lawful _) fun _ => ?_
      refine .bind (covers_phrase lawful _ fun _ => covers_commaListUpTo lawful _ ih) fun _ => ?_
      exact .bind (covers_closeFrom lawful _ _ _ _) fun _ => .pure _

theorem covers_operand : account.Covers start Operand.scan :=
  covers_remaining fun _ => covers_operandUpTo lawful _

theorem covers_association {α : Type} {value : Scan σ α}
    (covers : ∀ place, account.Covers place value) :
    account.Covers start (Association.scan value) := by
  refine .bind (covers_facing lawful _) fun _ => .ite ?_ (.bind (covers start) fun _ => .pure _)
  refine .bind (covers_next lawful) fun _ => .bind (covers_name lawful) fun pin => ?_
  exact .bind (covers_enclosed lawful _ _ covers) fun _ => .pure _

theorem covers_setting : account.Covers start Setting.scan := by
  refine covers_phrase lawful _ fun start => .bind (covers_skipBlanks lawful) fun _ => ?_
  refine .bind (covers_peek lawful) fun found => ?_
  cases found with
  | none => exact covers_refuseEnd lawful _
  | some c => exact .ite (.map _ (covers_literal lawful)) (.map _ (covers_name lawful))

theorem covers_connection : account.Covers start Association.scanConnection :=
  covers_phrase lawful _ fun _ => covers_association lawful fun _ => covers_operand lawful

theorem covers_parameter : account.Covers start Association.scanParameter :=
  covers_phrase lawful _ fun _ => covers_association lawful fun _ => covers_setting lawful

theorem covers_parameters : account.Covers start Association.scanParameters :=
  covers_phrase lawful _ fun _ => covers_commaList lawful (covers_parameter lawful)

theorem covers_block : account.Covers start ParameterBlock.scan :=
  covers_phrase lawful _ fun _ => .bind (covers_symbol lawful _) fun _ =>
    covers_enclosed lawful _ _ fun _ => covers_parameters lawful

theorem covers_netlist (phrase : Phrase) : account.Covers start phrase.read := by
  cases phrase with
  | identifier => exact .map _ (covers_name lawful)
  | simpleIdentifier => exact .map _ (covers_simple lawful)
  | escapedIdentifier => exact .map _ (covers_escaped lawful)
  | identifierList =>
    exact .map _ (covers_phrase lawful _ fun _ => covers_commaList lawful (covers_name lawful))
  | immediate => exact .map _ (covers_literal lawful)
  | unbasedImmediate => exact .map _ (covers_digits lawful)
  | basedImmediate radix => exact .map _ (covers_sized lawful radix)
  | stringLiteral => exact .map _ (covers_string lawful)
  | bitRange => exact .map _ (covers_bounds lawful)
  | connectedElement => exact .map _ (covers_operand lawful)
  | connectedElementList =>
    exact .map _ (covers_phrase lawful _ fun _ => covers_commaList lawful (covers_operand lawful))
  | connection => exact .map _ (covers_connection lawful)
  | connectionList =>
    exact .map _ (covers_phrase lawful _ fun _ => covers_commaList lawful (covers_connection lawful))
  | parameterConnectedElement => exact .map _ (covers_setting lawful)
  | parameterConnection => exact .map _ (covers_parameter lawful)
  | parameterList => exact .map _ (covers_parameters lawful)
  | moduleParameters => exact .map _ (covers_block lawful)

end NetTrace.Netlist
