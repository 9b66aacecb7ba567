import NetTrace.Proofs.Netlist.Accounts
import NetTrace.Vcd.Phrase

namespace NetTrace.Vcd

open Scan Account

variable {σ μ : Type} [Input σ μ] {account : Account σ} {start : σ} (lawful : account.Lawful)

include lawful

theorem covers_characters (word : Text) : account.Covers start (Word.scanCharacters word) := by
  induction word with
  | nil => exact .pure _
  | cons c others ih => exact .bind (covers_next lawful) fun _ => .ite ih (.pure _)

theorem covers_text (word : Text) : account.Covers start (Word.scanText word) := by
  refine covers_phrase lawful _ fun start => .bind (covers_skipBlanks lawful) fun _ => ?_
  refine covers_mark fun place marked => .bind (covers_characters lawful word) fun _ => ?_
  exact .ite (.pure _) (covers_refuseFrom lawful marked fun _ => rfl)

theorem covers_exactly (word : Text) : account.Covers start (Word.scanExactly word) := by
  refine covers_rewinding lawful (covers_mark fun place marked => ?_)
  refine .bind (covers_text lawful word) fun _ => .bind (covers_peek lawful) fun found => ?_
  cases found with
  | none => exact .pure _
  | some c => exact .ite (.pure _) (covers_refuseFrom lawful marked fun _ => rfl)

theorem covers_tag (name : Text) : account.Covers start (Word.scanTag name) :=
  covers_phrase lawful _ fun _ => covers_exactly lawful _

theorem covers_anyTag : account.Covers start Word.scanAnyTag := by
  refine covers_phrase lawful _ fun start => .bind (covers_skipBlanks lawful) fun _ => ?_
  refine .bind (covers_peek lawful) fun found => .ite ?_ (covers_refuse lawful fun _ => rfl)
  refine .bind (covers_next lawful) fun _ => .bind (covers_span lawful _) fun name => ?_
  exact .ite (covers_refuse lawful fun _ => rfl) (.pure _)

theorem covers_word : account.Covers start Word.scan := by
  refine covers_phrase lawful _ fun start => .bind (covers_skipBlanks lawful) fun _ => ?_
  exact .bind (covers_span lawful _) fun _ => .ite (covers_refuseEnd lawful _) (.pure _)

theorem covers_code : account.Covers start Word.scanCode :=
  covers_phrase lawful _ fun _ => covers_word lawful

theorem covers_toEndUpTo (limit : Nat) : account.Covers start (Word.scanToEndUpTo limit) := by
  induction limit with
  | zero => exact .pure _
  | succ limit ih =>
    exact .bind (covers_word lawful) fun _ => .ite (.pure _) (.bind ih fun _ => .pure _)

theorem covers_toEnd : account.Covers start Word.scanToEnd :=
  covers_phrase lawful _ fun _ => covers_remaining fun _ =>
    .bind (covers_toEndUpTo lawful _) fun _ => .pure _

theorem covers_firstOf (keywords : List Text) :
    account.Covers start (Word.scanFirstOf keywords) := by
  induction keywords with
  | nil => exact .pure _
  | cons keyword others ih =>
    refine .bind (covers_optionally lawful (covers_exactly lawful keyword)) fun found => ?_
    cases found with
    | none => exact ih
    | some written => exact .pure _

theorem covers_keyword (name : String) (keywords : List Text) :
    account.Covers start (Word.scanKeyword name keywords) := by
  refine covers_phrase lawful _ fun start => .bind (covers_firstOf lawful keywords) fun found => ?_
  cases found with
  | none => exact .bind (covers_skipBlanks lawful) fun _ => covers_refuse lawful fun _ => rfl
  | some written => exact .pure _

theorem covers_bitHere : account.Covers start ValueChange.scanBitHere := by
  refine .bind (covers_peek lawful) fun found => ?_
  cases found with
  | none => exact covers_refuseEnd lawful _
  | some c =>
    exact .ite (.bind (covers_next lawful) fun _ => .pure _) (covers_refuse lawful fun _ => rfl)

theorem covers_bit : account.Covers start ValueChange.scanBit :=
  covers_phrase lawful _ fun _ => .bind (covers_skipBlanks lawful) fun _ => covers_bitHere lawful

theorem covers_kind (lower upper : Char) :
    account.Covers start (ValueChange.scanKind lower upper) := by
  refine .bind (covers_skipBlanks lawful) fun _ => .bind (covers_peek lawful) fun found => ?_
  exact .ite (.bind (covers_next lawful) fun _ => .pure _) (covers_refuse lawful fun _ => rfl)

theorem covers_separator : account.Covers start ValueChange.scanSeparator :=
  .bind (covers_skipBlanks lawful) fun _ => .ite (covers_refuse lawful fun _ => rfl) (.pure _)

theorem covers_scalar : account.Covers start ValueChange.scanScalar := by
  refine covers_phrase lawful _ fun start => .bind (covers_skipBlanks lawful) fun _ => ?_
  refine .bind (covers_bitHere lawful) fun _ => .bind (covers_peek lawful) fun _ => ?_
  exact .ite (covers_refuse lawful fun _ => rfl) (.bind (covers_code lawful) fun _ => .pure _)

theorem covers_vector : account.Covers start ValueChange.scanVector := by
  refine covers_phrase lawful _ fun start => .bind (covers_kind lawful _ _) fun _ => ?_
  refine .bind (covers_span lawful _) fun bits => .ite (covers_refuse lawful fun _ => rfl) ?_
  exact .bind (covers_separator lawful) fun _ => .bind (covers_code lawful) fun _ => .pure _

theorem covers_real : account.Covers start ValueChange.scanReal := by
  refine covers_phrase lawful _ fun start => .bind (covers_kind lawful _ _) fun _ => ?_
  refine covers_mark fun place marked => .bind (covers_span lawful _) fun text => ?_
  cases Binary64.read? text with
  | none => exact covers_refuseFrom lawful marked fun _ => rfl
  | some value =>
    exact .bind (covers_separator lawful) fun _ => .bind (covers_code lawful) fun _ => .pure _

theorem covers_change : account.Covers start ValueChange.scan :=
  covers_phrase lawful _ fun _ =>
    .otherwise (.otherwise (covers_scalar lawful) (covers_vector lawful)) (covers_real lawful)

theorem covers_declaration : account.Covers start Command.scanDeclaration :=
  covers_phrase lawful _ fun _ => .bind (covers_keyword lawful _ _) fun _ =>
    .bind (covers_toEnd lawful) fun _ => .pure _

theorem covers_time : account.Covers start Command.scanTime := by
  refine covers_phrase lawful _ fun start => .bind (covers_skipBlanks lawful) fun _ => ?_
  refine .bind (covers_peek lawful) fun found => .ite ?_ (covers_refuse lawful fun _ => rfl)
  refine .bind (covers_next lawful) fun _ => .bind (covers_span lawful _) fun digits => ?_
  exact .ite (covers_refuse lawful fun _ => rfl) (.pure _)

theorem covers_values : account.Covers start Command.scanValues := by
  refine covers_phrase lawful _ fun start => .bind (covers_keyword lawful _ _) fun _ => ?_
  refine .bind (covers_collectAll (covers_optionally lawful (covers_change lawful))) fun _ => ?_
  exact .bind (covers_tag lawful _) fun _ => .pure _

theorem covers_comment : account.Covers start Command.scanComment :=
  covers_phrase lawful _ fun _ => .bind (covers_tag lawful _) fun _ =>
    .bind (covers_toEnd lawful) fun _ => .pure _

theorem covers_simulation : account.Covers start Command.scanSimulation :=
  covers_phrase lawful _ fun _ => .otherwise (.otherwise (.otherwise
    (.map _ (covers_change lawful)) (covers_time lawful)) (covers_values lawful))
    (covers_comment lawful)

theorem covers_all : account.Covers start Command.scanAll :=
  covers_phrase lawful _ fun _ =>
    .bind (covers_collectAll (covers_optionally lawful (covers_declaration lawful))) fun _ =>
    .bind (covers_collectAll (covers_optionally lawful (covers_simulation lawful))) fun _ => .pure _

theorem covers_width : account.Covers start Variable.scanWidth := by
  refine .bind (Netlist.covers_digits lawful) fun digits => ?_
  cases Numeral.word64? 10 digits with
  | none => exact .throw (lawful.silent start rfl rfl)
  | some value => exact .pure _

theorem covers_wire : account.Covers start Variable.scanWire := by
  refine covers_phrase lawful _ fun start => .bind (covers_tag lawful _) fun _ => ?_
  refine .bind (covers_exactly lawful _) fun _ => .bind (covers_width lawful) fun _ => ?_
  refine .bind (covers_code lawful) fun _ => .bind (Netlist.covers_name lawful) fun _ => ?_
  exact .bind (covers_tag lawful _) fun _ => .pure _

theorem covers_vcd (phrase : Phrase) : account.Covers start phrase.read := by
  cases phrase with
  | exactString text => exact covers_text lawful text
  | tag name => exact covers_tag lawful name
  | anyTag => exact covers_anyTag lawful
  | nonWhitespace => exact covers_word lawful
  | identifierCode => exact covers_code lawful
  | textToEnd => exact covers_toEnd lawful
  | declarationKeyword => exact covers_keyword lawful _ _
  | declarationCommand => exact covers_declaration lawful
  | simulationKeyword => exact covers_keyword lawful _ _
  | simulationTime => exact covers_time lawful
  | value => exact .map _ (covers_bit lawful)
  | scalarValueChange => exact .map _ (covers_scalar lawful)
  | binaryVectorValueChange => exact .map _ (covers_vector lawful)
  | realVectorValueChange => exact .map _ (covers_real lawful)
  | valueChange => exact .map _ (covers_change lawful)
  | simulationValueCommand => exact covers_values lawful
  | comment => exact covers_comment lawful
  | simulationCommand => exact covers_simulation lawful
  | vcdDefinitions => exact covers_all lawful
  | var => exact .map _ (covers_wire lawful)

end NetTrace.Vcd
