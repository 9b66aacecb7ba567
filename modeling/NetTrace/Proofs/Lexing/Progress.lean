import NetTrace.Proofs.Lexing.Session
import NetTrace.Proofs.Netlist.Rendering
import NetTrace.Proofs.Vcd.Wire

namespace NetTrace

open Scan
open Text (Stops isBlank)

section Netlist

open Netlist

theorem Netlist.passes_phrase (phrase : Netlist.Phrase) :
    Passes 1 (phrase.read : Scan Text Netlist.Reading) :=
  (reads_phrase phrase).passes fun _ _ derives => derives.leads.length_pos

theorem Netlist.Delimiters.length_le {c : Char} {count : Nat} {text : Text}
    (delimiters : Delimiters c count text) : count ≤ text.length := by
  induction delimiters with
  | none => exact Nat.zero_le _
  | more lexeme _ ih =>
    obtain ⟨blanks, -, rfl⟩ := lexeme
    simp only [List.length_append, List.length_cons, List.length_nil]
    omega

theorem Netlist.passes_enclosed {α : Type} {opening closing : Char} {content : Scan Text α}
    (passes : Passes 0 content) : Passes 1 (Enclosed.scan opening closing content) := by
  have reads : Reads content fun _ _ => True := .of_exact fun text value rest run => by
    obtain ⟨front, same, -⟩ := passes run
    exact ⟨front, same, trivial⟩
  refine (reads_enclosed reads fun _ _ _ _ _ => trivial).passes fun group text spells => ?_
  cases spells with
  | intro positive opened _ _ =>
    have enough := opened.length_le
    simp only [List.length_append]
    omega

end Netlist

section Dumps

open Vcd

theorem Scan.passes_of_seen {α : Type} {scan : Scan Text α}
    (seen : ∀ {text value rest}, scan text = .ok value rest →
      ∃ word, word ≠ [] ∧ text.dropWhile isBlank = word ++ rest) : Passes 1 scan := by
  intro text value rest run
  obtain ⟨word, some, split⟩ := seen run
  obtain ⟨front, whole, blanks, -, rfl⟩ := Text.lexeme_after split
  have positive := List.length_pos_iff.mpr some
  refine ⟨_, whole, ?_⟩
  rw [List.length_append]
  omega

theorem Vcd.passes_anyTag : Passes 1 (Word.scanAnyTag : Scan Text Text) := by
  refine passes_of_seen fun {text value rest} run => ?_
  rw [Word.scanAnyTag, phrase_eq_ok, bind_skipBlanks, marked_eq_ok] at run
  obtain ⟨front, split, ⟨-, run, rfl, -⟩, -⟩ := run
  exact ⟨_, List.cons_ne_nil _ _, split⟩

theorem Vcd.passes_bit : Passes 1 (ValueChange.scanBit : Scan Text Char) := by
  refine passes_of_seen fun {text value rest} run => ?_
  rw [ValueChange.scanBit, phrase_eq_ok, bind_skipBlanks, bitHere_eq_ok] at run
  exact ⟨[value], List.cons_ne_nil _ _, run.1⟩

theorem Vcd.passes_someKeyword (name : String) {keywords : List Text}
    (areWords : ∀ keyword ∈ keywords, Text.IsWord keyword) :
    Passes 1 (Word.scanKeyword name keywords : Scan Text Text) := by
  intro text value rest run
  obtain ⟨front, same, -⟩ := passes_keyword name keywords run
  have words := (byWords_keyword name areWords).words run
  refine ⟨front, same, List.length_pos_iff.mpr fun empty => ?_⟩
  rw [empty, List.nil_append] at same
  have shorter := congrArg List.length words.1
  rw [same, List.length_cons] at shorter
  omega

theorem Vcd.passes_wire : Passes 1 (Variable.scanWire : Scan Text Variable) := by
  have width : Passes 0 (Variable.scanWidth : Scan Text UInt64) := by
    refine .andThen (Netlist.reads_digits.passes fun _ _ _ => Nat.zero_le _) fun digits => ?_
    cases Numeral.word64? 10 digits with
    | some value => exact .pure _
    | none => exact .throw _
  have name : Passes 0 (Netlist.Name.scan : Scan Text Text) :=
    Netlist.reads_name.passes fun _ _ _ => Nat.zero_le _
  refine .phrase _ (Passes.bind (passes_tag _) fun _ => ?_ : Passes (1 + 0) _)
  refine .andThen ((passes_exactly _).mono (Nat.zero_le _)) fun _ => .andThen width fun width => ?_
  refine .andThen (passes_code.mono (Nat.zero_le _)) fun code => .andThen name fun name => ?_
  exact .andThen ((passes_tag _).mono (Nat.zero_le _)) fun _ => .pure _

theorem Vcd.passes_phrase {phrase : Vcd.Phrase} (named : phrase ≠ .exactString [])
    (single : phrase ≠ .vcdDefinitions) : Passes 1 (phrase.read : Scan Text Text) := by
  cases phrase with
  | exactString word =>
    refine (passes_text word).mono (List.length_pos_iff.mpr fun empty => ?_)
    rw [empty] at named
    contradiction
  | tag name => exact passes_tag name
  | anyTag => exact passes_anyTag
  | nonWhitespace => exact passes_word
  | identifierCode => exact passes_code
  | textToEnd => exact passes_toEnd
  | declarationKeyword => exact passes_someKeyword _ (by decide)
  | declarationCommand => exact passes_declaration
  | simulationKeyword => exact passes_someKeyword _ (by decide)
  | simulationTime => exact passes_time
  | value => exact passes_bit.map _
  | scalarValueChange => exact passes_scalar.map _
  | binaryVectorValueChange => exact passes_vector.map _
  | realVectorValueChange => exact passes_real.map _
  | valueChange => exact passes_change.map _
  | simulationValueCommand => exact passes_values
  | comment => exact passes_comment
  | simulationCommand => exact passes_simulation
  | vcdDefinitions => contradiction
  | var => exact passes_wire.map _

end Dumps

structure Text.Progressed (text rest : Text) : Prop where
  passed : ∃ front, front ≠ [] ∧ text = front ++ rest
  clean : Stops isBlank rest

namespace Rule

theorem passes_read {rule : Rule} (named : rule ≠ .vcd (.exactString []))
    (single : rule ≠ .vcd .vcdDefinitions) : Passes 1 (rule.read : Scan Text Text) := by
  cases rule with
  | netlist phrase => exact (Netlist.passes_phrase phrase).map _
  | character c =>
    refine .map _ (passes_of_seen fun {text value rest} run => ?_)
    exact ⟨[c], List.cons_ne_nil _ _, (symbol_eq_ok.mp run).2⟩
  | wrapped inner opening closing =>
    exact (Netlist.passes_enclosed ((Netlist.passes_phrase inner).mono (Nat.zero_le _))).map _
  | vcd phrase =>
    exact Vcd.passes_phrase (fun same => named (same ▸ rfl)) fun same => single (same ▸ rfl)
  | signalKey =>
    exact (Netlist.reads_selection.passes fun _ _ spells => spells.leads.length_pos).map _

theorem passes_token {rule : Rule} (named : rule ≠ .vcd (.exactString []))
    (single : rule ≠ .vcd .vcdDefinitions) : Passes 1 (rule.token : Scan Text Text) :=
  (passes_read named single).bind fun _ => .andThen .skipBlanks fun _ => .pure _

theorem stops_token {rule : Rule} {text token rest : Text}
    (run : (rule.token : Scan Text Text) text = .ok token rest) : Stops isBlank rest := by
  obtain ⟨found, left, -, ended⟩ := bind_eq_ok.mp run
  cases ended
  exact Text.stops_dropWhile isBlank left

theorem progressed_token {rule : Rule} (named : rule ≠ .vcd (.exactString []))
    (single : rule ≠ .vcd .vcdDefinitions) {text token rest : Text}
    (run : (rule.token : Scan Text Text) text = .ok token rest) : text.Progressed rest := by
  obtain ⟨front, split, enough⟩ := passes_token named single run
  exact ⟨⟨front, List.length_pos_iff.mp enough, split⟩, stops_token run⟩

end Rule

namespace Stream

open Utf8 (decode)

/-- A later place in the same bytes: the characters between the two are at least one, and what is
    left does not start with a blank. -/
structure Progressed (stream later : Stream) : Prop where
  passed : ∃ front, front ≠ [] ∧ decode stream.following = front ++ decode later.following
  clean : Stops isBlank (decode later.following)
  suffix : later.following <:+ stream.following
  further : stream.offset < later.offset
  counted : later.offset + later.following.length = stream.offset + stream.following.length

variable {stream later : Stream}

theorem progressed_token {rule : Rule} (named : rule ≠ .vcd (.exactString []))
    (single : rule ≠ .vcd .vcdDefinitions) {token : Text}
    (run : rule.token stream = .ok token later) : Progressed stream later := by
  rcases token_cases rule (placed_self stream) with ⟨_, _, rest, run', onText, passed⟩ |
    ⟨failure, reason, left, refused, -⟩
  · obtain ⟨rfl, rfl⟩ := EStateM.Result.ok.inj (run.symm.trans run')
    obtain ⟨⟨front, some, split⟩, clean⟩ := Rule.progressed_token named single onText
    obtain ⟨⟨count, reached⟩, reads, counted⟩ := passed.shows
    have suffix : later.following <:+ stream.following := by
      rw [reached]
      exact Utf8.after_suffix count _
    have shorter : later.following.length ≠ stream.following.length := by
      intro same
      rw [reads, suffix.eq_of_length same] at split
      exact some (List.self_eq_append_left.mp split)
    have within := suffix.length_le
    refine ⟨⟨front, some, by rw [split, reads]⟩, ?_, suffix, by omega, counted⟩
    rw [← reads]
    exact clean
  · rw [run] at refused
    contradiction

/-- The commit at the end of an application forgets bytes that were passed, and moves nothing. -/
theorem progressed_lex {rule : Rule} (named : rule ≠ .vcd (.exactString []))
    (single : rule ≠ .vcd .vcdDefinitions) {token : Text}
    (lexed : stream.lex rule = (.ok token, later)) : Progressed stream later := by
  unfold lex at lexed
  cases run : (rule.token : Scan Stream Text) stream with
  | ok found rest =>
    rw [run] at lexed
    obtain ⟨-, rfl⟩ := Prod.mk.inj lexed
    obtain ⟨passed, clean, suffix, further, counted⟩ := progressed_token named single run
    exact ⟨passed, clean, suffix, further, counted⟩
  | error failure rest =>
    rw [run] at lexed
    cases lexed

end Stream

end NetTrace
