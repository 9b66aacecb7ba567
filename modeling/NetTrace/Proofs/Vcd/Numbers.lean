import NetTrace.Proofs.Netlist.Numbers
import NetTrace.Proofs.Netlist.Refusals
import NetTrace.Proofs.Vcd.Decoding

namespace NetTrace

inductive Cause.OfSize : Cause → Prop
  | overflow (literal : Text) (bits : Nat) : OfSize (.overflow literal bits)

namespace Vcd

open Scan Text
open Netlist (DigitRun)
open Numeral (positional)
open NetTrace.Token (complete_eq_ok)

variable {α β : Type} {text middle rest left token digits word : Text} {words others : List Text}
  {type : VariableType} {declared : Variable} {cause : Cause}

section Times

inductive Timed (digits : Text) : Text → Prop
  | intro {front back : Text} : Blanks front → DigitRun Char.isDigit digits → Blanks back →
      Timed digits (front ++ '#' :: digits ++ back)

structure TimeDecoded (digits : Text) (found : Except Violation (Except Failure UInt64)) : Prop where
  exact : positional 10 digits < 2 ^ 64 →
    ∃ time, found = .ok (.ok time) ∧ time.toNat = positional 10 digits
  large : 2 ^ 64 ≤ positional 10 digits →
    found = .ok (.error { cause := .overflow ('#' :: digits) 64 })

theorem time_eq_ok : Command.scanTime text = .ok token rest ↔ ∃ digits, token = '#' :: digits ∧
    text.dropWhile isBlank = token ++ rest ∧ DigitRun Char.isDigit digits ∧
    Stops Char.isDigit rest := by
  rw [Command.scanTime, phrase_eq_ok, bind_skipBlanks, marked_eq_ok]
  constructor
  · intro given
    obtain ⟨_, split, ⟨rfl, digits, rfl, run⟩, stops⟩ := given
    exact ⟨digits, rfl, split, run, stops⟩
  · intro given
    obtain ⟨digits, rfl, split, run, stops⟩ := given
    exact ⟨_, split, ⟨rfl, digits, rfl, run⟩, stops⟩

theorem Timed.run (timed : Timed digits text) :
    ReadsAll Command.scanTime text ('#' :: digits) := by
  cases timed with
  | @intro front back blank run blank' =>
    refine ⟨back, time_eq_ok.mpr ⟨digits, rfl, ?_, run, ?_⟩, List.dropWhile_eq_nil_iff.mpr blank'⟩
    · rw [List.append_assoc, blank.dropWhile]
      rfl
    · have stops := Netlist.stops_padded blank' (stops_nil _)
      rw [List.append_nil] at stops
      exact Netlist.stops_digit stops

theorem timed_of_run (all : ReadsAll Command.scanTime text token) : ∃ digits, Timed digits text := by
  obtain ⟨left, read, ended⟩ := all
  obtain ⟨digits, rfl, split, run, -⟩ := time_eq_ok.mp read
  have whole := List.takeWhile_append_dropWhile (p := isBlank) (l := text)
  rw [split, ← List.append_assoc] at whole
  rw [← whole]
  exact ⟨digits, .intro (blanks_takeWhile text) run (List.dropWhile_eq_nil_iff.mp ended)⟩

theorem timed_iff : (∃ token, (Rule.vcd .simulationTime).lex text = .ok ([], token)) ↔
    ∃ digits, Timed digits text := by
  constructor
  · intro given
    obtain ⟨token, lexed⟩ := given
    obtain ⟨left, read, ended⟩ := Rule.lex_iff_read.mp lexed
    exact timed_of_run ⟨left, read, ended.symm⟩
  · intro given
    obtain ⟨digits, timed⟩ := given
    obtain ⟨left, read, ended⟩ := timed.run
    exact ⟨_, Rule.lex_iff_read.mpr ⟨left, read, ended.symm⟩⟩

theorem Timed.decoded (timed : Timed digits text) : TimeDecoded digits (Token.simulationTime text) := by
  have number : DigitRun Char.isDigit digits := by
    cases timed with
    | intro _ run _ => exact run
  have value := number.decimal_value_eq
  rw [Token.simulationTime, timed.run.complete]
  dsimp only [bind, Except.bind, List.tail_cons]
  rcases Numeral.word64?_cases 10 digits with ⟨fits, time, found, same⟩ | ⟨large, found⟩
  · rw [found]
    exact ⟨fun _ => ⟨time, rfl, same.trans value⟩, fun large => by omega⟩
  · rw [found]
    exact ⟨fun fits => by omega, fun _ => rfl⟩

theorem TimeDecoded.same {digits' : Text}
    {found found' : Except Violation (Except Failure UInt64)} (decoded : TimeDecoded digits found)
    (decoded' : TimeDecoded digits' found') (value : positional 10 digits' = positional 10 digits)
    (time : UInt64) : found' = .ok (.ok time) ↔ found = .ok (.ok time) := by
  by_cases fits : positional 10 digits < 2 ^ 64
  · obtain ⟨first, rfl, same⟩ := decoded.exact fits
    obtain ⟨second, rfl, same'⟩ := decoded'.exact (by omega)
    obtain rfl : second = first := UInt64.toNat_inj.mp (by omega)
    exact Iff.rfl
  · simp [decoded.large (by omega), decoded'.large (by omega)]

end Times

section Widths

inductive Begun (type : VariableType) (digits rest : Text) : Text → Prop
  | intro {front gap gap' : Text} : Blanks front → Blanks gap → gap ≠ [] → Blanks gap' → gap' ≠ [] →
      DigitRun Char.isDigit digits → Stops Char.isDigit rest →
      Begun type digits rest
        (front ++ "$var".toList ++ gap ++ type.keyword ++ gap' ++ (digits ++ rest))

structure WidthDecides (type : VariableType) (digits rest : Text) (shows : α → Variable → Prop)
    (outcome : Except Failure α) : Prop where
  exact : ∀ found, outcome = .ok found → ∃ declared, shows found declared ∧ declared.type = type ∧
    declared.width.toNat = positional 10 digits ∧
    declared.code = (rest.dropWhile isBlank).takeWhile (!isBlank ·)
  fits : positional 10 digits < 2 ^ 64 → ∀ failure, outcome = .error failure → ¬ failure.cause.OfSize
  large : 2 ^ 64 ≤ positional 10 digits →
    ∃ failure, outcome = .error failure ∧ failure.cause = .overflow digits 64

structure SizeDecides (digits : Text) (scan : Scan Text α) (text : Text) : Prop where
  large : 2 ^ 64 ≤ positional 10 digits → RefusesFor scan text (.overflow digits 64)
  fits : positional 10 digits < 2 ^ 64 → ∀ cause, RefusesFor scan text cause → ¬ cause.OfSize

namespace SizeDecides

variable {scan : Scan Text α} {next : α → Scan Text β} {value : α}

theorem phrase (name : String) (decides : SizeDecides digits scan text) :
    SizeDecides digits (Scan.phrase name scan) text where
  large := fun large => (decides.large large).phrase name
  fits := fun fits cause refuses => decides.fits fits cause (refusesFor_phrase.mp refuses)

theorem after (run : scan text = .ok value middle) (decides : SizeDecides digits (next value) middle) :
    SizeDecides digits (scan >>= next) text := by
  have same (cause : Cause) : RefusesFor (scan >>= next) text cause ↔
      RefusesFor (next value) middle cause := by
    rw [RefusesFor, bind_ok next run, RefusesFor]
  exact ⟨fun large => (same _).mpr (decides.large large),
    fun fits cause refuses => decides.fits fits cause ((same cause).mp refuses)⟩

theorem width {next : UInt64 → Scan Text α}
    (digits_run : Netlist.Literal.scanDigits text = .ok digits rest)
    (spares : ∀ width, Spares Cause.OfSize (next width)) :
    SizeDecides digits (Variable.scanWidth >>= next) text := by
  have number := (Netlist.digits_eq_ok.mp digits_run).2.1
  have value := number.decimal_value_eq
  rcases Numeral.word64?_cases 10 digits with ⟨fits, width, found, same⟩ | ⟨large, found⟩
  · have run : Variable.scanWidth text = .ok width rest := by
      rw [Variable.scanWidth, bind_ok _ digits_run, found]
      rfl
    refine ⟨fun large => by omega, fun _ cause refuses => ?_⟩
    rw [RefusesFor, bind_ok next run] at refuses
    exact spares width refuses
  · have refuses : RefusesFor Variable.scanWidth text (.overflow digits 64) := by
      refine .after digits_run ?_
      rw [found]
      exact ⟨_, rest, rfl, rfl⟩
    exact ⟨fun _ => refuses.bind, fun fits => by omega⟩

end SizeDecides

section Spares

theorem spares_characters (word : Text) :
    Spares Cause.OfSize (Word.scanCharacters word : Scan Text Bool) := by
  induction word with
  | nil => exact .pure true
  | cons c word ih => exact .bind .next fun found => .ite ih (.pure false)

theorem spares_exactly (word : Text) :
    Spares Cause.OfSize (Word.scanExactly word : Scan Text Text) := by
  have whole : Spares Cause.OfSize (Word.scanText word : Scan Text Text) :=
    .phrase _ (.bind (.span _) fun _ => .bind .mark fun start =>
      .bind (spares_characters word) fun _ =>
        .ite (.pure _) (.refuseFrom _ fun input kind => nomatch kind))
  refine .rewinding (.bind .mark fun start => .bind whole fun written => .bind .peek fun found => ?_)
  cases found with
  | none => exact .pure _
  | some c => exact .ite (.pure _) (.refuseFrom _ fun input kind => nomatch kind)

theorem spares_tag (name : Text) : Spares Cause.OfSize (Word.scanTag name : Scan Text Text) :=
  .phrase _ (spares_exactly _)

theorem spares_word : Spares Cause.OfSize (Word.scan : Scan Text Text) :=
  .phrase _ (.bind (.span _) fun _ => .bind (.span _) fun _ =>
    .ite (.refuseEnd fun kind => nomatch kind) (.pure _))

theorem spares_name : Spares Cause.OfSize (Netlist.Name.scan : Scan Text Text) := by
  have simple : Spares Cause.OfSize (Netlist.Name.simple : Scan Text Text) := by
    refine .phrase _ (.bind (.span _) fun _ => .bind .peek fun found => ?_)
    cases found with
    | none => exact .refuseEnd (fun kind => nomatch kind)
    | some c => exact .ite (.span _) (.refuse fun input kind => nomatch kind)
  have escaped : Spares Cause.OfSize (Netlist.Name.escaped : Scan Text Text) := by
    refine .phrase _ (.bind (.span _) fun _ => .bind .mark fun start => .bind .peek fun found =>
      .ite (.bind (.span _) fun written => .bind .next fun closing => ?_)
        (.refuse fun input kind => nomatch kind))
    cases closing with
    | none => exact .refuseFrom _ (fun input kind => nomatch kind)
    | some terminator => exact .pure _
  exact .phrase _ (.bind (.of_goes fun text => ⟨_, _, rfl⟩) fun seen => .ite escaped simple)

end Spares

section Declarations

theorem VariableType.keyword_injective : Function.Injective VariableType.keyword := by
  intro type other same
  have known : ofKeyword? type.keyword = some type := ofKeyword?_eq_some.mpr rfl
  rw [same, ofKeyword?_eq_some.mpr rfl] at known
  exact (Option.some.inj known).symm

theorem Begun.starts (begun : Begun type digits rest text) : ∃ middle after,
    Word.scanTag "var".toList text = .ok "$var".toList middle ∧
      Word.scanExactly type.keyword middle = .ok type.keyword after ∧
      Word.scan middle = .ok type.keyword after ∧
      Netlist.Literal.scanDigits after = .ok digits rest := by
  have isWord := VariableType.isWord_keyword type
  cases begun with
  | @intro front gap gap' blank gapBlank gapSome gapBlank' gapSome' run stops =>
    have digitsWord : IsWord digits := ⟨run.1, fun c member => visible_of_isDigit (run.2 c member)⟩
    have seen : (gap ++ (type.keyword ++ (gap' ++ (digits ++ rest)))).dropWhile isBlank =
        type.keyword ++ (gap' ++ (digits ++ rest)) := by
      rw [gapBlank.dropWhile, isWord.dropWhile]
    have parts : Parts (gap' ++ (digits ++ rest)) := gapBlank'.parts gapSome' _
    refine ⟨gap ++ (type.keyword ++ (gap' ++ (digits ++ rest))), gap' ++ (digits ++ rest), ?_,
      scanExactly_eq_ok.mpr ⟨rfl, seen, parts⟩, word_eq_ok.mpr ⟨seen, isWord, parts⟩, ?_⟩
    · refine phrase_eq_ok.mpr (scanExactly_eq_ok.mpr ⟨rfl, ?_, gapBlank.parts gapSome _⟩)
      simp only [List.append_assoc, blank.dropWhile]
      rfl
    · refine Netlist.digits_eq_ok.mpr ⟨?_, run, stops⟩
      rw [gapBlank'.dropWhile, digitsWord.dropWhile]

theorem Begun.fields (begun : Begun type digits rest text)
    (reads : Declared text.words declared others) : declared.type = type ∧
      declared.width.toNat = positional 10 digits ∧
      declared.code = (rest.dropWhile isBlank).takeWhile (!isBlank ·) := by
  obtain ⟨middle, after, tag, -, typed, run⟩ := begun.starts
  obtain ⟨words, digits', first, ending, same, holds, read, -⟩ := reads
  have front : text.words = "$var".toList :: middle.words :=
    ((byWords_tag (by decide)).words tag).1
  have second : middle.words = type.keyword :: after.words := byWords_word.words typed
  rw [front, second] at same
  obtain ⟨-, same⟩ := List.cons.inj same
  obtain ⟨keyword, rfl⟩ := List.cons.inj same
  obtain ⟨rfl, left⟩ := byWords_digits.unique (byWords_digits.words run) holds
  obtain ⟨tail, split, isWord, parts, -⟩ := words_eq_cons.mp left
  refine ⟨(VariableType.keyword_injective keyword).symm, ?_, ?_⟩
  · have number := (Netlist.digits_eq_ok.mp run).2.1
    rcases Numeral.word64?_cases 10 digits with ⟨-, width, found, same⟩ | ⟨-, none⟩
    · rw [found] at read
      rw [← Option.some.inj read, same, number.decimal_value_eq]
    · rw [none] at read
      contradiction
  · rw [split]
    exact (takeWhile_of_stops (fun c member => by simp [isWord.2 c member]) parts).symm

theorem Begun.decides_declaration (begun : Begun type digits rest text) :
    SizeDecides digits Variable.scanDeclaration text := by
  obtain ⟨middle, after, tag, -, typed, run⟩ := begun.starts
  have known : VariableType.ofKeyword? type.keyword = some type :=
    VariableType.ofKeyword?_eq_some.mpr rfl
  refine .phrase _ (.after tag (.after typed ?_))
  rw [known]
  refine .width run fun width => .bind (.phrase _ spares_word) fun code => .bind spares_word fun name =>
    .bind (.optionally _) fun ended => ?_
  cases ended with
  | some _ => exact .pure _
  | none => exact .bind spares_word fun range => .bind (spares_tag _) fun _ => .pure _

theorem Begun.decides_wire (begun : Begun .wire digits rest text) :
    SizeDecides digits Variable.scanWire text := by
  obtain ⟨middle, after, tag, typed, -, run⟩ := begun.starts
  exact .phrase _ (.after tag (.after typed (.width run fun width =>
    .bind (.phrase _ spares_word) fun code => .bind spares_name fun name =>
      .bind (spares_tag _) fun _ => .pure _)))

theorem Begun.declaration (begun : Begun type digits rest text) :
    WidthDecides type digits rest Eq (Token.declaration text) where
  exact := fun declared decoded => ⟨declared, rfl, begun.fields (declaration_eq_ok.mp decoded)⟩
  fits := by
    intro fits failure refused
    unfold Token.declaration at refused
    cases run : (Variable.scanDeclaration : Scan Text Variable) text with
    | error reason left =>
      rw [run] at refused
      cases refused
      exact begun.decides_declaration.fits fits _ ⟨failure, left, run, rfl⟩
    | ok declared left =>
      rw [run] at refused
      by_cases ended : left.dropWhile isBlank = []
      · simp [ended, -List.dropWhile_eq_nil_iff] at refused
      · simp only [if_neg ended] at refused
        cases refused
        exact fun kind => nomatch kind
  large := by
    intro large
    obtain ⟨failure, left, run, same⟩ := begun.decides_declaration.large large
    exact ⟨failure, by rw [Token.declaration, run], same⟩

theorem Begun.wire (begun : Begun .wire digits rest text) :
    WidthDecides .wire digits rest
      (fun found declared => found.2 = declared.render ∧ Token.wire found.2 = .ok declared)
      (Rule.lex (.vcd .var) text) where
  exact := by
    intro found lexed
    obtain ⟨declared, left, run, written, -⟩ := (Rule.lex_map rfl).mp lexed
    have taken : Token.wire declared.render = .ok declared :=
      (rereads_wire.readsAll byWords_wire run).complete _
    obtain ⟨name, -, -, -, declares, -⟩ := (byWords_wire.words run).declares
      fun word member => isWord_of_mem_words member
    have fields := begun.fields declares
    exact ⟨declared, ⟨written, by rw [written, taken]⟩, fields⟩
  fits := by
    intro fits failure refused
    have refuses := Rule.lex_refuses.mp ⟨failure, refused, rfl⟩
    exact begun.decides_wire.fits fits _ ((refusesFor_map _).mp refuses)
  large := fun large => Rule.lex_refuses.mpr ((begun.decides_wire.large large).map _)

end Declarations

end Widths

/-- The texts of a time are a number sign and digits. The time is what the digits state, with any
    zeros in front, where that fits 64 bits, and otherwise it is told that the number is too large. A
    declaration of any type, and that of a wire as a token, are refused for the digits of their width
    where these state a number that is too large, and for no size otherwise. What is decoded has the
    width that the digits state, and its code is the next word or the rest of the one with the
    digits. -/
theorem numbers_exact_or_too_large :
    (∀ text, (∃ token, (Rule.vcd .simulationTime).lex text = .ok ([], token)) ↔
      ∃ digits, Timed digits text) ∧
    (∀ digits text, Timed digits text → TimeDecoded digits (Token.simulationTime text)) ∧
    (∀ digits zeros text text', Timed digits text →
      Timed (List.replicate zeros '0' ++ digits) text' → ∀ time,
        Token.simulationTime text' = .ok (.ok time) ↔ Token.simulationTime text = .ok (.ok time)) ∧
    (∀ type digits rest text, Begun type digits rest text →
      WidthDecides type digits rest Eq (Token.declaration text)) ∧
    ∀ digits rest text, Begun .wire digits rest text →
      WidthDecides .wire digits rest
        (fun found declared => found.2 = declared.render ∧ Token.wire found.2 = .ok declared)
        (Rule.lex (.vcd .var) text) := by
  refine ⟨fun text => timed_iff, fun digits text timed => timed.decoded, ?_,
    fun type digits rest text begun => begun.declaration,
    fun digits rest text begun => begun.wire⟩
  intro digits zeros text text' timed timed' time
  exact timed.decoded.same timed'.decoded (Numeral.positional_zeros 10 zeros digits) time

theorem numbers_exact_or_too_large_limit :
    (∃ time, Token.simulationTime " #0018446744073709551615\n".toList = .ok (.ok time) ∧
      time.toNat = 18446744073709551615) ∧
    (∀ time, Token.simulationTime " #0018446744073709551615\n".toList = .ok (.ok time) ↔
      Token.simulationTime "#18446744073709551615".toList = .ok (.ok time)) ∧
    Token.simulationTime "#18446744073709551616".toList =
      .ok (.error { cause := .overflow "#18446744073709551616".toList 64 }) ∧
    (∃ declared, Token.declaration "$var real\t0018a! q $end".toList = .ok declared ∧
      declared.width.toNat = 18 ∧ declared.code = "a!".toList) ∧
    (∃ failure, Token.declaration "$var wire 18446744073709551616! q".toList = .error failure ∧
      failure.cause = .overflow "18446744073709551616".toList 64) ∧
    ∃ failure, Rule.lex (.vcd .var) "$var wire 18446744073709551616! q".toList = .error failure ∧
      failure.cause = .overflow "18446744073709551616".toList 64 := by
  have space : Blanks [' '] := by decide
  have padded : Timed "0018446744073709551615".toList " #0018446744073709551615\n".toList :=
    @Timed.intro _ [' '] ['\n'] space (by decide) (by decide)
  have largest : Timed "18446744073709551615".toList "#18446744073709551615".toList :=
    @Timed.intro _ [] [] .nil (by decide) .nil
  have next : Timed "18446744073709551616".toList "#18446744073709551616".toList :=
    @Timed.intro _ [] [] .nil (by decide) .nil
  have real : Begun .real "0018".toList "a! q $end".toList "$var real\t0018a! q $end".toList :=
    @Begun.intro _ _ _ [] [' '] ['\t'] .nil space (by decide) (by decide) (by decide) (by decide)
      (stops_cons.mpr rfl)
  have wire : Begun .wire "18446744073709551616".toList "! q".toList
      "$var wire 18446744073709551616! q".toList :=
    @Begun.intro _ _ _ [] [' '] [' '] .nil space (by decide) space (by decide) (by decide)
      (stops_cons.mpr rfl)
  obtain ⟨-, times, zeros, declarations, wires⟩ := numbers_exact_or_too_large
  refine ⟨(times _ _ padded).exact (by decide), zeros _ 2 _ _ largest padded,
    (times _ _ next).large (by decide), ?_, (declarations _ _ _ _ wire).large (by decide),
    (wires _ _ _ wire).large (by decide)⟩
  have decoded : Token.declaration "$var real\t0018a! q $end".toList =
      .ok { type := .real, width := 18, code := "a!".toList, name := "q".toList } := by
    decide +kernel
  obtain ⟨declared, rfl, -, width, code⟩ := (declarations _ _ _ _ real).exact _ decoded
  exact ⟨_, decoded, width, code⟩

end Vcd

end NetTrace
