import NetTrace.Proofs.Netlist.RoundTrip

namespace NetTrace.Netlist

open Text (Blanks Lexeme)
open Scan

variable {text token token' blanks digits : Text} {literal padded : Literal} {width value : Nat}

def Literal.stated? : Literal → Option (Nat × Nat)
  | .unsized digits => some (32, Numeral.positional 10 digits)
  | .sized width radix digits =>
    some (Numeral.positional 10 width, Numeral.positional radix.base digits)
  | .string _ => none

def Literal.Whole (literal : Literal) (token : Text) : Prop :=
  ∃ text blanks, token = text ++ blanks ∧ literal.Spelled text ∧ Blanks blanks

def Literal.States (width value : Nat) (token : Text) : Prop :=
  ∃ literal : Literal, literal.Whole token ∧ literal.stated? = some (width, value)

/-- The same number with any zeros in front of its width and of its digits. -/
inductive Literal.Padded : Literal → Literal → Prop
  | unsized (zeros digits) : Padded (.unsized digits) (.unsized (List.replicate zeros '0' ++ digits))
  | sized (zeros zeros' width radix digits) : Padded (.sized width radix digits)
      (.sized (List.replicate zeros '0' ++ width) radix (List.replicate zeros' '0' ++ digits))

structure NumericValue.Decoded (width value : Nat) (token : Text)
    (found : Except Violation (Except Failure NumericValue)) : Prop where
  exact : width < 2 ^ 32 → value < 2 ^ 64 → ∃ number, found = .ok (.ok number) ∧
    number.width.toNat = width ∧ number.value.toNat = value
  wide : 2 ^ 32 ≤ width → found = .ok (.error { cause := .overflow (Text.trim token) 32 })
  large : width < 2 ^ 32 → 2 ^ 64 ≤ value →
    found = .ok (.error { cause := .overflow (Text.trim token) 64 })

section Values

theorem decoded_unsized (run : DigitRun Char.isDigit digits) (token : Text) :
    NumericValue.Decoded 32 (Numeral.positional 10 digits) token
      ((Literal.unsized digits).numericValue token) := by
  rw [← run.decimal_value_eq, Literal.numericValue]
  rcases Numeral.word64?_cases 10 digits with ⟨fits, word, found, same⟩ | ⟨large, found⟩
  · rw [found]
    exact ⟨fun _ _ => ⟨_, rfl, rfl, same⟩, fun wide => by omega, fun _ large => by omega⟩
  · rw [found]
    exact ⟨fun _ fits => absurd fits large, fun wide => by omega, fun _ _ => rfl⟩

theorem decoded_sized {radix : Radix} {written : Text} (run : DigitRun Char.isDigit written)
    (run' : DigitRun radix.isDigit digits) (token : Text) :
    NumericValue.Decoded (Numeral.positional 10 written) (Numeral.positional radix.base digits) token
      ((Literal.sized written radix digits).numericValue token) := by
  rw [← run.decimal_value_eq, ← run'.value_eq, Literal.numericValue]
  rcases Numeral.word32?_cases 10 written with ⟨fits, bits, found, same⟩ | ⟨wide, found⟩
  · rcases Numeral.word64?_cases radix.base digits with ⟨fits', word, found', same'⟩ | ⟨large, found'⟩
    · rw [found, found']
      exact ⟨fun _ _ => ⟨_, rfl, same, same'⟩, fun wide => by omega, fun _ large => by omega⟩
    · rw [found, found']
      exact ⟨fun _ fits' => absurd fits' large, fun wide => by omega, fun _ _ => rfl⟩
  · rw [found]
    exact ⟨fun fits => absurd fits wide, fun _ => rfl, fun fits => absurd fits wide⟩

theorem NumericValue.Decoded.same {found found' : Except Violation (Except Failure NumericValue)}
    (decoded : Decoded width value token found) (decoded' : Decoded width value token' found')
    (number : NumericValue) : found = .ok (.ok number) ↔ found' = .ok (.ok number) := by
  rcases Nat.lt_or_ge width (2 ^ 32) with fits | wide
  · rcases Nat.lt_or_ge value (2 ^ 64) with fits' | large
    · obtain ⟨⟨bits, word⟩, rfl, same, same'⟩ := decoded.exact fits fits'
      obtain ⟨⟨bits', word'⟩, rfl, rfl, rfl⟩ := decoded'.exact fits fits'
      obtain rfl : bits = bits' := UInt32.toNat_inj.mp same
      obtain rfl : word = word' := UInt64.toNat_inj.mp same'
      exact Iff.rfl
    · simp [decoded.large fits large, decoded'.large fits large]
  · simp [decoded.wide wide, decoded'.wide wide]

theorem Literal.Padded.stated? (padding : Literal.Padded literal padded) :
    padded.stated? = literal.stated? := by
  cases padding with
  | unsized zeros digits => simp only [Literal.stated?, Numeral.positional_zeros]
  | sized zeros zeros' width radix digits => simp only [Literal.stated?, Numeral.positional_zeros]

end Values

section Tokens

theorem numericValue_of_whole (whole : literal.Whole token) :
    Token.numericValue token = literal.numericValue token := by
  obtain ⟨text, blanks, rfl, spells, blank⟩ := whole
  exact numericValue_of_spelled spells blank

theorem decoded_of_states (states : Literal.States width value token) :
    NumericValue.Decoded width value token (Token.numericValue token) := by
  obtain ⟨literal, whole, stated⟩ := states
  rw [numericValue_of_whole whole]
  obtain ⟨text, blanks, -, spells, -⟩ := whole
  cases spells with
  | unsized run lexeme =>
    obtain ⟨rfl, rfl⟩ := Prod.mk.inj (Option.some.inj stated)
    exact decoded_unsized run token
  | sized run lexeme run' lexeme' =>
    obtain ⟨rfl, rfl⟩ := Prod.mk.inj (Option.some.inj stated)
    exact decoded_sized run run'.of_figures token
  | string => contradiction

theorem visible_number_iff (spells : literal.Spelled text) (rest : Text) :
    (text ++ rest).visible? ≠ some '"' ↔ ∃ width value, literal.stated? = some (width, value) := by
  rw [spells.leads.visible rest]
  cases spells with
  | @unsized digits _ run =>
    have number := run.head_ne []
    rw [List.append_nil] at number
    exact ⟨fun _ => ⟨_, _, rfl⟩, fun _ => number⟩
  | sized run => exact ⟨fun _ => ⟨_, _, rfl⟩, fun _ => run.head_ne _⟩
  | string => simp [Literal.render, Literal.stated?]

theorem whole_of_lex (lexed : ∃ written, (Rule.netlist .immediate).lex token = .ok ([], written)) :
    ∃ literal : Literal, literal.Whole token := by
  obtain ⟨written, lexed⟩ := lexed
  obtain ⟨reading, left, read, ended, -⟩ := exists_read lexed
  obtain ⟨literal, run, -⟩ := map_eq_ok.mp read
  obtain ⟨text, blanks, rfl, blank, spells⟩ := reads_literal run
  exact ⟨literal, text, blanks ++ left, rfl, spells, blank.append ended⟩

theorem lex_of_whole (whole : literal.Whole token) :
    ∃ written, (Rule.netlist .immediate).lex token = .ok ([], written) := by
  obtain ⟨text, blanks, rfl, spells, blank⟩ := whole
  have ends := endsList_nil.1.padded blank
  rw [List.append_nil] at ends
  obtain ⟨left, run, same⟩ := takes_literal spells ⟨ends.1, ends.2.1⟩ (.refl _)
  have ended : left.dropWhile Text.isBlank = [] :=
    Eq.trans same.alike (List.dropWhile_eq_nil_iff.mpr blank)
  have read : Phrase.immediate.read (text ++ blanks) = .ok (.literal literal) left := map_ok _ run
  exact ⟨_, lex_of_read read ended⟩

theorem lexed_number_iff :
    (∃ written, (Rule.netlist .immediate).lex token = .ok ([], written)) ∧
      token.visible? ≠ some '"' ↔ ∃ width value, Literal.States width value token := by
  constructor
  · intro given
    obtain ⟨literal, whole⟩ := whole_of_lex given.1
    have whole' := whole
    obtain ⟨text, blanks, rfl, spells, -⟩ := whole
    obtain ⟨width, value, stated⟩ := (visible_number_iff spells blanks).mp given.2
    exact ⟨width, value, literal, whole', stated⟩
  · intro given
    obtain ⟨width, value, literal, whole, stated⟩ := given
    refine ⟨lex_of_whole whole, ?_⟩
    obtain ⟨text, blanks, rfl, spells, -⟩ := whole
    exact (visible_number_iff spells blanks).mpr ⟨width, value, stated⟩

end Tokens

/-- The texts of the grammar that are no strings are those that state a width and a value. These are
    what is found, or else it is told that they are too large. Zeros in front change nothing. -/
theorem numbers_decode_exactly :
    (∀ token, (∃ written, (Rule.netlist .immediate).lex token = .ok ([], written)) ∧
        token.visible? ≠ some '"' ↔ ∃ width value, Literal.States width value token) ∧
      (∀ width value token, Literal.States width value token →
        NumericValue.Decoded width value token (Token.numericValue token)) ∧
      ∀ literal padded : Literal, literal.Padded padded → ∀ token token', literal.Whole token →
        padded.Whole token' → ∀ number, Token.numericValue token' = .ok (.ok number) ↔
          Token.numericValue token = .ok (.ok number) := by
  refine ⟨fun token => lexed_number_iff, fun width value token => decoded_of_states, ?_⟩
  intro literal padded padding token token' whole whole' number
  have stated : ∃ width value, literal.stated? = some (width, value) := by
    cases padding <;> exact ⟨_, _, rfl⟩
  obtain ⟨width, value, stated⟩ := stated
  have stated' := padding.stated?.trans stated
  exact (decoded_of_states ⟨padded, whole', stated'⟩).same
    (decoded_of_states ⟨literal, whole, stated⟩) number

theorem numbers_decode_exactly_bounds :
    (∃ number, Token.numericValue "008 'h0fF ".toList = .ok (.ok number) ∧
        number.width.toNat = 8 ∧ number.value.toNat = 255) ∧
      (∀ number, Token.numericValue "008 'h0fF ".toList = .ok (.ok number) ↔
        Token.numericValue "8'hfF".toList = .ok (.ok number)) ∧
      Token.numericValue "4294967296'b1".toList =
        .ok (.error { cause := .overflow "4294967296'b1".toList 32 }) ∧
      Token.numericValue "18446744073709551616".toList =
        .ok (.error { cause := .overflow "18446744073709551616".toList 64 }) := by
  have space : Blanks [' '] := by decide
  have byte : (Literal.sized "008".toList .hex "0fF".toList).Whole "008 'h0fF ".toList :=
    ⟨"008 'h0fF".toList, [' '], rfl,
      .sized (by decide) (.self _) (by decide) ⟨[' '], space, rfl⟩, space⟩
  have byte' : (Literal.sized "8".toList .hex "fF".toList).Whole "8'hfF".toList :=
    ⟨"8'hfF".toList, [], rfl, .sized (by decide) (.self _) (by decide) (.self _), .nil⟩
  have wide : (Literal.sized "4294967296".toList .binary "1".toList).Whole "4294967296'b1".toList :=
    ⟨_, [], rfl, .sized (by decide) (.self _) (by decide) (.self _), .nil⟩
  have large : (Literal.unsized "18446744073709551616".toList).Whole
      "18446744073709551616".toList := ⟨_, [], rfl, .unsized (by decide) (.self _), .nil⟩
  obtain ⟨-, decoded, zeros⟩ := numbers_decode_exactly
  refine ⟨(decoded 8 255 _ ⟨_, byte, rfl⟩).exact (by decide) (by decide), ?_, ?_, ?_⟩
  · exact zeros _ _ (.sized 2 1 ['8'] .hex ['f', 'F']) _ _ byte' byte
  · exact (decoded (2 ^ 32) 1 _ ⟨_, wide, rfl⟩).wide (by decide)
  · exact (decoded 32 (2 ^ 64) _ ⟨_, large, rfl⟩).large (by decide) (by decide)

end NetTrace.Netlist
