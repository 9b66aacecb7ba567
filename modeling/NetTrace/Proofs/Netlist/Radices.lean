import NetTrace.Proofs.Netlist.Items
import NetTrace.Proofs.Netlist.Refusals

namespace NetTrace

/-- A sized number was begun whose marker names no radix, or has no digits of its radix after it. -/
inductive Cause.OfRadix : Cause → Prop
  | unknown (found input : Text) : OfRadix (.unknownRadix found input)
  | empty (radix : Netlist.Radix) (input : Text) : OfRadix (.emptyBody radix input)

namespace Netlist

open Scan

theorem Radix.marker_injective : Function.Injective marker := by
  intro radix other same
  have named := ofMarker?_marker radix
  rw [same, ofMarker?_marker] at named
  exact (Option.some.inj named).symm

variable {text rest token width body marked : Text} {cause : Cause} {radix : Radix}
  {value : Literal}

namespace Literal

def radix? : Literal → Option Radix
  | sized _ radix _ => some radix
  | _ => none

def Begun (width marked text : Text) : Prop :=
  ∃ middle, scanDigits text = .ok width middle ∧ middle.dropWhile Text.isBlank = '\'' :: marked

theorem begun_dropWhile :
    Begun width marked (text.dropWhile Text.isBlank) ↔ Begun width marked text := by
  simp only [Begun, digits_eq_ok, Text.dropWhile_dropWhile]

theorem sized_iff_literal : scanSized radix text = .ok value rest ↔
    scan text = .ok value rest ∧ value.radix? = some radix := by
  rw [literal_eq_ok, number_eq_ok]
  constructor
  · intro run
    obtain ⟨width, digits, middle, rfl, -⟩ := sized_eq_ok.mp run
    exact ⟨.inr (.inl ⟨radix, run⟩), rfl⟩
  · intro given
    obtain ⟨run | ⟨other, run⟩ | ⟨digits, middle, rfl, -⟩, same⟩ := given
    · obtain ⟨body, rfl, -⟩ := string_eq_ok.mp run
      cases same
    · obtain ⟨width, digits, middle, rfl, -⟩ := sized_eq_ok.mp run
      obtain rfl : other = radix := Option.some.inj same
      exact run
    · cases same

section Refusals

theorem spares_string : Spares Cause.OfRadix (scanString : Scan Text Literal) := by
  refine .phrase _ (.bind (.span _) fun _ => .bind .mark fun start => .bind .peek fun found =>
    .ite ?_ (.refuse fun input kind => nomatch kind))
  refine .bind .next fun _ => .bind (.span _) fun text => .bind .next fun closing => ?_
  cases closing with
  | none => exact .refuseFrom _ (fun input kind => nomatch kind)
  | some c => exact .pure _

theorem sized_refuses_marker (begun : Begun width marked text)
    (other : marked.head? ≠ some radix.marker) :
    RefusesFor (scanSized radix) text
      (.unexpectedCharacter radix.marker marked.head? (Text.excerpt marked)) := by
  obtain ⟨middle, digits, tick⟩ := begun
  refine .phrase _ (.after (run_mark text) (.after digits (.after (symbol_eq_ok.mpr ⟨rfl, tick⟩) ?_)))
  refine .after (run_peek marked) ?_
  rw [if_neg other]
  exact .refuse _ marked

theorem sized_refuses_body (begun : Begun width (radix.marker :: body) text) (cause : Cause) :
    RefusesFor (scanSized radix) text cause ↔
      body.takeWhile radix.isDigit = [] ∧ cause = .emptyBody radix (Text.excerpt text) := by
  obtain ⟨middle, digits, tick⟩ := begun
  have marked : symbol '\'' middle = .ok '\'' (radix.marker :: body) := symbol_eq_ok.mpr ⟨rfl, tick⟩
  rw [scanSized, refusesFor_phrase]
  simp only [RefusesFor, bind_mark, bind_ok _ digits, bind_ok _ marked, bind_peek, List.head?_cons]
  by_cases empty : body.takeWhile radix.isDigit = []
  · simp [empty, eq_comm]
  · simp [empty]

/-- Where a tick is seen after the digits, the number is read in the radix that is named next to it,
    from the start of the digits. -/
theorem number_of_begun (begun : Begun width marked text) :
    scanNumber text = match marked.head?.bind Radix.ofMarker? with
      | some radix => scanSized radix text
      | none => refuseFrom ('\'' :: marked) (.unknownRadix (Text.describe marked.head?)) marked := by
  obtain ⟨middle, digits, tick⟩ := begun
  simp only [scanNumber, bind_mark, bind_ok _ digits, bind_facing, tick, List.head?_cons, BEq.rfl,
    if_true, bind_next, List.tail_cons, bind_peek]
  cases marked.head?.bind Radix.ofMarker? <;> rfl

theorem number_of_alone (digits : scanDigits text = .ok width middle)
    (absent : middle.visible? ≠ some '\'') :
    scanNumber text = .ok (.unsized width) (middle.dropWhile Text.isBlank) :=
  number_eq_ok.mpr (.inr ⟨width, middle, rfl, digits, absent, rfl⟩)

theorem marker_of_ofMarker? {c : Char} (found : Radix.ofMarker? c = some radix) : radix.marker = c := by
  have same := List.find?_some found
  exact beq_iff_eq.mp same

/-- Why a literal is refused for its radix, where a sized number is begun in the text. -/
inductive Stuck (text : Text) : Cause → Prop
  | unknown (width marked input : Text) : Begun width marked text →
      (∀ radix : Radix, marked.head? ≠ some radix.marker) →
      Stuck text (.unknownRadix (Text.describe marked.head?) input)
  | empty (width : Text) (radix : Radix) (body input : Text) :
      Begun width (radix.marker :: body) text → body.takeWhile radix.isDigit = [] →
      Stuck text (.emptyBody radix input)

theorem stuck_of_begun (begun : Begun width marked text) (refuses : RefusesFor scanNumber text cause) :
    Stuck text cause := by
  rw [RefusesFor, number_of_begun begun] at refuses
  cases named : marked.head?.bind Radix.ofMarker? with
  | none =>
    rw [named] at refuses
    obtain ⟨failure, left, refused, rfl⟩ := refuses
    cases refused
    refine .unknown width marked _ begun fun radix head => ?_
    rw [head, Option.bind_some, Radix.ofMarker?_marker] at named
    contradiction
  | some radix =>
    rw [named] at refuses
    obtain ⟨c, head, found⟩ := Option.bind_eq_some_iff.mp named
    rw [← marker_of_ofMarker? found] at head
    rw [List.eq_cons_of_mem_head? head] at begun
    obtain ⟨empty, rfl⟩ := (sized_refuses_body begun cause).mp refuses
    exact .empty width radix _ _ begun empty

theorem number_stuck (refuses : RefusesFor scanNumber text cause) (kind : cause.OfRadix) :
    Stuck text cause := by
  cases run : (scanDigits text : EStateM.Result Failure Text Text) with
  | error failure left =>
    have refused : scanNumber text = .error failure left := by
      rw [scanNumber, bind_mark]
      exact bind_eq_error.mpr (.inl run)
    obtain ⟨failure', left', refused', rfl⟩ := refuses
    rw [refused] at refused'
    cases refused'
    exact absurd kind (spares_digits (fun _ kind => by cases kind) (fun kind => by cases kind)
      ⟨failure, left, run, rfl⟩)
  | ok width middle =>
    by_cases tick : middle.visible? = some '\''
    · exact stuck_of_begun ⟨middle, run, List.eq_cons_of_mem_head? tick⟩ refuses
    · exact absurd (number_of_alone run tick) refuses.not_ok

theorem literal_stuck (refuses : RefusesFor scan text cause) (kind : cause.OfRadix) :
    Stuck text cause := by
  rw [scan, refusesFor_phrase] at refuses
  simp only [RefusesFor, bind_skipBlanks, bind_peek] at refuses
  cases seen : (text.dropWhile Text.isBlank).head? with
  | none =>
    rw [seen] at refuses
    obtain ⟨failure, left, refused, rfl⟩ := refuses
    cases refused
    contradiction
  | some c =>
    rw [seen] at refuses
    dsimp only at refuses
    by_cases quote : c = '"'
    · rw [if_pos quote] at refuses
      exact absurd kind (spares_string refuses)
    · rw [if_neg quote] at refuses
      by_cases digit : c.isDigit = true
      · rw [if_pos digit] at refuses
        have stuck : Stuck (text.dropWhile Text.isBlank) cause := number_stuck refuses kind
        cases stuck with
        | unknown width marked input begun other =>
          exact .unknown width marked input (begun_dropWhile.mp begun) other
        | empty width radix body input begun empty =>
          exact .empty width radix body input (begun_dropWhile.mp begun) empty
      · rw [if_neg digit] at refuses
        obtain ⟨failure, left, refused, rfl⟩ := refuses
        cases refused
        contradiction

end Refusals

section Lexing

theorem lex_radix_iff : (Rule.netlist (.basedImmediate radix)).lex text = .ok (rest, token) ↔
    (Rule.netlist .immediate).lex text = .ok (rest, token) ∧
      ∃ value left, scan text = .ok value left ∧ token = value.render ∧ value.radix? = some radix := by
  have asked : (Rule.netlist (.basedImmediate radix)).lex text = .ok (rest, token) ↔
      ∃ value left, scanSized radix text = .ok value left ∧ token = value.render ∧
        rest = left.dropWhile Text.isBlank := Rule.lex_netlist .literal rfl
  have seen : (Rule.netlist .immediate).lex text = .ok (rest, token) ↔
      ∃ value left, scan text = .ok value left ∧ token = value.render ∧
        rest = left.dropWhile Text.isBlank := Rule.lex_netlist .literal rfl
  rw [asked, seen]
  constructor
  · intro given
    obtain ⟨value, left, run, written, ended⟩ := given
    obtain ⟨run', same⟩ := sized_iff_literal.mp run
    exact ⟨⟨value, left, run', written, ended⟩, value, left, run', written, same⟩
  · intro given
    obtain ⟨⟨value, left, run, written, ended⟩, value', left', run', -, same⟩ := given
    obtain ⟨rfl, rfl⟩ := EStateM.Result.ok.inj (run.symm.trans run')
    exact ⟨value, left, sized_iff_literal.mpr ⟨run, same⟩, written, ended⟩

theorem lex_radix_refuses (refuses : RefusesFor (scanSized radix) text cause) :
    ∃ refusal, (Rule.netlist (.basedImmediate radix)).lex text = .error refusal ∧
      refusal.cause = cause :=
  Rule.lex_refuses.mpr (.map _ (.map _ refuses))

theorem stuck_of_lex {failure : Failure}
    (refused : (Rule.netlist .immediate).lex text = .error failure)
    (kind : failure.cause.OfRadix) : Stuck text failure.cause := by
  have refuses := Rule.lex_refuses.mp ⟨failure, refused, rfl⟩
  exact literal_stuck ((refusesFor_map _).mp ((refusesFor_map _).mp refuses)) kind

end Lexing

end Literal

/-- A number asked for in a radix is what is lexed as a literal, if that is a sized number of the
    radix. No text is a number of two radices. A text that is no literal is no number of any radix:
    where no radix is named next to the tick, each radix misses its marker there; where the digits
    are missing, so they are for the radix named, and the others miss their marker. -/
theorem radix_asked_or_seen :
    (∀ radix text rest token, (Rule.netlist (.basedImmediate radix)).lex text = .ok (rest, token) ↔
      (Rule.netlist .immediate).lex text = .ok (rest, token) ∧ ∃ value left,
        Literal.scan text = .ok value left ∧ token = value.render ∧ value.radix? = some radix) ∧
    (∀ text radix other found found',
      (Rule.netlist (.basedImmediate radix)).lex text = .ok found →
      (Rule.netlist (.basedImmediate other)).lex text = .ok found' → radix = other) ∧
    ∀ text failure, (Rule.netlist .immediate).lex text = .error failure →
      (∀ radix, ∃ refusal, (Rule.netlist (.basedImmediate radix)).lex text = .error refusal) ∧
      (∀ name input, failure.cause = .unknownRadix name input → ∃ found,
        name = Text.describe found ∧ ∀ radix : Radix, found ≠ some radix.marker ∧
          ∃ refusal quoted, (Rule.netlist (.basedImmediate radix)).lex text = .error refusal ∧
            refusal.cause = .unexpectedCharacter radix.marker found quoted) ∧
      ∀ radix input, failure.cause = .emptyBody radix input →
        (∃ refusal quoted, (Rule.netlist (.basedImmediate radix)).lex text = .error refusal ∧
          refusal.cause = .emptyBody radix quoted) ∧
        ∀ other ≠ radix, ∃ refusal quoted,
          (Rule.netlist (.basedImmediate other)).lex text = .error refusal ∧
            refusal.cause = .unexpectedCharacter other.marker (some radix.marker) quoted := by
  refine ⟨fun radix text rest token => Literal.lex_radix_iff, ?_, ?_⟩
  · intro text radix other found found' lexed lexed'
    obtain ⟨-, value, left, run, -, same⟩ := Literal.lex_radix_iff.mp lexed
    obtain ⟨-, value', left', run', -, same'⟩ := Literal.lex_radix_iff.mp lexed'
    obtain ⟨rfl, -⟩ := EStateM.Result.ok.inj (run.symm.trans run')
    exact Option.some.inj (same.symm.trans same')
  · intro text failure refused
    refine ⟨fun radix => ?_, fun name input told => ?_, fun radix input told => ?_⟩
    · cases lexed : (Rule.netlist (.basedImmediate radix)).lex text with
      | error refusal => exact ⟨refusal, rfl⟩
      | ok found =>
        have literal := (Literal.lex_radix_iff.mp lexed).1
        rw [refused] at literal
        contradiction
    · have stuck := Literal.stuck_of_lex refused (told ▸ .unknown name input)
      rw [told] at stuck
      cases stuck with
      | unknown width marked input begun other =>
        refine ⟨marked.head?, rfl, fun radix => ⟨other radix, ?_⟩⟩
        obtain ⟨refusal, refused', same⟩ :=
          Literal.lex_radix_refuses (Literal.sized_refuses_marker begun (other radix))
        exact ⟨refusal, _, refused', same⟩
    · have stuck := Literal.stuck_of_lex refused (told ▸ .empty radix input)
      rw [told] at stuck
      cases stuck with
      | empty width radix body input begun empty =>
        constructor
        · obtain ⟨refusal, refused', same⟩ := Literal.lex_radix_refuses
            ((Literal.sized_refuses_body begun _).mpr ⟨empty, rfl⟩)
          exact ⟨refusal, _, refused', same⟩
        · intro other apart
          have marker : some radix.marker ≠ some other.marker :=
            fun same => apart (Radix.marker_injective (Option.some.inj same)).symm
          obtain ⟨refusal, refused', same⟩ :=
            Literal.lex_radix_refuses (Literal.sized_refuses_marker begun marker)
          exact ⟨refusal, _, refused', same⟩

theorem radix_asked_or_seen_octal :
    (Rule.netlist (.basedImmediate .octal)).lex "12 'o178;".toList =
        .ok ("8;".toList, "12'o17".toList) ∧
      (∀ found, (Rule.netlist (.basedImmediate .hex)).lex "12 'o178;".toList ≠ .ok found) ∧
      (∃ found, "'x'".toList = Text.describe found ∧ ∀ radix : Radix,
        found ≠ some radix.marker ∧ ∃ refusal quoted,
          (Rule.netlist (.basedImmediate radix)).lex "4'x1".toList = .error refusal ∧
            refusal.cause = .unexpectedCharacter radix.marker found quoted) ∧
      ∃ refusal quoted, (Rule.netlist (.basedImmediate .binary)).lex " 8'hz".toList = .error refusal ∧
        refusal.cause = .unexpectedCharacter 'b' (some 'h') quoted := by
  obtain ⟨asked, unique, refused⟩ := radix_asked_or_seen
  have octal : (Rule.netlist (.basedImmediate .octal)).lex "12 'o178;".toList =
      .ok ("8;".toList, "12'o17".toList) :=
    (asked .octal _ _ _).mpr ⟨rfl, .sized "12".toList .octal "17".toList, "8;".toList, rfl, rfl, rfl⟩
  refine ⟨octal, fun found lexed => ?_, ?_, ?_⟩
  · exact absurd (unique _ _ _ _ _ octal lexed) (by decide)
  · obtain ⟨-, unknown, -⟩ := refused "4'x1".toList _ rfl
    exact unknown _ _ rfl
  · obtain ⟨-, -, empty⟩ := refused " 8'hz".toList _ rfl
    exact (empty .hex _ rfl).2 .binary (by decide)

end Netlist

end NetTrace
