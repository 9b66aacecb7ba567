import Mathlib.Data.UInt
import NetTrace.Proofs.Lexing.Rules
import NetTrace.Proofs.Netlist.Numbers
import NetTrace.Proofs.Scan.Causes

namespace NetTrace.Netlist

open Text (Blanks Lexeme Stops)
open Scan

variable {a b n : Nat} {text rest digits front whole : Text} {bounds : Bounds} {range other : BitRange}

/-- Brackets around two naturals and a colon, or around one natural that is both bounds. -/
inductive Bounds.Written : Nat → Nat → Text → Prop
  | index {a opened text closed} : Lexeme ['['] opened → Numbered a text → Lexeme [']'] closed →
      Written a a (opened ++ text ++ closed)
  | range {a b opened text colon text' closed} : Lexeme ['['] opened → Numbered a text →
      Lexeme [':'] colon → Numbered b text' → Lexeme [']'] closed →
      Written a b (opened ++ text ++ colon ++ text' ++ closed)

structure BitRange.Between (a b : Nat) (range : BitRange) : Prop where
  high : range.high.toNat = max a b
  low : range.low.toNat = min a b
  width : range.width.toNat = max a b - min a b + 1

theorem Numbered.decimal (zeros n : Nat) :
    Numbered n (List.replicate zeros '0' ++ Numeral.decimal n) := by
  refine ⟨_, ⟨?_, fun c member => ?_⟩, ?_, .self _⟩
  · exact List.append_ne_nil_of_right_ne_nil _ (Numeral.decimal_ne_nil n)
  · rcases List.mem_append.mp member with zero | digit
    · rw [List.eq_of_mem_replicate zero]
      rfl
    · exact Numeral.isDigit_of_mem_decimal digit
  · rw [Numeral.positional_zeros, ← (run_decimal n).decimal_value_eq, Numeral.value_decimal]

section Bounds

theorem Numbered.bound (numbered : Numbered n text) (fits : n < 2 ^ 32) :
    Bound (UInt32.ofNat n) text := by
  rw [Bound, UInt32.toNat_ofNat_of_lt' fits]
  exact numbered

theorem Bounds.Written.spelled (written : Bounds.Written a b text) (fits : a < 2 ^ 32)
    (fits' : b < 2 ^ 32) : Bounds.Spelled ⟨UInt32.ofNat a, UInt32.ofNat b⟩ text := by
  cases written with
  | index lexeme numbered lexeme' => exact .index lexeme (numbered.bound fits) lexeme'
  | range lexeme numbered colon numbered' lexeme' =>
    exact .range lexeme (numbered.bound fits) colon (numbered'.bound fits') lexeme'

theorem Bounds.Written.stops (written : Bounds.Written a b text) (rest : Text) :
    Stops Name.continues (text ++ rest) := by
  cases written with
  | index lexeme => simpa only [List.append_assoc] using stops_lexeme lexeme (by decide) _
  | range lexeme => simpa only [List.append_assoc] using stops_lexeme lexeme (by decide) _

end Bounds

section Ranges

theorem BitRange.Between.unique (between : range.Between a b) (between' : other.Between a b) :
    range = other := by
  obtain ⟨high, low⟩ := range
  obtain ⟨high', low'⟩ := other
  obtain rfl := UInt32.toNat_inj.mp (between.high.trans between'.high.symm)
  obtain rfl := UInt32.toNat_inj.mp (between.low.trans between'.low.symm)
  rfl

theorem BitRange.Between.symm (between : range.Between a b) : range.Between b a := by
  obtain ⟨high, low, width⟩ := between
  rw [Nat.max_comm, Nat.min_comm] at *
  exact ⟨high, low, width⟩

theorem BitRange.between_ofBounds (bounds : Bounds) :
    (BitRange.ofBounds bounds).Between bounds.first.toNat bounds.second.toNat := by
  obtain ⟨first, second⟩ := bounds
  have high : (max first second).toNat = max first.toNat second.toNat := UInt32.toNat_max ..
  have low : (min first second).toNat = min first.toNat second.toNat := UInt32.toNat_min ..
  refine ⟨high, low, ?_⟩
  have ordered : min first second ≤ max first second := by
    rw [UInt32.le_iff_toNat_le, high, low]
    omega
  have bound := (max first second).toNat_lt
  have difference := UInt32.toNat_sub_of_le _ _ ordered
  simp only [BitRange.width, BitRange.ofBounds, BitRange.between, UInt64.toNat_add,
    UInt32.toNat_toUInt64, difference, UInt64.toNat_one]
  omega

theorem BitRange.between_ofNat (fits : a < 2 ^ 32) (fits' : b < 2 ^ 32) :
    (BitRange.ofBounds ⟨UInt32.ofNat a, UInt32.ofNat b⟩).Between a b := by
  have between := between_ofBounds ⟨UInt32.ofNat a, UInt32.ofNat b⟩
  rwa [UInt32.toNat_ofNat_of_lt' fits, UInt32.toNat_ofNat_of_lt' fits'] at between

theorem bitRange_of_spelled {blanks : Text} (spells : bounds.Spelled text) (blank : Blanks blanks) :
    Token.bitRange (text ++ blanks) = .ok (BitRange.ofBounds bounds) :=
  map_complete _ (complete_of_spelled "BitRange" takes_bounds spells trivial blank)

theorem bitRange_bounds (bounds : Bounds) :
    Token.bitRange bounds.render = .ok (BitRange.ofBounds bounds) := by
  have read := bitRange_of_spelled (spelled_bounds bounds) .nil
  rwa [List.append_nil] at read

theorem bitRange_render (between : range.Between a b) : Token.bitRange range.render = .ok range := by
  have same : BitRange.ofBounds ⟨range.high, range.low⟩ = range := by
    refine (BitRange.between_ofBounds _).unique ⟨?_, ?_, ?_⟩
    · rw [between.high, between.low]
      omega
    · rw [between.high, between.low]
      omega
    · rw [between.width, between.high, between.low]
      omega
  exact (bitRange_bounds _).trans (congrArg Except.ok same)

end Ranges

section Refusals

theorem bound_refuses {start middle : Text} (run : Literal.scanDigits text = .ok digits middle)
    (large : 2 ^ 32 ≤ Numeral.value 10 digits) : RefusesFor (Bounds.scanBound start) text
      (.malformedRange "bound out of range" (Text.excerpt start)) := by
  refine .after (outcome_ok run) ?_
  have unfit : Numeral.word32? 10 digits = none := if_neg (Nat.not_lt.mpr large)
  simp only [unfit]
  exact ⟨_, middle, rfl, rfl⟩

theorem Numbered.taken (numbered : Numbered n front) (stops : Stops Name.continues rest) :
    ∃ digits, Literal.scanDigits (front ++ rest) = .ok digits rest ∧ Numeral.value 10 digits = n := by
  obtain ⟨digits, run, rfl, lexeme⟩ := numbered
  exact ⟨digits, digits_eq_ok.mpr ⟨seen_digits run lexeme (.refl _), run, stops_digit stops⟩,
    run.decimal_value_eq⟩

theorem Bounds.Written.seen (written : Bounds.Written a b text) (rest : Text) :
    ∃ front more, (text ++ rest).dropWhile Text.isBlank = '[' :: (front ++ more) ∧
      Numbered a front ∧ Stops Name.continues more ∧
      (a = b ∨ ∃ front' more', more.dropWhile Text.isBlank = ':' :: (front' ++ more') ∧
        Numbered b front' ∧ Stops Name.continues more') := by
  cases written with
  | @index opened text closed lexeme numbered lexeme' =>
    have bracket := lexeme.seen (by decide) (.refl (opened ++ (text ++ (closed ++ rest))))
    simp only [List.append_assoc]
    exact ⟨text, _, bracket, numbered, stops_lexeme lexeme' (by decide) _, .inl trivial⟩
  | @range b opened text colon text' closed lexeme numbered lexeme' numbered' lexeme'' =>
    have bracket := lexeme.seen (by decide)
      (.refl (opened ++ (text ++ (colon ++ (text' ++ (closed ++ rest))))))
    have colon' := lexeme'.seen (by decide) (.refl (colon ++ (text' ++ (closed ++ rest))))
    simp only [List.append_assoc]
    exact ⟨text, _, bracket, numbered, stops_lexeme lexeme' (by decide) _, .inr
      ⟨text', _, colon', numbered', stops_lexeme lexeme'' (by decide) _⟩⟩

theorem bounds_refuse (written : Bounds.Written a b text) (large : 2 ^ 32 ≤ max a b) (rest : Text) :
    RefusesFor Bounds.scan (text ++ rest)
      (.malformedRange "bound out of range" (Text.excerpt ((text ++ rest).dropWhile Text.isBlank))) := by
  obtain ⟨front, more, bracket, numbered, stops, second⟩ := written.seen rest
  obtain ⟨digits, run, value⟩ := numbered.taken stops
  have passed : Bounds.scanBracket ((text ++ rest).dropWhile Text.isBlank) '[' "missing '['"
      ((text ++ rest).dropWhile Text.isBlank) = .ok () (front ++ more) :=
    bracket_eq_ok.mpr ((Text.dropWhile_dropWhile _ _).trans bracket)
  refine .phrase _ (.after (run_skipBlanks _) (.after (run_mark _) (.after passed ?_)))
  by_cases fits : a < 2 ^ 32
  · -- The first bound is passed, so there is a second one.
    rcases second with rfl | ⟨front', more', colon, numbered', stops'⟩
    · omega
    · obtain ⟨digits', run', value'⟩ := numbered'.taken stops'
      have first : Bound.Taken (UInt32.ofNat a) (front ++ more) more :=
        ⟨digits, run, by rw [value, UInt32.toNat_ofNat_of_lt' fits]⟩
      refine .after (bound_eq_ok.mpr first) (.after (run_facing ':' more) ?_)
      rw [Text.visible?_cons colon, colon, beq_self_eq_true, if_pos rfl]
      exact .after (run_next _) (.bind (bound_refuses run' (by omega)))
  · exact .bind (bound_refuses run (by omega))

theorem selection_of_refuses {name after : Text} {cause : Cause} (named : Name.Spelled name front)
    (stops : Stops Name.continues after) (refuses : RefusesFor Bounds.scan after cause) :
    Name.scan (front ++ after) = .ok name after ∧
      Selection.scan (front ++ after) = .ok ⟨name, none⟩ after := by
  have run : Name.scan (front ++ after) = .ok name after :=
    name_eq_ok.mpr ⟨seen_name named (.refl _), named.1.imp (fun simple => ⟨simple, stops⟩) id⟩
  exact ⟨run, selection_alone run fun _ _ => refuses.not_ok⟩

end Refusals

/-- A range whose bounds fit 32 bits is lexed whatever follows it. It is the range between its bounds,
    whether it is taken apart as written, from its token, with the bounds the other way round or from
    its own written form. A range with a larger bound is refused for it and leaves the text as it was.
    After a name it is left, and the name is lexed as it is without it. -/
theorem ranges_normalize (a b : Nat) (text : Text) (written : Bounds.Written a b text) :
    (a < 2 ^ 32 → b < 2 ^ 32 → ∃ range : BitRange, range.Between a b ∧
      (∀ rest, ∃ token, (Rule.netlist .bitRange).lex (text ++ rest) =
        .ok (rest.dropWhile Text.isBlank, token) ∧ Token.bitRange token = .ok range) ∧
      (∀ blanks, Blanks blanks → Token.bitRange (text ++ blanks) = .ok range) ∧
      (∀ swapped blanks, Bounds.Written b a swapped → Blanks blanks →
        Token.bitRange (swapped ++ blanks) = .ok range) ∧
      Token.bitRange range.render = .ok range) ∧
    (2 ^ 32 ≤ max a b → ∀ rest,
      (∃ failure, (Rule.netlist .bitRange).token (text ++ rest) = .error failure (text ++ rest) ∧
        failure.cause = .malformedRange "bound out of range"
          (Text.excerpt ((text ++ rest).dropWhile Text.isBlank))) ∧
      ∀ name front, Name.Spelled name front →
        (∀ rule ∈ [Rule.netlist .identifier, .netlist .connectedElement, .signalKey],
          rule.lex (front ++ (text ++ rest)) = .ok ((text ++ rest).dropWhile Text.isBlank, name)) ∧
        Token.descriptor (front ++ (text ++ rest)) = .error (.incomplete (front ++ (text ++ rest))
          "Identifier" ((text ++ rest).dropWhile Text.isBlank))) := by
  constructor
  · intro fits fits'
    have spells := written.spelled fits fits'
    have between := BitRange.between_ofNat fits fits'
    refine ⟨_, between, fun rest => ?_, fun blanks => bitRange_of_spelled spells, ?_,
      bitRange_render between⟩
    · obtain ⟨left, run, same⟩ := takes_bounds spells trivial (.refl (text ++ rest))
      have read : Phrase.bitRange.read (text ++ rest) = .ok (.bounds _) left := map_ok _ run
      exact ⟨_, lex_of_read read same.alike, bitRange_bounds _⟩
    · intro swapped blanks written' blank
      have between' := (BitRange.between_ofNat fits' fits).symm
      rw [between.unique between']
      exact bitRange_of_spelled (written'.spelled fits' fits) blank
  · intro large rest
    have refuses := bounds_refuse written large rest
    refine ⟨?_, fun name front named => ?_⟩
    · obtain ⟨failure, left, refused, cause⟩ :
          RefusesFor (Rule.netlist .bitRange).token (text ++ rest) _ := .bind (.map _ (.map _ refuses))
      obtain rfl := Rule.restores_token _ refused
      exact ⟨failure, refused, cause⟩
    · obtain ⟨run, run'⟩ := selection_of_refuses named (written.stops rest) refuses
      have operand := operand_eq_ok.mpr (.inr (.inr ⟨_, run', rfl⟩))
      have read : Phrase.identifier.read (front ++ (text ++ rest)) = .ok (.word name) _ :=
        map_ok _ run
      have read' : Phrase.connectedElement.read (front ++ (text ++ rest)) =
        .ok (.operand (.net ⟨name, none⟩)) _ := map_ok _ operand
      refine ⟨?_, ?_⟩
      · simp only [List.forall_mem_cons]
        refine ⟨?_, ?_, ?_, List.forall_mem_nil _⟩
        · exact lex_of_read read rfl
        · exact lex_of_read read' rfl
        · exact Rule.lex_iff_read.mpr ⟨_, map_ok _ run', rfl⟩
      · obtain ⟨digits, more, bracket, -⟩ := written.seen rest
        have visible : (text ++ rest).dropWhile Text.isBlank ≠ [] := by
          rw [bracket]
          exact List.cons_ne_nil _ _
        simp only [Token.descriptor, NetTrace.Token.complete, run', if_neg visible, Functor.map,
          Except.map]

theorem ranges_normalize_widest :
    Bounds.Written 0 4294967295 "[0: 04294967295 ]".toList ∧
      (∃ range, Token.bitRange "[0: 04294967295 ]".toList = .ok range ∧
        range.width.toNat = 2 ^ 32 ∧ Token.bitRange "[4294967295:0]".toList = .ok range) ∧
      Bounds.Written 4294967296 4294967296 " [4294967296]".toList ∧
      (Rule.netlist .connectedElement).lex "x [4294967296];".toList =
        .ok ("[4294967296];".toList, "x".toList) := by
  have space : Blanks [' '] := by decide
  have zero : Numbered 0 "0".toList := .decimal 0 0
  have widest : Numbered 4294967295 " 04294967295".toList :=
    ⟨"04294967295".toList, by decide, by decide, [' '], space, rfl⟩
  have widest' : Numbered 4294967295 "4294967295".toList := .decimal 0 _
  have large : Numbered 4294967296 "4294967296".toList := .decimal 0 _
  have written : Bounds.Written 0 4294967295 "[0: 04294967295 ]".toList :=
    .range (.self ['[']) zero (.self [':']) widest ⟨[' '], space, rfl⟩
  have swapped : Bounds.Written 4294967295 0 "[4294967295:0]".toList :=
    .range (.self ['[']) widest' (.self [':']) zero (.self [']'])
  have wide : Bounds.Written 4294967296 4294967296 " [4294967296]".toList :=
    .index ⟨[' '], space, rfl⟩ large (.self [']'])
  have name : Name.Spelled ['x'] ['x'] := ⟨.inl ⟨'x', [], rfl, rfl, List.forall_mem_nil _⟩, .self _⟩
  obtain ⟨range, between, -, whole, turned, -⟩ :=
    (ranges_normalize _ _ _ written).1 (by decide) (by decide)
  obtain ⟨-, alone⟩ := (ranges_normalize _ _ _ wide).2 (by decide) [';']
  exact ⟨written, ⟨range, whole [] .nil, between.width, turned _ [] swapped .nil⟩, wide,
    (alone _ _ name).1 _ (by decide)⟩

end NetTrace.Netlist
