import NetTrace.Proofs.Input.Pending
import NetTrace.Proofs.Vcd.Sentences
import NetTrace.Vcd.Header

namespace NetTrace

open Scan

namespace Vcd.Header

/-- The variables that a header declares, told by its words. A command starts with a keyword and
    ends with the first `$end` after it. -/
def ofWords : List Text → Except Failure (List Variable)
  | [] => return []
  | keyword :: words =>
    if keyword ∈ Command.declarationKeywords ∧ Word.endTag ∈ words then
      let command := keyword :: words.takeWhile (· ≠ Word.endTag) ++ [Word.endTag]
      let others := (words.dropWhile (· ≠ Word.endTag)).tail
      if keyword = "$var".toList then do
        let declared ← Token.declaration (List.intercalate [' '] command)
        return declared :: (← ofWords others)
      else if keyword = "$enddefinitions".toList then return []
      else ofWords others
    else return []
termination_by words => words.length
decreasing_by
  all_goals
    have shorter := (List.dropWhile_sublist (· ≠ Word.endTag) (l := words)).length_le
    simp only [List.length_tail, List.length_cons] at shorter ⊢
    omega

variable {text : Text} {words others : List Text} {keyword command : Text} {body : List Text}

theorem starts_iff (member : keyword ∈ Command.declarationKeywords) (tail : Text) :
    ("$var ".toList.isPrefixOf (keyword ++ ' ' :: tail) ↔ keyword = "$var".toList) ∧
      ("$enddefinitions".toList.isPrefixOf (keyword ++ ' ' :: tail) ↔
        keyword = "$enddefinitions".toList) := by
  simp only [Command.declarationKeywords, List.mem_cons, List.not_mem_nil, or_false] at member
  rcases member with rfl | rfl | rfl | rfl | rfl | rfl | rfl | rfl <;>
    exact ⟨by simp, by simp⟩

theorem split_of_closes (closes : Closes body) (others : List Text) :
    Word.endTag ∈ body ++ others ∧
      (body ++ others).takeWhile (· ≠ Word.endTag) ++ [Word.endTag] = body ∧
      ((body ++ others).dropWhile (· ≠ Word.endTag)).tail = others := by
  obtain ⟨before, rfl, absent⟩ := closes
  have all : ∀ word ∈ before, decide (word ≠ Word.endTag) = true := fun word member =>
    decide_eq_true (ne_of_mem_of_not_mem member absent)
  refine ⟨by simp, ?_, ?_⟩
  · rw [List.append_assoc, List.takeWhile_append_of_pos all]
    simp
  · rw [List.append_assoc, List.dropWhile_append_of_pos all]
    simp

theorem ofWords_command (member : keyword ∈ Command.declarationKeywords) (closes : Closes body)
    (others : List Text) : ofWords (keyword :: body ++ others) =
      if keyword = "$var".toList then do
        let declared ← Token.declaration (List.intercalate [' '] (keyword :: body))
        return declared :: (← ofWords others)
      else if keyword = "$enddefinitions".toList then return []
      else ofWords others := by
  obtain ⟨closed, front, rest⟩ := split_of_closes closes others
  rw [List.cons_append, ofWords, if_pos ⟨member, closed⟩]
  simp only [List.cons_append, front, rest]

theorem ofWords_stop
    (absent : ∀ command others, ¬ CommandOf Command.declarationKeywords words command others) :
    ofWords words = .ok [] := by
  cases words with
  | nil =>
    rw [ofWords]
    rfl
  | cons keyword words =>
    rw [ofWords, if_neg]
    · rfl
    · rintro ⟨member, closed⟩
      obtain ⟨before, others, rfl, first⟩ := List.eq_append_cons_of_mem closed
      refine absent _ others ⟨keyword, before ++ [Word.endTag], member, ⟨before, rfl, first⟩, ?_, rfl⟩
      simp

theorem lex_declaration (text : Text) :
    (∃ keyword body rest, Rule.lex (.vcd .declarationCommand) text =
      .ok (rest, List.intercalate [' '] (keyword :: body)) ∧
        keyword ∈ Command.declarationKeywords ∧ Closes body ∧
        text.words = keyword :: body ++ rest.words ∧
        ∃ passed, text = passed ++ rest ∧ 0 < passed.length) ∨
    ((∃ failure, Rule.lex (.vcd .declarationCommand) text = .error failure) ∧
      ∀ command others, ¬ CommandOf Command.declarationKeywords text.words command others) := by
  have reads : ByWords (Rule.token (.vcd .declarationCommand)) _ := Rule.byWords_token byWords_declaration
  have passes : Passes 1 (Rule.token (.vcd .declarationCommand) : Scan Text Text) :=
    passes_declaration.bind fun token => .andThen .skipBlanks fun _ => .pure _
  cases result : Rule.lex (.vcd .declarationCommand) text with
  | ok found =>
    have runs := Rule.lex_eq_ok.mp result
    obtain ⟨keyword, body, member, closes, split, joined⟩ := reads.words runs
    exact .inl ⟨keyword, body, found.1, by rw [← joined], member, closes, split, passes runs⟩
  | error failure =>
    obtain ⟨rest, refused⟩ := Rule.lex_eq_error.mp result
    exact .inr ⟨⟨failure, rfl⟩, reads.none_of_refused refused⟩

theorem scanUpTo_eq_ofWords {bytes : List UInt8} {total limit : Nat} {stream : Stream}
    (shows : (Stream.view bytes total).Shows stream text)
    (plain : stream.Under (Stream.Awaits none))
    (above : text.length < limit) : scanUpTo limit stream = ofWords text.words := by
  -- By induction on the limit: a command that is read leaves less of the text.
  induction limit generalizing stream text with
  | zero => omega
  | succ limit ih =>
    have kept := plain.lex (Stream.lasting_awaits none) (.vcd .declarationCommand)
    rcases Stream.lex_cases (.vcd .declarationCommand) shows with
      ⟨command, later, rest, given, expected, after⟩ | ⟨failure, reason, later, given, expected, -, -⟩
    · rw [given] at kept
      rcases lex_declaration text with
        ⟨keyword, body, rest', found, member, closes, split, passed, rfl, some⟩ |
          ⟨⟨failure, found⟩, -⟩
      · rw [expected] at found
        obtain ⟨rfl, rfl⟩ := Prod.mk.inj (Except.ok.inj found)
        rw [List.length_append] at above
        obtain ⟨var, closing⟩ := starts_iff member (List.intercalate [' '] body)
        rw [joined_cons closes] at var closing
        rw [scanUpTo_ok given, split, ofWords_command member closes, ih after kept (by omega)]
        simp only [var, closing]
      · rw [expected] at found
        contradiction
    · rw [given] at kept
      rcases lex_declaration text with ⟨keyword, body, rest', found, -⟩ | ⟨-, absent⟩
      · rw [expected] at found
        contradiction
      · have unread : later.failure = none := kept.elim And.right And.right
        rw [scanUpTo_error given, ofWords_stop absent, Stream.checkFailure, Stream.takeFailure, unread]
        rfl

/-- However its bytes arrive, a header declares what its words tell. -/
theorem scan_eq_ofWords (source : Source) (lasting : source.failure? = none) :
    scan source = ofWords (Utf8.decode source.bytes).words := by
  have plain : (Stream.ofSource source).Under (Stream.Awaits none) := .inl ⟨lasting, rfl⟩
  have shorter := Utf8.length_decode_le source.bytes
  rw [← Source.size_eq_length_bytes] at shorter
  exact scanUpTo_eq_ofWords (Stream.placed_self (Stream.ofSource source)) plain
    (Nat.lt_succ_of_le shorter)

theorem scan_eq_ofWords_split :
    let source : Source := [.chunk "$date\nnow $end $var wi".toUTF8.data, .interrupted,
      .chunk "re 8 ! a [7:0] $end\t$enddefinitions $end $var".toUTF8.data]
    source.failure? = none ∧ ofWords (Utf8.decode source.bytes).words =
      .ok [{ type := .wire, width := 8, code := "!".toList, name := "a[7:0]".toList }] := by
  intro source
  have lasting : source.failure? = none := by decide
  have scanned : scan source =
      .ok [{ type := .wire, width := 8, code := "!".toList, name := "a[7:0]".toList }] := by
    decide +kernel
  exact ⟨lasting, (scan_eq_ofWords source lasting).symm.trans scanned⟩

end Vcd.Header

end NetTrace
