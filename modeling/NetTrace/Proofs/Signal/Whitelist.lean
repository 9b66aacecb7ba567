import NetTrace.Proofs.Lexing.Progress
import NetTrace.Proofs.Lexing.Reports
import NetTrace.Signal.Whitelist

namespace NetTrace.Signal

open Scan

variable {bytes : List UInt8} {total limit : Nat} {text : Text} {stream later : Stream} {reason : String}
  {source : Source}

theorem passes_key : Passes 1 (Rule.signalKey.token : Scan Text Text) :=
  Rule.passes_token (by decide) (by decide)

section Steps

theorem keysUpTo_step (limit : Nat) (stream : Stream) :
    (∃ seen : Stream, keysUpTo (limit + 1) stream = (do
      seen.checkFailure.1
      return [])) ∨
    (∃ (seen : Stream) (key : Text) (later : Stream), seen.lex .signalKey = (.ok key, later) ∧
      keysUpTo (limit + 1) stream = (do return key :: (← keysUpTo limit later))) ∨
    ∃ (seen : Stream) (failure : Failure) (later : Stream), seen.lex .signalKey = (.error failure, later) ∧
      keysUpTo (limit + 1) stream = (do
        later.checkFailure.1
        throw failure) := by
  cases ended : stream.isExhausted with
  | mk exhausted seen =>
    cases exhausted with
    | true => exact .inl ⟨seen, keysUpTo_ended limit ended⟩
    | false =>
      cases lexed : seen.lex .signalKey with
      | mk result later =>
        cases result with
        | ok key => exact .inr (.inl ⟨seen, key, later, lexed, keysUpTo_ok limit ended lexed⟩)
        | error failure =>
          exact .inr (.inr ⟨seen, failure, later, lexed, keysUpTo_error limit ended lexed⟩)

theorem keysUpTo_nil (limit : Nat) (shows : (Stream.view bytes total).Shows stream []) :
    keysUpTo (limit + 1) stream = (do
      stream.peek.2.checkFailure.1
      return []) := by
  have head : stream.peek.1 = none := (Stream.faithful_view bytes total).head_peek shows
  have peeked : stream.isExhausted = (true, stream.peek.2) := by
    show (stream.peek.1.isNone, stream.peek.2) = _
    rw [head]
    rfl
  exact keysUpTo_ended limit peeked

theorem keysUpTo_some (shows : (Stream.view bytes total).Shows stream text) (some : text ≠ []) :
    (∃ key left later, Rule.lex .signalKey text = .ok (left, key) ∧
      (Stream.view bytes total).Shows later left ∧
      (∀ {condition}, Stream.Lasting condition → stream.Under condition → later.Under condition) ∧
      ∀ limit, keysUpTo (limit + 1) stream = (do return key :: (← keysUpTo limit later))) ∨
    ∃ refusal failure, Rule.lex .signalKey text = .error refusal ∧
      (stream.Under (Stream.Awaits none) → failure.unquoted = refusal.unquoted) ∧
      ∀ limit, keysUpTo (limit + 1) stream = .error failure := by
  have faithful := Stream.faithful_view bytes total
  have head : stream.peek.1 = text.head? := faithful.head_peek shows
  have seen : (Stream.view bytes total).Shows stream.peek.2 text := (faithful.after_peek shows).shows
  obtain ⟨c, others, rfl⟩ := List.exists_cons_of_ne_nil some
  have peeked : stream.isExhausted = (false, stream.peek.2) := by
    show (stream.peek.1.isNone, stream.peek.2) = _
    rw [head]
    rfl
  rcases Stream.lex_cases .signalKey seen with ⟨key, later, rest, lexed, expected, after⟩ |
    ⟨failure, refusal, later, lexed, expected, same, -⟩
  · refine .inl ⟨key, rest, later, expected, after, ?_, fun limit => keysUpTo_ok limit peeked lexed⟩
    intro condition lasting under
    have kept := (under.peek lasting).lex lasting .signalKey
    rwa [lexed] at kept
  · have given := fun limit => keysUpTo_error limit peeked lexed
    cases checked : later.checkFailure.1 with
    | ok _ => exact .inr ⟨refusal, failure, expected, fun _ => same, fun limit => by
        rw [given, checked]; rfl⟩
    | error told =>
      refine .inr ⟨refusal, told, expected, fun plain => ?_, fun limit => by rw [given, checked]; rfl⟩
      -- A stream that does not fail has no failure to tell.
      have lasting := Stream.lasting_awaits none
      have kept := (plain.peek lasting).lex lasting .signalKey
      rw [lexed] at kept
      have unread : later.failure = none := kept.elim And.right And.right
      rw [Stream.checkFailure, Stream.takeFailure, unread] at checked
      contradiction

end Steps

theorem keysUpTo_failed (limit : Nat) (shows : (Stream.view bytes total).Shows stream [])
    (awaits : stream.Under (Stream.Awaits (some reason))) :
    keysUpTo (limit + 1) stream = .error { cause := .readFailure reason } := by
  have absent : stream.peek.1 = none := (Stream.faithful_view bytes total).head_peek shows
  obtain ⟨told, -⟩ := (Stream.met_peek awaits absent).check_met
  rw [keysUpTo_nil limit shows, told]
  rfl

theorem keysUpTo_ne_ok (shows : (Stream.view bytes total).Shows stream text)
    (awaits : stream.Under (Stream.Awaits (some reason))) (above : text.length < limit)
    (found : List Text) : keysUpTo limit stream ≠ .ok found := by
  -- By induction on the limit: a key that is read leaves less of the text.
  induction limit generalizing stream text found with
  | zero => omega
  | succ limit ih =>
    intro scanned
    by_cases ended : text = []
    · subst ended
      rw [keysUpTo_failed limit shows awaits] at scanned
      contradiction
    · rcases keysUpTo_some shows ended with ⟨key, left, next, lexed, after, kept, given⟩ |
        ⟨refusal, failure, -, -, given⟩
      · have shorter := passes_key.length (Rule.lex_eq_ok.mp lexed)
        have others := ih after (kept (Stream.lasting_awaits _) awaits) (by omega)
        rw [given] at scanned
        cases rest : keysUpTo limit next with
        | ok keys => exact others keys rest
        | error failure =>
          rw [rest] at scanned
          contradiction
      · rw [given] at scanned
        contradiction

theorem keysUpTo_of_ok {limit' : Nat} {found : List Text}
    (shows : (Stream.view bytes total).Shows stream text)
    (awaits : stream.Under (Stream.Awaits (some reason))) (above : text.length < limit)
    (shows' : (Stream.view bytes total).Shows later text) (above' : text.length < limit')
    (scanned : keysUpTo limit' later = .ok found) :
    keysUpTo limit stream = .error { cause := .readFailure reason } := by
  -- By induction on the limit: both streams give the same key and show the same text after it.
  induction limit generalizing stream later text found limit' with
  | zero => omega
  | succ limit ih =>
    by_cases ended : text = []
    · subst ended
      exact keysUpTo_failed limit shows awaits
    · obtain ⟨less, rfl⟩ : ∃ less, limit' = less + 1 := ⟨limit' - 1, by omega⟩
      rcases keysUpTo_some shows' ended with ⟨key, left, next, lexed, after, -, given⟩ |
        ⟨refusal, failure, -, -, given⟩
      · rcases keysUpTo_some shows ended with
          ⟨key', left', next', lexed', after', kept, given'⟩ | ⟨refusal, failure, lexed', -⟩
        · rw [lexed] at lexed'
          obtain ⟨rfl, rfl⟩ := Prod.mk.inj (Except.ok.inj lexed')
          have shorter := passes_key.length (Rule.lex_eq_ok.mp lexed)
          rw [given] at scanned
          cases rest : keysUpTo less next with
          | ok keys =>
            have told := ih after' (kept (Stream.lasting_awaits _) awaits) (by omega) after (by omega) rest
            rw [given', told]
            rfl
          | error failure =>
            rw [rest] at scanned
            contradiction
        · rw [lexed] at lexed'
          contradiction
      · rw [given] at scanned
        contradiction

theorem shows_keys (source : Source) :
    (Stream.view source.bytes source.bytes.length).Shows (Stream.ofSource source).skipBlanks.2
      ((Utf8.decode source.bytes).dropWhile Text.isBlank) := by
  have faithful := Stream.faithful_view source.bytes source.bytes.length
  exact (faithful.after_span Text.isBlank (Stream.shows_opened rfl)).shows

theorem length_keys (source : Source) :
    ((Utf8.decode source.bytes).dropWhile Text.isBlank).length < source.size + 1 := by
  have shorter := Utf8.length_decode_le source.bytes
  have passed := (List.dropWhile_sublist Text.isBlank (l := Utf8.decode source.bytes)).length_le
  rw [← Source.size_eq_length_bytes] at shorter
  omega

theorem awaits_keys (fails : source.failure? = some reason) :
    (Stream.ofSource source).skipBlanks.2.Under (Stream.Awaits (some reason)) := by
  have start : (Stream.ofSource source).Under (Stream.Awaits (some reason)) := .inl ⟨fails, rfl⟩
  exact start.span (Stream.lasting_awaits _) Text.isBlank

theorem keys_ne_ok (fails : source.failure? = some reason) (found : List Text) :
    keys source ≠ .ok found :=
  keysUpTo_ne_ok (shows_keys source) (awaits_keys fails) (length_keys source) found

theorem keys_of_ok {other : Source} {found : List Text} (fails : source.failure? = some reason)
    (same : other.bytes = source.bytes) (scanned : keys other = .ok found) :
    keys source = .error { cause := .readFailure reason } := by
  have shows := shows_keys other
  have above := length_keys other
  rw [same] at shows above
  exact keysUpTo_of_ok (shows_keys source) (awaits_keys fails) (length_keys source) shows above scanned

end NetTrace.Signal
