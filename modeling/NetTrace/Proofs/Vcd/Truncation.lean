import NetTrace.Proofs.Lexing.Reports
import NetTrace.Proofs.Text.Cut
import NetTrace.Proofs.Vcd.Header

namespace NetTrace.Vcd

open Scan Text
open NetTrace.Stream (Under Met Awaits lasting_met lasting_awaits faithful_under)

variable {α β : Type} {bytes : List UInt8} {total : Nat} {text : Text} {stream : Stream} {reason : String}

/-- A refusal has met the failure of the source, or the text read before decides it. -/
def Decides (scan : Scan Stream α) (decided : Text → Prop) : Prop :=
  ∀ ⦃bytes : List UInt8⦄ ⦃total : Nat⦄ ⦃stream : Stream⦄ ⦃text : Text⦄ ⦃failure : Failure⦄
    ⦃later : Stream⦄ ⦃reason : String⦄, (Stream.view bytes total).Shows stream text →
    stream.Under (Awaits (some reason)) → scan stream = .error failure later →
      later.Under (Met (some reason)) ∨ decided text

namespace Decides

variable {scan : Scan Stream α} {onText : Scan Text α} {decided : Text → Prop}

theorem pure (value : α) : Decides (Pure.pure value) fun _ => False := by
  intro _ _ _ _ _ _ _ _ _ runs
  cases runs

theorem phrase (name : String) (decides : Decides scan decided) :
    Decides (Scan.phrase name scan) decided := by
  intro bytes total stream text failure later reason shows awaits runs
  unfold Scan.phrase at runs
  cases inner : scan stream with
  | ok value rest =>
    simp only [inner] at runs
    contradiction
  | error failure' middle =>
    simp only [inner, EStateM.Result.error.injEq] at runs
    refine (decides shows awaits inner).imp_left fun met => ?_
    rw [← runs.2]
    exact (met.quote (lasting_met _) _).moveTo _

/-- What comes second is decided by the failure alone, or it would depend on what the first left. -/
theorem bind {next : α → Scan Stream β}
    (follows : ∀ {view : View Stream Nat}, view.Faithful → view.Follows [] scan onText)
    (decides : Decides scan decided) (decides' : ∀ value, Decides (next value) fun _ => False) :
    Decides (scan >>= next) decided := by
  intro bytes total stream text failure later reason shows awaits runs
  have agrees := follows (faithful_under bytes total (lasting_awaits (some reason))) stream text
    ⟨shows, awaits⟩ fun _ member => nomatch member
  simp only [Bind.bind, EStateM.bind] at runs
  cases first : scan stream with
  | ok value middle =>
    rw [first] at agrees runs
    generalize onText text = expected at agrees
    cases agrees with
    | ok passed => exact .inl ((decides' value passed.shows.1 passed.shows.2 runs).resolve_right id)
  | error failure' middle =>
    rw [first] at runs
    cases runs
    exact decides shows awaits first

end Decides

section Words

theorem decides_word : Decides Word.scan fun _ => False := by
  apply Decides.phrase
  intro bytes total stream text failure later reason shows awaits runs
  have faithful := Stream.faithful_view bytes total
  have blanks := (faithful.after_span isBlank shows).shows
  have kept := awaits.span (lasting_awaits _) isBlank
  have front := faithful.front_span (!isBlank ·) blanks
  have run : (if ((stream.span isBlank).2.span (!isBlank ·)).1 = [] then refuseEnd "non-whitespace text"
      else pure ((stream.span isBlank).2.span (!isBlank ·)).1 : Scan Stream Text)
        ((stream.span isBlank).2.span (!isBlank ·)).2 = .error failure later := runs
  have same : ((stream.span isBlank).2.span (!isBlank ·)).1 =
      (text.dropWhile isBlank).takeWhile (!isBlank ·) := front
  rw [same] at run
  by_cases empty : (text.dropWhile isBlank).takeWhile (!isBlank ·) = []
  · rw [if_pos empty] at run
    cases run
    have ended : text.dropWhile isBlank = [] := by
      rcases text.words_cases with ⟨blank, -⟩ | ⟨word, rest, isWord, parts, split, -⟩
      · exact blank
      · have visible : ∀ c ∈ word, (!isBlank c) = true := fun c member => by simp [isWord.2 c member]
        rw [split, takeWhile_of_stops visible parts] at empty
        exact (isWord.1 empty).elim
    exact .inl (Stream.met_span _ blanks kept (by rw [ended]; rfl))
  · rw [if_neg empty] at run
    cases run

theorem decides_toEndUpTo (limit : Nat) : Decides (Word.scanToEndUpTo limit) fun _ => False := by
  induction limit with
  | zero => exact .pure _
  | succ limit ih =>
    refine .bind follows_word decides_word fun written => ?_
    by_cases closing : written = Word.endTag
    · rw [if_pos closing]
      exact .pure _
    · rw [if_neg closing]
      exact .bind (fun faithful => follows_toEndUpTo faithful limit) ih fun _ => .pure _

theorem decides_toEnd : Decides Word.scanToEnd fun _ => False := by
  apply Decides.phrase
  intro bytes total stream text failure later reason shows awaits runs
  have decides : Decides (Word.scanToEndUpTo (stream.remaining + 1) >>= fun words =>
      pure (List.intercalate [' '] words)) fun _ => False :=
    .bind (fun faithful => follows_toEndUpTo faithful _) (decides_toEndUpTo _) fun _ => .pure _
  exact decides shows awaits runs

theorem firstOf_goes (keywords : List Text) (text : Text) :
    ∃ found rest, (Word.scanFirstOf keywords : Scan Text _) text = .ok found rest ∧
      (found = none → rest = text) := by
  induction keywords with
  | nil => exact ⟨none, text, rfl, fun _ => rfl⟩
  | cons keyword keywords ih =>
    rcases optionally_goes (Word.scanExactly keyword) text with ⟨found, rest, runs⟩
    cases found with
    | some written => exact ⟨some written, rest, bind_eq_ok.mpr ⟨_, _, runs, rfl⟩, nofun⟩
    | none =>
      obtain ⟨rfl, -⟩ := optionally_eq_none.mp runs
      obtain ⟨found, rest, runs', same⟩ := ih
      exact ⟨found, rest, bind_eq_ok.mpr ⟨_, _, runs, runs'⟩, same⟩

def NoKeyword (keywords : List Text) (text : Text) : Prop :=
  Excerpt.limit ≤ 4 * (text.dropWhile isBlank).length ∧
    ∀ word others, Text.words text = word :: others → word ∉ keywords

theorem met_quote (shows : (Stream.view bytes total).Shows stream text)
    (awaits : stream.Under (Awaits (some reason))) :
    (stream.quote stream.offset).2.Under (Met (some reason)) ∨ Excerpt.limit ≤ 4 * text.length := by
  have there := (Stream.moveTo_of_holds (Stream.holds_position stream)).2.2
  have kept := awaits.moveTo stream.offset
  by_cases short : ((stream.moveTo stream.offset).fill Excerpt.limit).ahead.length < Excerpt.limit
  · exact .inl ((Stream.met_fill kept short).moveTo _)
  · have longer := Utf8.length_le_decode stream.following
    have same := Stream.following_fill Excerpt.limit (stream.moveTo stream.offset)
    have lengths := congrArg List.length same
    rw [there, Stream.following, List.length_append] at lengths
    rw [← shows.reads] at longer
    exact .inr (by omega)

theorem noKeyword {keywords : List Text} (areWords : ∀ keyword ∈ keywords, IsWord keyword)
    (none : (Word.scanFirstOf keywords : Scan Text _) text = .ok none text)
    (long : Excerpt.limit ≤ 4 * (text.dropWhile isBlank).length) : NoKeyword keywords text := by
  refine ⟨long, fun word others same member => ?_⟩
  obtain ⟨rest, runs, -⟩ := (firstOf_iff areWords).mpr ⟨same, member⟩
  rw [none] at runs
  cases runs

theorem decides_keyword (name : String) {keywords : List Text}
    (areWords : ∀ keyword ∈ keywords, IsWord keyword) :
    Decides (Word.scanKeyword name keywords) (NoKeyword keywords) := by
  apply Decides.phrase
  intro bytes total stream text failure later reason shows awaits runs
  obtain ⟨found, rest, onText, kept⟩ := firstOf_goes keywords text
  have faithful := faithful_under bytes total (lasting_awaits (some reason))
  have agrees := (follows_firstOf faithful keywords : View.Follows _ [] _ _) stream text
    ⟨shows, awaits⟩ fun _ member => nomatch member
  rw [onText] at agrees
  simp only [Bind.bind, EStateM.bind] at runs
  generalize Word.scanFirstOf keywords stream = given at agrees runs
  cases agrees with
  | @ok _ middle _ passed =>
    cases found with
    | some written => cases runs
    | none =>
      -- The refusal quotes what follows the blanks, and reads on for that.
      obtain rfl := kept rfl
      have faithful := Stream.faithful_view bytes total
      have blanks := (faithful.after_span isBlank passed.shows.1).shows
      have awaits' := passed.shows.2.span (lasting_awaits _) isBlank
      cases runs
      exact (met_quote blanks awaits').imp_right (noKeyword areWords onText)

theorem decides_declaration :
    Decides Command.scanDeclaration (NoKeyword Command.declarationKeywords) :=
  .phrase _ (.bind (fun faithful => follows_keyword faithful _ _) (decides_keyword _ (by decide))
    fun _ => .bind follows_toEnd decides_toEnd fun _ => .pure _)

end Words

namespace Header

variable {limit : Nat} {words : List Text} {declared : List Variable}

theorem lex_refused (shows : (Stream.view bytes total).Shows stream text)
    (awaits : stream.Under (Awaits (some reason))) {failure : Failure} {later : Stream}
    (refused : stream.lex (.vcd .declarationCommand) = (.error failure, later)) :
    later.failure = some reason ∨ NoKeyword Command.declarationKeywords text := by
  have decides : Decides (Rule.token (.vcd .declarationCommand))
      (NoKeyword Command.declarationKeywords) := by
    refine .bind follows_declaration decides_declaration fun token => ?_
    intro _ _ _ _ _ _ _ _ _ runs
    cases runs
  unfold Stream.lex at refused
  cases run : Rule.token (.vcd .declarationCommand) stream with
  | ok token rest =>
    rw [run] at refused
    cases (Prod.mk.inj refused).1
  | error failure' rest =>
    rw [run] at refused
    rw [← (Prod.mk.inj refused).2]
    exact (decides shows awaits run).imp_left fun met => (met.moveTo stream.offset).2

theorem told_of_ok {later : Stream}
    (told : (do later.checkFailure.1; return [] : Except Failure (List Variable)) = .ok declared) :
    later.failure = none ∧ declared = [] := by
  rw [Stream.check_eq] at told
  cases held : later.failure with
  | none =>
    rw [held] at told
    cases told
    exact ⟨rfl, rfl⟩
  | some reason =>
    rw [held] at told
    cases told

theorem scanUpTo_blank (shows : (Stream.view bytes total).Shows stream text)
    (awaits : stream.Under (Awaits (some reason))) (blank : Text.words text = []) :
    scanUpTo (limit + 1) stream ≠ .ok declared := by
  intro scanned
  rcases lex_declaration text with ⟨keyword, body, rest, -, -, -, split, -⟩ | ⟨⟨refusal, found⟩, -⟩
  · rw [blank] at split
    contradiction
  · rcases Stream.lex_cases (.vcd .declarationCommand) shows with
      ⟨command, later, rest, -, expected, -⟩ | ⟨failure, refusal', later, given, -⟩
    · rw [expected] at found
      contradiction
    · rw [scanUpTo_error given] at scanned
      rcases lex_refused shows awaits given with met | ⟨long, -⟩
      · rw [(told_of_ok scanned).1] at met
        contradiction
      · rw [words_eq_nil.mp blank] at long
        contradiction

theorem stops_of_noKeyword (none : NoKeyword Command.declarationKeywords text) (cut : Cut text words) :
    ofWords words = .ok [] := by
  have small : ∀ word ∈ Command.declarationKeywords, word.all (·.toNat < 128) = true := by decide
  have ascii : ∀ word ∈ Command.declarationKeywords, ∀ c ∈ word, c.toNat < 128 := by
    intro word member
    simpa using small word member
  have short : ∀ word ∈ Command.declarationKeywords, word.length ≤ 15 := by decide
  have limit : Excerpt.limit = 80 := rfl
  have long : 15 < (text.dropWhile isBlank).length := by
    have long := none.1
    omega
  refine ofWords_stop fun command others reads => ?_
  obtain ⟨keyword, rest, same, member⟩ := reads.starts
  exact cut.absent ascii short long none.2 same member

theorem ofWords_closing (others : List Text) :
    ofWords ("$enddefinitions".toList :: others) = .ok [] := by
  rw [ofWords]
  split
  · rfl
  · rfl

theorem declared_eq_ok {first : Except Failure Variable} {others : Except Failure (List Variable)} :
    (do let found ← first; return found :: (← others)) = Except.ok declared ↔
      ∃ found more, first = .ok found ∧ others = .ok more ∧ declared = found :: more := by
  cases first <;> cases others <;> simp [Bind.bind, Except.bind, pure, Except.pure, eq_comm]

theorem others_of_ok {keyword : Text} {first : Except Failure Variable}
    {others : Except Failure (List Variable)} (further : keyword ≠ "$enddefinitions".toList)
    (scanned : (if keyword = "$var".toList then do let found ← first; return found :: (← others)
      else if keyword = "$enddefinitions".toList then return []
      else others) = Except.ok declared) : ∃ found, others = .ok found := by
  by_cases declares : keyword = "$var".toList
  · rw [if_pos declares, declared_eq_ok] at scanned
    obtain ⟨_, found, -, recursed, -⟩ := scanned
    exact ⟨found, recursed⟩
  · rw [if_neg declares, if_neg further] at scanned
    exact ⟨declared, scanned⟩

theorem ofWords_of_scanUpTo (shows : (Stream.view bytes total).Shows stream text)
    (awaits : stream.Under (Awaits (some reason))) (above : text.length < limit)
    (scanned : scanUpTo limit stream = .ok declared) (cut : Cut text words) :
    ofWords words = .ok declared := by
  -- By induction on the limit: a command that is read is whole, and leaves a text cut off in the
  -- same place.
  induction limit generalizing stream text words declared with
  | zero => omega
  | succ limit ih =>
    have kept := awaits.lex (lasting_awaits _) (.vcd .declarationCommand)
    rcases Stream.lex_cases (.vcd .declarationCommand) shows with
      ⟨command, later, rest, given, expected, after⟩ | ⟨failure, refusal, later, given, expected, -, -⟩
    · rw [given] at kept
      rcases lex_declaration text with
        ⟨keyword, body, rest', found, member, closes, split, passed, rfl, some⟩ | ⟨⟨failure, found⟩, -⟩
      · rw [expected] at found
        obtain ⟨rfl, rfl⟩ := Prod.mk.inj (Except.ok.inj found)
        obtain ⟨var, closing⟩ := starts_iff member (List.intercalate [' '] body)
        rw [joined_cons closes] at var closing
        rw [List.length_append] at above
        rw [scanUpTo_ok given] at scanned
        simp only [var, closing] at scanned
        by_cases last : keyword = "$enddefinitions".toList
        · subst last
          rw [if_neg (by decide), if_pos rfl] at scanned
          cases scanned
          obtain ⟨next, more, rfl⟩ : ∃ next more, body = next :: more :=
            List.exists_cons_of_ne_nil fun empty => not_closes_nil (empty ▸ closes)
          obtain ⟨others, rfl⟩ := cut.first split
          exact ofWords_closing others
        · obtain ⟨found, recursed⟩ := others_of_ok last scanned
          have more : Text.words rest ≠ [] := by
            intro blank
            obtain ⟨less, rfl⟩ : ∃ less, limit = less + 1 := ⟨limit - 1, by omega⟩
            exact scanUpTo_blank after kept blank recursed
          obtain ⟨others, rfl, cut'⟩ := cut.after split more
          rw [recursed] at scanned
          rw [ofWords_command member closes, ih after kept (by omega) recursed cut']
          exact scanned
      · rw [expected] at found
        contradiction
    · rw [scanUpTo_error given] at scanned
      obtain ⟨unmet, rfl⟩ := told_of_ok scanned
      rcases lex_refused shows awaits given with met | none
      · rw [unmet] at met
        contradiction
      · exact stops_of_noKeyword none cut

theorem scan_of_ok {source other : Source} (fails : source.failure? = some reason)
    (scanned : scan source = .ok declared) (lasting : other.failure? = none)
    (starts : source.bytes <+: other.bytes) : scan other = .ok declared := by
  obtain ⟨more, whole⟩ := starts
  have cut : Cut (Utf8.decode source.bytes) (Utf8.decode other.bytes).words := by
    rw [← whole]
    exact cut_decode source.bytes more
  have above : (Utf8.decode source.bytes).length < source.size + 1 := by
    rw [Source.size_eq_length_bytes]
    exact Nat.lt_succ_of_le (Utf8.length_decode_le source.bytes)
  have above' : (Utf8.decode other.bytes).length < other.size + 1 := by
    rw [Source.size_eq_length_bytes]
    exact Nat.lt_succ_of_le (Utf8.length_decode_le other.bytes)
  have told : ofWords (Utf8.decode other.bytes).words = .ok declared :=
    ofWords_of_scanUpTo (Stream.placed_self (Stream.ofSource source)) (.inl ⟨fails, rfl⟩) above scanned
      cut
  rw [← told]
  exact scanUpTo_eq_ofWords (Stream.placed_self (Stream.ofSource other)) (.inl ⟨lasting, rfl⟩) above'

end Header

end NetTrace.Vcd
