import NetTrace.Lexing
import NetTrace.Proofs.Input.Reading
import NetTrace.Proofs.Lexing.Rules

namespace NetTrace

inductive Answer
  | character (found : Option Char)
  | tried (result : Except Failure Text)
  | consumed (token : Option Text)
  | flag (value : Bool)

namespace Answer

def unquoted : Answer → Answer
  | tried result => tried (result.mapError Failure.unquoted)
  | answer => answer

def refused : Answer → Bool
  | tried (.error _) => true
  | consumed none => true
  | _ => false

theorem tried_error {failure reason : Failure} (same : failure.unquoted = reason.unquoted) :
    (tried (.error failure)).unquoted = (tried (.error reason)).unquoted := by
  show tried (.error failure.unquoted) = tried (.error reason.unquoted)
  rw [same]

theorem refused_unquoted (answer : Answer) : answer.unquoted.refused = answer.refused := by
  cases answer with
  | tried result => cases result <;> rfl
  | character found => rfl
  | consumed token => rfl
  | flag value => rfl

end Answer

inductive Step
  | tryConsume (rule : Rule)
  | consume (rule : Rule)
  | skipBlanks
  | isExhausted

namespace Step

def onStream : Step → Stream → Answer × Stream
  | tryConsume rule, stream =>
    match stream.lex rule with
    | (result, rest) => (.tried result, rest)
  | consume rule, stream =>
    match stream.lex rule with
    | (result, rest) => (.consumed result.toOption, rest)
  | skipBlanks, stream =>
    match stream.skipBlanks with
    | (any, rest) => (.flag any, rest)
  | isExhausted, stream =>
    match stream.isExhausted with
    | (ended, seen) => (.flag ended, seen)

def onText : Step → Text → Answer × Text
  | tryConsume rule, text =>
    match rule.lex text with
    | .ok (rest, token) => (.tried (.ok token), rest)
    | .error failure => (.tried (.error failure), text)
  | consume rule, text =>
    match rule.lex text with
    | .ok (rest, token) => (.consumed (some token), rest)
    | .error _ => (.consumed none, text)
  | skipBlanks, text =>
    match Text.splitBlanks text with
    | (rest, blanks) => (.flag !blanks.isEmpty, rest)
  | isExhausted, text => (.flag text.isEmpty, text)

theorem onText_of_refused {step : Step} {text : Text}
    (refused : (step.onText text).1.refused = true) : (step.onText text).2 = text := by
  cases step with
  | tryConsume rule =>
    unfold onText at refused ⊢
    cases runs : rule.lex text <;> simp only [runs] at refused ⊢
    contradiction
  | consume rule =>
    unfold onText at refused ⊢
    cases runs : rule.lex text <;> simp only [runs] at refused ⊢
    contradiction
  | skipBlanks => contradiction
  | isExhausted => rfl

end Step

/-- The operations of an input by themselves: a rule is applied without going back or committing. -/
inductive Move
  | peek
  | next
  | apply (rule : Rule)

def Move.on {σ μ : Type} [Input σ μ] : Move → σ → Answer × σ
  | peek, input =>
    match Input.peek input with
    | (found, seen) => (.character found, seen)
  | next, input =>
    match Input.next input with
    | (found, rest) => (.character found, rest)
  | apply rule, input =>
    match rule.token input with
    | .ok token rest => (.tried (.ok token), rest)
    | .error failure rest => (.tried (.error failure), rest)

section Runs

variable {α σ : Type} (act : α → σ → Answer × σ)

def reached : List α → σ → σ
  | [], state => state
  | call :: calls, state => reached calls (act call state).2

def transcript : List α → σ → List (Answer × σ)
  | [], _ => []
  | call :: calls, state => act call state :: transcript calls (act call state).2

end Runs

namespace Stream

variable {bytes : List UInt8} {total : Nat} {text : Text} {stream : Stream}

def Mirrors (bytes : List UInt8) (total : Nat) (given : Answer × Stream) (expected : Answer × Text) :
    Prop :=
  given.1.unquoted = expected.1.unquoted ∧ (view bytes total).Shows given.2 expected.2

theorem shows_commit (shows : (view bytes total).Shows stream text) :
    (view bytes total).Shows stream.commit text := shows

theorem shows_ofSource {source : Source} (encoded : source.bytes = Utf8.encode text) :
    (view (Utf8.encode text) (Text.byteLength text)).Shows (ofSource source) text where
  reached := ⟨0, encoded⟩
  reads := by
    show text = Utf8.decode source.bytes
    rw [encoded, Utf8.decode_encode]
  counted := by
    show 0 + source.bytes.length = Text.byteLength text
    rw [encoded, Utf8.length_encode, Nat.zero_add]

theorem token_cases (rule : Rule) (shows : (view bytes total).Shows stream text) :
    (∃ token later rest, rule.token stream = .ok token later ∧ rule.token text = .ok token rest ∧
      (view bytes total).Passes stream later rest) ∨
    ∃ failure reason later, rule.token stream = .error failure later ∧
      rule.token text = .error reason text ∧ failure.unquoted = reason.unquoted ∧
        (view bytes total).Passes stream later text := by
  have follows : (view bytes total).Follows [] rule.token rule.token :=
    rule.follows_token (faithful_view bytes total)
  have agrees := follows stream text shows fun _ member => nomatch member
  generalize given : rule.token stream = result, expected : rule.token text = result' at agrees
  cases agrees with
  | ok passed => exact .inl ⟨_, _, _, rfl, rfl, passed⟩
  | error same passed =>
    have kept := rule.restores_token expected
    subst kept
    exact .inr ⟨_, _, _, rfl, rfl, same, passed⟩

theorem shows_moveTo {later : Stream} {rest : Text} (shows : (view bytes total).Shows stream text)
    (passed : (view bytes total).Passes stream later rest) :
    (view bytes total).Shows (later.moveTo stream.offset) text := by
  have faithful := faithful_view bytes total
  have stands := passed.stands (faithful.stands_mark shows)
  exact (faithful.after_rewind stands).shows

theorem lex_cases (rule : Rule) (shows : (view bytes total).Shows stream text) :
    (∃ token later rest, stream.lex rule = (.ok token, later) ∧ rule.lex text = .ok (rest, token) ∧
      (view bytes total).Shows later rest) ∨
    ∃ failure reason later, stream.lex rule = (.error failure, later) ∧
      rule.lex text = .error reason ∧ failure.unquoted = reason.unquoted ∧
        (view bytes total).Shows later text := by
  rcases token_cases rule shows with ⟨token, later, rest, runs, runs', passed⟩ |
    ⟨failure, reason, later, runs, runs', same, passed⟩
  · have given : stream.lex rule = (.ok token, later.commit) := by simp only [lex, runs]
    have expected : rule.lex text = .ok (rest, token) := by simp only [Rule.lex, runs']
    exact .inl ⟨_, _, _, given, expected, shows_commit passed.shows⟩
  · have given : stream.lex rule = (.error failure, (later.moveTo stream.offset).commit) := by
      simp only [lex, runs]
    have expected : rule.lex text = .error reason := by simp only [Rule.lex, runs']
    exact .inr ⟨_, _, _, given, expected, same, shows_commit (shows_moveTo shows passed)⟩

theorem mirrors_onStream (step : Step) (shows : (view bytes total).Shows stream text) :
    Mirrors bytes total (step.onStream stream) (step.onText text) := by
  have faithful := faithful_view bytes total
  cases step with
  | tryConsume rule =>
    unfold Step.onStream Step.onText
    rcases lex_cases rule shows with ⟨token, later, rest, given, expected, after⟩ |
      ⟨failure, reason, later, given, expected, same, after⟩
    · simp only [given, expected]
      exact ⟨rfl, after⟩
    · simp only [given, expected]
      exact ⟨Answer.tried_error same, after⟩
  | consume rule =>
    unfold Step.onStream Step.onText
    rcases lex_cases rule shows with ⟨token, later, rest, given, expected, after⟩ |
      ⟨failure, reason, later, given, expected, -, after⟩
    · simp only [given, expected]
      exact ⟨rfl, after⟩
    · simp only [given, expected]
      exact ⟨rfl, after⟩
  | skipBlanks =>
    have front := faithful.front_span Text.isBlank shows
    have passed := faithful.after_span Text.isBlank shows
    have blanks : (stream.span Text.isBlank).1 = text.takeWhile Text.isBlank := front
    simp only [Step.onStream, Step.onText, Stream.skipBlanks, Text.splitBlanks, blanks]
    exact ⟨rfl, shows_commit passed.shows⟩
  | isExhausted =>
    have head : stream.peek.1 = text.head? := faithful.head_peek shows
    have passed := faithful.after_peek shows
    simp only [Step.onStream, Step.onText, isExhausted, head]
    refine ⟨?_, passed.shows⟩
    cases text <;> rfl

theorem mirrors_move (move : Move) (shows : (view bytes total).Shows stream text) :
    Mirrors bytes total (move.on stream) (move.on text) := by
  have faithful := faithful_view bytes total
  cases move with
  | peek =>
    have head := faithful.head_peek shows
    simp only [Move.on, head]
    exact ⟨rfl, (faithful.after_peek shows).shows⟩
  | next =>
    have head := faithful.head_next shows
    simp only [Move.on, head]
    exact ⟨rfl, (faithful.after_next shows).shows⟩
  | apply rule =>
    rcases token_cases rule shows with ⟨token, later, rest, runs, runs', passed⟩ |
      ⟨failure, reason, later, runs, runs', same, passed⟩
    · simp only [Move.on, runs, runs']
      exact ⟨rfl, passed.shows⟩
    · simp only [Move.on, runs, runs']
      exact ⟨Answer.tried_error same, passed.shows⟩

theorem shows_reached (steps : List Step) (shows : (view bytes total).Shows stream text) :
    (view bytes total).Shows (reached Step.onStream steps stream)
      (reached Step.onText steps text) := by
  -- By induction on the calls: after each of them the stream shows what is left of the text.
  induction steps generalizing stream text with
  | nil => exact shows
  | cons step steps ih => exact ih (mirrors_onStream step shows).2

def seen (told : Answer × Stream) : Answer × Nat := (told.1.unquoted, told.2.offset)

theorem transcript_moves (moves : List Move) {later : Stream}
    (shows : (view bytes total).Shows stream text) (shows' : (view bytes total).Shows later text) :
    (transcript Move.on moves stream).map seen = (transcript Move.on moves later).map seen := by
  induction moves generalizing stream later text with
  | nil => rfl
  | cons move moves ih =>
    have first := mirrors_move move shows
    have second := mirrors_move move shows'
    have place := (Placed.unique first.2 second.2).1
    have same : seen (move.on stream) = seen (move.on later) := by
      unfold seen
      rw [first.1, second.1, place]
    have rest := ih first.2 second.2
    simp only [transcript, List.map_cons, same, rest]

/-- After any calls, the stream stands in front of what they leave of the text, and answers the next
    call as that text does. -/
theorem answers_as_text {source : Source} {text : Text}
    (encoded : source.bytes = Utf8.encode text) (steps : List Step) (step : Step) :
    let stream := reached Step.onStream steps (ofSource source)
    let rest := reached Step.onText steps text
    (step.onStream stream).1.unquoted = (step.onText rest).1.unquoted ∧
      stream.following = Utf8.encode rest ∧
      (∃ consumed, text = consumed ++ rest ∧ stream.offset = Text.byteLength consumed) ∧
      ((step.onStream stream).1.refused = true →
        (step.onText rest).2 = rest ∧ (step.onStream stream).2.following = stream.following ∧
          (step.onStream stream).2.offset = stream.offset) := by
  intro stream rest
  have shows : (view (Utf8.encode text) (Text.byteLength text)).Shows stream rest :=
    shows_reached steps (shows_ofSource encoded)
  rcases mirrors_onStream step shows with ⟨same, after⟩
  rcases Placed.encoded shows with ⟨left, passed⟩
  refine ⟨same, left, passed, fun refused => ?_⟩
  have refused' : (step.onText rest).1.refused = true := by
    rw [← Answer.refused_unquoted, ← same, Answer.refused_unquoted, refused]
  have kept := Step.onText_of_refused refused'
  rw [kept] at after
  rcases Placed.unique after shows with ⟨place, bytes⟩
  exact ⟨kept, bytes, place⟩

theorem answers_as_text_split :
    let source : Source := [.interrupted, .chunk #[0xc2], .interrupted, .chunk #[0xb5, 0x20],
      .interrupted, .chunk #[0x61]]
    let steps : List Step := [.tryConsume (.character 'a'), .consume (.character 'µ')]
    source.bytes = Utf8.encode "µ a".toList ∧
      (reached Step.onStream steps (ofSource source)).following = Utf8.encode "a".toList ∧
      (reached Step.onStream steps (ofSource source)).offset = 3 := by
  intro source steps
  have encoded : source.bytes = Utf8.encode "µ a".toList := by decide
  rcases answers_as_text encoded steps .isExhausted with ⟨-, left, ⟨consumed, whole, place⟩, -⟩
  have rest : reached Step.onText steps "µ a".toList = "a".toList := by decide
  rw [rest] at left whole
  have lengths := congrArg Text.byteLength whole
  have bytes : Text.byteLength "µ a".toList = 4 := by decide
  have byte : Text.byteLength "a".toList = 1 := by decide
  rw [Text.byteLength_append, bytes, byte] at lengths
  exact ⟨encoded, left, by omega⟩

end Stream

end NetTrace
