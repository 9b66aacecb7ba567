import NetTrace.Proofs.Input.Pending

namespace NetTrace

inductive Request
  | call (step : Step)
  | check

inductive Reply
  | answered (answer : Answer)
  | checked (result : Except Failure Unit)

/-- What the reply tells of the text, which is nothing where the source is asked for. -/
def Reply.onText : Reply → Option Answer
  | answered answer => some answer.unquoted
  | checked _ => none

def Reply.reports : Reply → Bool
  | checked (.error _) => true
  | _ => false

def Request.on : Request → Stream → Reply × Stream
  | call step, stream =>
    match step.onStream stream with
    | (answer, rest) => (.answered answer, rest)
  | check, stream =>
    match stream.checkFailure with
    | (result, rest) => (.checked result, rest)

namespace Stream

def replies : List Request → Stream → List (Reply × Stream)
  | [], _ => []
  | request :: requests, stream => request.on stream :: replies requests (request.on stream).2

def served : List Request → Stream → Stream
  | [], stream => stream
  | request :: requests, stream => served requests (request.on stream).2

def reported (requests : List Request) (stream : Stream) : Bool :=
  (replies requests stream).any (·.1.reports)

variable {bytes : List UInt8} {total : Nat} {text : Text} {stream later : Stream} {reason : String}

section Texts

def shown (told : Reply × Stream) : Option Answer × Nat := (told.1.onText, told.2.offset)

theorem shows_opened {source : Source} (same : source.bytes = bytes) :
    (view bytes bytes.length).Shows (ofSource source) (Utf8.decode bytes) := by
  subst same
  exact ⟨⟨0, rfl⟩, rfl, Nat.zero_add _⟩

theorem after_check (stream : Stream) :
    (stream.checkFailure.2).source = stream.source ∧ stream.checkFailure.2.failure = none ∧
      stream.checkFailure.2.offset = stream.offset ∧
      stream.checkFailure.2.following = stream.following := by
  unfold checkFailure takeFailure
  cases stream.failure <;> exact ⟨rfl, rfl, rfl, rfl⟩

def report : Option String → Except Failure Unit
  | some reason => .error { cause := .readFailure reason }
  | none => .ok ()

theorem check_eq (stream : Stream) : stream.checkFailure.1 = report stream.failure := by
  unfold checkFailure takeFailure report
  cases stream.failure <;> rfl

theorem Under.check_met {failure : Option String} (met : stream.Under (Met failure)) :
    stream.checkFailure.1 = report failure ∧ stream.checkFailure.2.Under (Met none) := by
  obtain ⟨source, held, -⟩ := after_check stream
  have here : stream.failure = failure := met.2
  exact ⟨by rw [check_eq, here], source.trans met.1, held⟩

theorem shown_request (request : Request) (shows : (view bytes total).Shows stream text)
    (shows' : (view bytes total).Shows later text) :
    shown (request.on stream) = shown (request.on later) ∧
      ∃ rest, (view bytes total).Shows (request.on stream).2 rest ∧
        (view bytes total).Shows (request.on later).2 rest := by
  cases request with
  | call step =>
    have first := mirrors_onStream step shows
    have second := mirrors_onStream step shows'
    have place := (Placed.unique first.2 second.2).1
    refine ⟨?_, _, first.2, second.2⟩
    show (some (step.onStream stream).1.unquoted, (step.onStream stream).2.offset) =
      (some (step.onStream later).1.unquoted, (step.onStream later).2.offset)
    rw [first.1, second.1, place]
  | check =>
    obtain ⟨-, -, place, left⟩ := after_check stream
    obtain ⟨-, -, place', left'⟩ := after_check later
    have same := (Placed.unique shows shows').1
    refine ⟨?_, text, ?_, ?_⟩
    · show (none, stream.checkFailure.2.offset) = (none, later.checkFailure.2.offset)
      rw [place, place', same]
    · show Placed bytes total stream.checkFailure.2.offset stream.checkFailure.2.following text
      rw [place, left]
      exact shows
    · show Placed bytes total later.checkFailure.2.offset later.checkFailure.2.following text
      rw [place', left']
      exact shows'

theorem replies_alike (requests : List Request) (shows : (view bytes total).Shows stream text)
    (shows' : (view bytes total).Shows later text) :
    (replies requests stream).map shown = (replies requests later).map shown := by
  -- By induction on the requests: after each of them both streams show what is left of one text.
  induction requests generalizing stream later text with
  | nil => rfl
  | cons request requests ih =>
    obtain ⟨same, rest, after, after'⟩ := shown_request request shows shows'
    simp only [replies, List.map_cons, same, ih after after']

end Texts

section Failures

theorem silent_of_met (requests : List Request) (met : stream.Under (Met none)) :
    reported requests stream = false ∧ (served requests stream).Under (Met none) := by
  induction requests generalizing stream with
  | nil => exact ⟨rfl, met⟩
  | cons request requests ih =>
    have first : (request.on stream).1.reports = false ∧ (request.on stream).2.Under (Met none) := by
      cases request with
      | call step => exact ⟨rfl, met.onStream (lasting_met none) step⟩
      | check =>
        obtain ⟨same, after⟩ := met.check_met
        refine ⟨?_, after⟩
        show (Reply.checked stream.checkFailure.1).reports = false
        rw [same]
        rfl
    obtain ⟨others, last⟩ := ih first.2
    refine ⟨?_, last⟩
    simp only [reported, replies, List.any_cons, first.1, Bool.false_or] at others ⊢
    exact others

theorem awaits_served (requests : List Request) (awaits : stream.Under (Awaits (some reason))) :
    (served requests stream).Under
      (if reported requests stream then Met none else Awaits (some reason)) := by
  -- By induction on the requests: a check reports the failure once it was met, and nothing before.
  induction requests generalizing stream with
  | nil => exact awaits
  | cons request requests ih =>
    have whole : reported (request :: requests) stream =
        ((request.on stream).1.reports || reported requests (request.on stream).2) := rfl
    rw [whole, served]
    cases request with
    | call step => exact ih (awaits.onStream (lasting_awaits _) step)
    | check =>
      have told : (Request.on .check stream).1 = .checked stream.checkFailure.1 := rfl
      rcases awaits with ⟨coming, held⟩ | met
      · have silent : (Request.on .check stream).1.reports = false := by
          rw [told, check_eq, held]
          rfl
        obtain ⟨source, held', -⟩ := after_check stream
        rw [silent, Bool.false_or]
        exact ih (.inl ⟨by rw [← coming]; exact congrArg _ source, held'⟩)
      · obtain ⟨same, after⟩ := Under.check_met met
        have reports : (Request.on .check stream).1.reports = true := by
          rw [told, same]
          rfl
        rw [reports, Bool.true_or]
        exact (silent_of_met requests after).2

theorem reached_under {condition : Source → Option String → Prop} (lasting : Lasting condition)
    (steps : List Step) (under : stream.Under condition) :
    (reached Step.onStream steps stream).Under condition := by
  induction steps generalizing stream with
  | nil => exact under
  | cons step steps ih => exact ih (under.onStream lasting step)

theorem check_at_end (requests : List Request) (steps : List Step)
    (awaits : stream.Under (Awaits (some reason)))
    (ended : (served requests stream).isExhausted.1 = true) :
    let rest := reached Step.onStream steps (served requests stream).isExhausted.2
    rest.checkFailure.1 = report (if reported requests stream then none else some reason) ∧
      ∀ more, reported more rest.checkFailure.2 = false := by
  intro rest
  have under := awaits_served requests awaits
  have met : rest.Under (Met (if reported requests stream then none else some reason)) := by
    apply reached_under (lasting_met _) steps
    cases told : reported requests stream with
    | true =>
      rw [told] at under
      exact under.peek (lasting_met none)
    | false =>
      rw [told] at under
      have absent : (served requests stream).peek.1 = none := by simpa [isExhausted] using ended
      exact met_peek under absent
  obtain ⟨same, after⟩ := met.check_met
  exact ⟨same, fun more => (silent_of_met more after).1⟩

end Failures

end Stream

end NetTrace
