import NetTrace.Proofs.Lexing.Session

namespace NetTrace

/-- A call of a session; without the extra calls the session is another one. -/
structure Call where
  step : Step
  extra : Bool

namespace Stream

def answers (script : List Call) (stream : Stream) : List (Call × Answer × Stream) :=
  script.zip (transcript (fun call => call.step.onStream) script stream)

variable {bytes : List UInt8} {total : Nat} {text : Text} {stream later : Stream}

theorem shows_refused {rule : Rule} {failure : Failure}
    (shows : (view bytes total).Shows stream text)
    (refused : rule.token stream = .error failure later) :
    (view bytes total).Shows later text := by
  rcases token_cases rule shows with ⟨token, other, rest, runs, -⟩ |
    ⟨failure', reason, other, runs, -, -, passed⟩
  · rw [refused] at runs
    contradiction
  · rw [refused] at runs
    rcases EStateM.Result.error.inj runs with ⟨-, same⟩
    rw [same]
    exact passed.shows

theorem answers_without_extra (script : List Call) {plain : Stream}
    (shows : (view bytes total).Shows stream text) (shows' : (view bytes total).Shows plain text)
    (refused : ∀ told ∈ answers script stream, told.1.extra = true → told.2.1.refused = true) :
    (((answers script stream).filter fun told => !told.1.extra).map fun told => seen told.2) =
      (transcript Step.onStream ((script.filter fun call => !call.extra).map Call.step) plain).map
        seen := by
  -- By induction on the script: an extra call leaves the text to the calls after it, and every
  -- other call does on both streams what it does on the text.
  induction script generalizing stream plain text with
  | nil => rfl
  | cons call script ih =>
    have first := mirrors_onStream call.step shows
    have head : answers (call :: script) stream =
        (call, call.step.onStream stream) :: answers script (call.step.onStream stream).2 := rfl
    rw [head] at refused ⊢
    have others := fun told member => refused told (List.mem_cons_of_mem _ member)
    by_cases extra : call.extra = true
    · have failed := refused _ (List.mem_cons_self ..) extra
      rw [← Answer.refused_unquoted, first.1, Answer.refused_unquoted] at failed
      have after := first.2
      rw [Step.onText_of_refused failed] at after
      simpa only [List.filter_cons, extra, Bool.not_true, Bool.false_eq_true, if_false] using
        ih after shows' others
    · have second := mirrors_onStream call.step shows'
      have place := (Placed.unique first.2 second.2).1
      have same : seen (call.step.onStream stream) = seen (call.step.onStream plain) := by
        unfold seen
        rw [first.1, second.1, place]
      have rest := ih first.2 second.2 others
      simp only [List.filter_cons, extra, Bool.not_false, if_true, List.map_cons, transcript, same,
        rest]

/-- A text that a rule refuses is left as it was. A stream that a rule refuses stands where it
    stood, and whatever is done with it later has the same results as if the rule had not been tried.
    Calls of rules that fail may be put anywhere into a session: the others answer the same. -/
theorem refusals_leave_no_trace :
    (∀ (rule : Rule) (text rest : Text) (failure : Failure),
      rule.token text = .error failure rest → rest = text) ∧
    (∀ (rule : Rule) (stream later : Stream) (failure : Failure),
      rule.token stream = .error failure later → later.offset = stream.offset ∧
        ∀ moves : List Move,
          (transcript Move.on moves later).map seen = (transcript Move.on moves stream).map seen) ∧
    ∀ (script : List Call) (stream : Stream),
      (∀ told ∈ answers script stream, told.1.extra = true → told.2.1.refused = true) →
      (((answers script stream).filter fun told => !told.1.extra).map fun told => seen told.2) =
        (transcript Step.onStream ((script.filter fun call => !call.extra).map Call.step)
          stream).map seen := by
  refine ⟨fun rule _ _ _ refused => rule.restores_token refused, ?_, ?_⟩
  · intro rule stream later failure refused
    have shows := placed_self stream
    have shows' := shows_refused shows refused
    have place := (Placed.unique shows' shows).1
    exact ⟨place, fun moves => transcript_moves moves shows' shows⟩
  · intro script stream refused
    have shows := placed_self stream
    exact answers_without_extra script shows shows refused

theorem error_of_refused {σ μ : Type} [Input σ μ] {rule : Rule} {input : σ}
    (refused : (Move.on (.apply rule) input).1.refused = true) :
    ∃ failure rest, rule.token input = .error failure rest := by
  cases run : rule.token input with
  | ok token rest =>
    simp only [Move.on, run] at refused
    contradiction
  | error failure rest => exact ⟨failure, rest, rfl⟩

theorem refusals_leave_no_trace_connection :
    let connection : Rule := .netlist .connection
    let stream := ofSource [.chunk ".a(\x7bb".toUTF8.data, .interrupted, .chunk ", c".toUTF8.data]
    let calls : List Step := [.consume (.character '.'), .consume (.netlist .identifier), .isExhausted]
    let script : List Call := [⟨.tryConsume connection, true⟩, ⟨.consume (.character '.'), false⟩,
      ⟨.consume (.netlist .identifier), false⟩, ⟨.consume (.wrapped .connectedElement '(' ')'), true⟩,
      ⟨.isExhausted, false⟩]
    (∃ failure rest, connection.token ".a(\x7bb, c".toList = .error failure rest ∧
      rest = ".a(\x7bb, c".toList) ∧
    (∃ failure later, connection.token stream = .error failure later ∧ later.offset = 0 ∧
      (transcript Move.on [.next, .peek] later).map seen =
        (transcript Move.on [.next, .peek] stream).map seen) ∧
    (∀ told ∈ answers script stream, told.1.extra = true → told.2.1.refused = true) ∧
    (((answers script stream).filter fun told => !told.1.extra).map fun told => seen told.2) =
      (transcript Step.onStream calls stream).map seen := by
  intro connection stream calls script
  rcases refusals_leave_no_trace with ⟨onText, onStream, onScript⟩
  have refused : ∀ told ∈ answers script stream, told.1.extra = true → told.2.1.refused = true := by
    decide +kernel
  have text : ∃ failure rest, connection.token ".a(\x7bb, c".toList = .error failure rest :=
    error_of_refused (by decide +kernel)
  have result : ∃ failure later, connection.token stream = .error failure later :=
    error_of_refused (by decide +kernel)
  rcases text with ⟨reason, rest, run⟩
  rcases result with ⟨failure, later, runs⟩
  rcases onStream _ _ _ _ runs with ⟨place, same⟩
  have others : (script.filter fun call => !call.extra).map Call.step = calls := rfl
  have left := onText _ _ _ _ run
  have kept := onScript script stream refused
  rw [others] at kept
  exact ⟨⟨reason, rest, run, left⟩, ⟨failure, later, runs, place, same _⟩, refused, kept⟩

end Stream

end NetTrace
