import NetTrace.Proofs.Lexing.Session

namespace NetTrace

namespace Source

def failure? : Source → Option String
  | [] => none
  | .chunk piece :: reads => if piece.isEmpty then none else failure? reads
  | .interrupted :: reads => failure? reads
  | .failed reason :: _ => some reason

end Source

namespace View

variable {σ μ : Type}

def keeping (view : View σ μ) (holds : σ → Prop) : View σ μ where
  Shows input text := view.Shows input text ∧ holds input
  Stands input mark place := view.Stands input mark place ∧ holds input

variable {view : View σ μ} {holds : σ → Prop} {input later : σ} {text : Text}

theorem Passes.keeping (passed : view.Passes input later text) (kept : holds later) :
    (view.keeping holds).Passes input later text :=
  ⟨⟨passed.shows, kept⟩, fun stands => ⟨passed.stands stands.1, kept⟩⟩

theorem Faithful.keeping [Input σ μ] (faithful : view.Faithful)
    (peek : ∀ {input}, holds input → holds (Input.peek input).2)
    (next : ∀ {input}, holds input → holds (Input.next input).2)
    (span : ∀ {input} test, holds input → holds (Input.span test input).2)
    (rewind : ∀ {input} mark, holds input → holds (Input.rewind mark input))
    (quote : ∀ {input} mark, holds input → holds (Input.quote mark input).2) :
    (view.keeping holds).Faithful where
  stands_mark shows := ⟨faithful.stands_mark shows.1, shows.2⟩
  head_peek shows := faithful.head_peek shows.1
  after_peek shows := (faithful.after_peek shows.1).keeping (peek shows.2)
  head_next shows := faithful.head_next shows.1
  after_next shows := (faithful.after_next shows.1).keeping (next shows.2)
  front_span test shows := faithful.front_span test shows.1
  after_span test shows := (faithful.after_span test shows.1).keeping (span test shows.2)
  after_rewind stands := (faithful.after_rewind stands.1).keeping (rewind _ stands.2)
  after_quote shows stands := (faithful.after_quote shows.1 stands.1).keeping (quote _ shows.2)
  remaining shows := faithful.remaining shows.1

end View

namespace Stream

def Met (failure : Option String) (source : Source) (held : Option String) : Prop :=
  source = [] ∧ held = failure

def Awaits (failure : Option String) (source : Source) (held : Option String) : Prop :=
  (source.failure? = failure ∧ held = none) ∨ Met failure source held

/-- A condition on the reads to come and the failure held that reading on does not change. -/
def Lasting (condition : Source → Option String → Prop) : Prop :=
  ∀ (count : Nat) (source : Source) (ahead : List UInt8) (held : Option String),
    condition source held →
      condition (draw count source ahead).1 ((draw count source ahead).2.2 <|> held)

theorem draw_awaits (count : Nat) (source : Source) (ahead : List UInt8) :
    Awaits source.failure? (draw count source ahead).1 (draw count source ahead).2.2 := by
  fun_induction draw count source ahead <;> simp_all [Awaits, Met, Source.failure?]

theorem lasting_met (failure : Option String) : Lasting (Met failure) := by
  intro count source ahead held met
  obtain ⟨rfl, rfl⟩ := met
  exact ⟨rfl, rfl⟩

theorem lasting_awaits (failure : Option String) : Lasting (Awaits failure) := by
  intro count source ahead held awaits
  rcases awaits with ⟨rfl, rfl⟩ | met
  · rcases draw_awaits count source ahead with ⟨same, none⟩ | ⟨ended, met⟩
    · exact .inl ⟨same, by rw [none]; rfl⟩
    · exact .inr ⟨ended, by rw [met]; simp⟩
  · exact .inr (lasting_met failure count source ahead held met)

def Under (condition : Source → Option String → Prop) (stream : Stream) : Prop :=
  condition stream.source stream.failure

namespace Under

variable {condition : Source → Option String → Prop} {stream : Stream}

theorem moveTo (under : stream.Under condition) (offset : Nat) :
    (stream.moveTo offset).Under condition := by
  unfold Stream.moveTo
  split
  · exact under
  · exact under

variable (lasting : Lasting condition)

include lasting

theorem fill (under : stream.Under condition) (count : Nat) : (stream.fill count).Under condition :=
  lasting count stream.source stream.ahead stream.failure under

theorem peek (under : stream.Under condition) : stream.peek.2.Under condition := by
  have first := under.fill lasting 1
  show stream.fillCharacter.Under condition
  unfold fillCharacter
  cases ahead : (stream.fill 1).ahead with
  | nil => simpa only [ahead] using first
  | cons lead rest => simpa only [ahead] using first.fill lasting (Utf8.announced lead)

theorem next (under : stream.Under condition) : stream.next.2.Under condition := by
  have filled : stream.fillCharacter.Under condition := under.peek lasting
  unfold Stream.next
  cases found : Utf8.front? stream.fillCharacter.ahead <;> simp only [found] <;> exact filled

theorem spanUpTo (under : stream.Under condition) (test : Char → Bool) (limit : Nat) :
    (stream.spanUpTo test limit).2.Under condition := by
  fun_induction Stream.spanUpTo test limit stream with
  | case1 => exact under
  | case2 limit stream seen peeked =>
    have kept := under.peek lasting
    rwa [peeked] at kept
  | case3 limit stream c seen peeked _ rest stopped passed ih =>
    have kept := under.peek lasting
    rw [peeked] at kept
    have after := ih (kept.next lasting)
    rwa [passed] at after
  | case4 limit stream c seen peeked =>
    have kept := under.peek lasting
    rwa [peeked] at kept

theorem span (under : stream.Under condition) (test : Char → Bool) :
    (stream.span test).2.Under condition := under.spanUpTo lasting test _

theorem quote (under : stream.Under condition) (start : Nat) :
    (stream.quote start).2.Under condition :=
  ((under.moveTo start).fill lasting Excerpt.limit).moveTo stream.offset

end Under

section Ends

variable {failure : Option String} {stream : Stream}

theorem Under.met (awaits : stream.Under (Awaits failure)) (ended : stream.source = []) :
    stream.Under (Met failure) := by
  rcases awaits with ⟨same, held⟩ | met
  · rw [ended] at same
    exact ⟨ended, held.trans same⟩
  · exact met

/-- Where fewer bytes than asked for are in view, there are no more. -/
theorem met_fill (awaits : stream.Under (Awaits failure)) {count : Nat}
    (short : (stream.fill count).ahead.length < count) : (stream.fill count).Under (Met failure) := by
  rcases draw_enough count stream.source stream.ahead with enough | ended
  · have inView : count ≤ (stream.fill count).ahead.length := enough
    omega
  · exact (awaits.fill (lasting_awaits failure) count).met ended

theorem met_peek (awaits : stream.Under (Awaits failure)) (none : stream.peek.1 = none) :
    stream.peek.2.Under (Met failure) := by
  have following : stream.following = [] := by
    by_contra some
    rcases Utf8.exists_front? some with ⟨c, width, found⟩
    rw [peek_eq, found] at none
    contradiction
  have ahead : (stream.fill 1).ahead = [] := by
    have same := following_fill 1 stream
    rw [following] at same
    exact (List.append_eq_nil_iff.mp same).1
  have met : (stream.fill 1).Under (Met failure) := met_fill awaits (by rw [ahead]; exact Nat.one_pos)
  show stream.fillCharacter.Under (Met failure)
  unfold fillCharacter
  simpa only [ahead] using met

theorem met_spanUpTo {bytes : List UInt8} {total limit : Nat} {text : Text} (test : Char → Bool)
    (above : text.length < limit) (shows : (view bytes total).Shows stream text)
    (awaits : stream.Under (Awaits failure)) (all : text.dropWhile test = []) :
    (stream.spanUpTo test limit).2.Under (Met failure) := by
  -- By induction on the limit, along the characters passed.
  induction limit generalizing stream text with
  | zero => omega
  | succ limit ih =>
    have head : stream.peek.1 = text.head? := (faithful_view bytes total).head_peek shows
    have seen := ((faithful_view bytes total).after_peek shows).shows
    have kept := awaits.peek (lasting_awaits failure)
    unfold spanUpTo
    cases text with
    | nil =>
      have met := met_peek awaits head
      rcases peeked : stream.peek with ⟨found, later⟩
      rw [peeked] at head met
      obtain rfl : found = none := head
      exact met
    | cons c rest =>
      have holds : test c = true := by
        by_contra fails
        rw [List.dropWhile_cons_of_neg fails] at all
        contradiction
      rw [List.dropWhile_cons_of_pos holds] at all
      have shown : (view bytes total).Shows stream.peek.2 (c :: rest) := seen
      rcases peeked : stream.peek with ⟨found, later⟩
      rw [peeked] at head shown kept
      obtain rfl : found = some c := head
      have next := ((faithful_view bytes total).after_next shown).shows
      have passed := ih (by simpa using above) next (kept.next (lasting_awaits failure)) all
      simp only [holds, if_true]
      exact passed

theorem met_span {bytes : List UInt8} {total : Nat} {text : Text} (test : Char → Bool)
    (shows : (view bytes total).Shows stream text) (awaits : stream.Under (Awaits failure))
    (all : text.dropWhile test = []) : (stream.span test).2.Under (Met failure) :=
  met_spanUpTo test (Nat.lt_succ_of_le shows.length_le) shows awaits all

end Ends

theorem faithful_under (bytes : List UInt8) (total : Nat)
    {condition : Source → Option String → Prop} (lasting : Lasting condition) :
    ((view bytes total).keeping (Under condition)).Faithful :=
  (faithful_view bytes total).keeping (fun under => under.peek lasting)
    (fun under => under.next lasting) (fun test under => under.span lasting test)
    (fun place under => under.moveTo place) fun place under => under.quote lasting place

theorem Under.lex {condition : Source → Option String → Prop} {stream : Stream}
    (lasting : Lasting condition) (under : stream.Under condition) (rule : Rule) :
    (stream.lex rule).2.Under condition := by
  have faithful := faithful_under stream.following (stream.offset + stream.following.length) lasting
  have agrees := (rule.follows_token faithful : View.Follows _ [] _ _) stream _
    ⟨placed_self stream, under⟩ fun _ member => nomatch member
  unfold Stream.lex
  generalize rule.token stream = given, rule.token (Utf8.decode stream.following) = expected
    at agrees ⊢
  cases agrees with
  | ok passed => exact passed.shows.2
  | error same passed => exact passed.shows.2.moveTo stream.offset

theorem Under.onStream {condition : Source → Option String → Prop} {stream : Stream}
    (lasting : Lasting condition) (under : stream.Under condition) (step : Step) :
    (step.onStream stream).2.Under condition := by
  cases step with
  | tryConsume rule => exact under.lex lasting rule
  | consume rule => exact under.lex lasting rule
  | skipBlanks => exact under.span lasting Text.isBlank
  | isExhausted => exact under.peek lasting

end Stream

end NetTrace
