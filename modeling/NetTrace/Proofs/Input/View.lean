import NetTrace.Scan

/-!
Inputs that show a text. Where an input is viewed as showing a text, a scan of it follows the scan
of that text: both give the same value, or both refuse for causes that differ in their excerpts at
most, and what the input shows in the end is what is left of the text.
-/

namespace NetTrace

def Cause.unquoted : Cause → Cause
  | unexpectedCharacter expected found _ => unexpectedCharacter expected found []
  | unexpectedEnd expected => unexpectedEnd expected
  | unterminatedName _ => unterminatedName []
  | emptyBody radix _ => emptyBody radix []
  | unknownRadix found _ => unknownRadix found []
  | unterminatedString _ => unterminatedString []
  | malformedRange reason _ => malformedRange reason []
  | unbalanced opening closing reason _ => unbalanced opening closing reason []
  | missingWord word _ => missingWord word []
  | missing what _ => missing what []
  | overflow literal bits => overflow literal bits
  | unreadableFile path reason => unreadableFile path reason
  | readFailure reason => readFailure reason

namespace Failure

def unquoted (failure : Failure) : Failure :=
  { cause := failure.cause.unquoted
    contexts := failure.contexts.map fun context => { context with input := [] } }

theorem unquoted_within (failure : Failure) (phrase : String) (input : Text) :
    (failure.within phrase input).unquoted = failure.unquoted.within phrase [] := rfl

theorem trail_unquoted (failure : Failure) : failure.unquoted.trail = failure.trail := by
  simp only [trail, unquoted, List.map_map]
  rfl

end Failure

/-- How the states of an input are understood: the text that a state shows, and the text in front
    of which a mark stands. -/
structure View (σ μ : Type) where
  Shows : σ → Text → Prop
  Stands : σ → μ → Text → Prop

namespace View

variable {σ μ α β : Type}

structure Passes (view : View σ μ) (input later : σ) (text : Text) : Prop where
  shows : view.Shows later text
  stands : ∀ {mark place}, view.Stands input mark place → view.Stands later mark place

theorem Passes.trans {view : View σ μ} {input middle last : σ} {text rest : Text}
    (first : view.Passes input middle text) (second : view.Passes middle last rest) :
    view.Passes input last rest :=
  ⟨second.shows, fun stands => second.stands (first.stands stands)⟩

structure Faithful [Input σ μ] (view : View σ μ) : Prop where
  stands_mark {input text} : view.Shows input text → view.Stands input (Input.mark input) text
  head_peek {input text} : view.Shows input text → (Input.peek input).1 = text.head?
  after_peek {input text} : view.Shows input text → view.Passes input (Input.peek input).2 text
  head_next {input text} : view.Shows input text → (Input.next input).1 = text.head?
  after_next {input text} : view.Shows input text →
    view.Passes input (Input.next input).2 text.tail
  front_span {input text} (test : Char → Bool) : view.Shows input text →
    (Input.span test input).1 = text.takeWhile test
  after_span {input text} (test : Char → Bool) : view.Shows input text →
    view.Passes input (Input.span test input).2 (text.dropWhile test)
  after_rewind {input mark place} : view.Stands input mark place →
    view.Passes input (Input.rewind mark input) place
  after_quote {input text mark place} : view.Shows input text → view.Stands input mark place →
    view.Passes input (Input.quote mark input).2 text
  remaining {input text} : view.Shows input text → text.length ≤ Input.remaining input

inductive Agrees (view : View σ μ) (input : σ) :
    EStateM.Result Failure σ α → EStateM.Result Failure Text α → Prop
  | ok {value later rest} : view.Passes input later rest →
      Agrees view input (.ok value later) (.ok value rest)
  | error {failure reason later rest} : failure.unquoted = reason.unquoted →
      view.Passes input later rest → Agrees view input (.error failure later) (.error reason rest)

theorem Agrees.after {view : View σ μ} {input later : σ} {rest : Text}
    {given : EStateM.Result Failure σ α} {expected : EStateM.Result Failure Text α}
    (agrees : view.Agrees later given expected) (passed : view.Passes input later rest) :
    view.Agrees input given expected := by
  cases agrees with
  | ok passed' => exact .ok (passed.trans passed')
  | error same passed' => exact .error same (passed.trans passed')

/-- The first scan does on every input what the second does on the text shown, as long as the marks
    stand where they are paired to. -/
def Follows (view : View σ μ) (marks : List (μ × Text)) (scan : Scan σ α) (onText : Scan Text α) :
    Prop :=
  ∀ input text, view.Shows input text → (∀ pair ∈ marks, view.Stands input pair.1 pair.2) →
    view.Agrees input (scan input) (onText text)

namespace Follows

variable {view : View σ μ} {marks : List (μ × Text)}

theorem pure (value : α) : view.Follows marks (Pure.pure value) (Pure.pure value) :=
  fun _ _ shows _ => .ok ⟨shows, id⟩

theorem throw {failure reason : Failure} (same : failure.unquoted = reason.unquoted) :
    view.Follows marks (throw failure : Scan σ α) (throw reason) :=
  fun _ _ shows _ => .error same ⟨shows, id⟩

theorem refuseEnd (expected : String) :
    view.Follows marks (Scan.refuseEnd expected : Scan σ α) (Scan.refuseEnd expected) :=
  throw rfl

theorem bind {scan : Scan σ α} {onText : Scan Text α} {next : α → Scan σ β}
    {nextOnText : α → Scan Text β} (first : view.Follows marks scan onText)
    (second : ∀ value, view.Follows marks (next value) (nextOnText value)) :
    view.Follows marks (scan >>= next) (onText >>= nextOnText) := by
  intro input text shows stand
  simp only [Bind.bind, EStateM.bind]
  have agrees := first input text shows stand
  generalize scan input = given, onText text = expected at agrees ⊢
  cases agrees with
  | error same passed => exact .error same passed
  | @ok value later rest passed =>
    exact (second value later rest passed.shows fun pair member =>
      passed.stands (stand pair member)).after passed

theorem map {scan : Scan σ α} {onText : Scan Text α} (f : α → β)
    (follows : view.Follows marks scan onText) :
    view.Follows marks (f <$> scan) (f <$> onText) := by
  intro input text shows stand
  simp only [Functor.map, EStateM.map]
  have agrees := follows input text shows stand
  generalize scan input = given, onText text = expected at agrees ⊢
  cases agrees with
  | ok passed => exact .ok passed
  | error same passed => exact .error same passed

theorem ite {condition : Prop} [Decidable condition] {yes no : Scan σ α} {yes' no' : Scan Text α}
    (positive : condition → view.Follows marks yes yes')
    (negative : ¬ condition → view.Follows marks no no') :
    view.Follows marks (if condition then yes else no) (if condition then yes' else no') := by
  split
  · exact positive ‹_›
  · exact negative ‹_›

theorem outcome {scan : Scan σ α} {onText : Scan Text α} {next : Except Failure α → Scan σ β}
    {nextOnText : Except Failure α → Scan Text β} (follows : view.Follows marks scan onText)
    (given : ∀ value, view.Follows marks (next (.ok value)) (nextOnText (.ok value)))
    (refused : ∀ failure reason, failure.unquoted = reason.unquoted →
      view.Follows marks (next (.error failure)) (nextOnText (.error reason))) :
    view.Follows marks (Scan.outcome scan >>= next) (Scan.outcome onText >>= nextOnText) := by
  intro input text shows stand
  simp only [Bind.bind, EStateM.bind, Scan.outcome]
  have agrees := follows input text shows stand
  generalize scan input = result, onText text = expected at agrees ⊢
  cases agrees with
  | @ok value later rest passed =>
    exact (given value later rest passed.shows fun pair member =>
      passed.stands (stand pair member)).after passed
  | @error failure reason later rest same passed =>
    exact (refused failure reason same later rest passed.shows fun pair member =>
      passed.stands (stand pair member)).after passed

theorem otherwise {first second : Scan σ α} {first' second' : Scan Text α}
    (follows : view.Follows marks first first') (follows' : view.Follows marks second second') :
    view.Follows marks (Scan.otherwise first second) (Scan.otherwise first' second') :=
  outcome follows (fun _ => .pure _) fun _ _ _ => follows'

theorem collect (limit : Nat) {step : Scan σ (Option α)} {stepOnText : Scan Text (Option α)}
    (follows : view.Follows marks step stepOnText) :
    view.Follows marks (Scan.collect limit step) (Scan.collect limit stepOnText) := by
  induction limit with
  | zero => exact .pure _
  | succ limit ih =>
    refine .bind follows fun found => ?_
    cases found with
    | none => exact .pure _
    | some value => exact .bind ih fun _ => .pure _

end Follows

variable [Input σ μ] {view : View σ μ} {marks : List (μ × Text)}

section Primitives

variable (faithful : view.Faithful)

include faithful

theorem follows_peek : view.Follows marks Scan.peek Scan.peek := by
  intro input text shows _
  have head := faithful.head_peek shows
  show view.Agrees input (.ok (Input.peek input).1 (Input.peek input).2) (.ok text.head? text)
  rw [head]
  exact .ok (faithful.after_peek shows)

theorem follows_next : view.Follows marks Scan.next Scan.next := by
  intro input text shows _
  have head := faithful.head_next shows
  show view.Agrees input (.ok (Input.next input).1 (Input.next input).2) (.ok text.head? text.tail)
  rw [head]
  exact .ok (faithful.after_next shows)

theorem follows_span (test : Char → Bool) :
    view.Follows marks (Scan.span test) (Scan.span test) := by
  intro input text shows _
  have front := faithful.front_span test shows
  show view.Agrees input (.ok (Input.span test input).1 (Input.span test input).2)
    (.ok (text.takeWhile test) (text.dropWhile test))
  rw [front]
  exact .ok (faithful.after_span test shows)

theorem follows_skipBlanks : view.Follows marks Scan.skipBlanks Scan.skipBlanks :=
  follows_span faithful _

theorem follows_mark {next : μ → Scan σ α} {nextOnText : Text → Scan Text α}
    (follows : ∀ mark place, view.Follows ((mark, place) :: marks) (next mark) (nextOnText place)) :
    view.Follows marks (Scan.mark >>= next) (Scan.mark >>= nextOnText) := by
  intro input text shows stand
  refine follows (Input.mark input) text input text shows ?_
  intro pair member
  rcases List.mem_cons.mp member with rfl | member
  · exact faithful.stands_mark shows
  · exact stand pair member

theorem follows_rewind {mark : μ} {place : Text} (member : (mark, place) ∈ marks) :
    view.Follows marks (Scan.rewind mark) (Scan.rewind place) :=
  fun _ _ _ stand => .ok (faithful.after_rewind (stand _ member))

theorem follows_refuseFrom {mark : μ} {place : Text} {cause : Text → Cause}
    (member : (mark, place) ∈ marks) (same : ∀ a b, (cause a).unquoted = (cause b).unquoted) :
    view.Follows marks (Scan.refuseFrom mark cause : Scan σ α) (Scan.refuseFrom place cause) := by
  intro input text shows stand
  refine .error ?_ (faithful.after_quote shows (stand _ member))
  simp only [Failure.unquoted, same _ (Text.excerpt place)]

theorem follows_refuse {cause : Text → Cause}
    (same : ∀ a b, (cause a).unquoted = (cause b).unquoted) :
    view.Follows marks (Scan.refuse cause : Scan σ α) (Scan.refuse cause) :=
  follows_mark faithful fun _ _ => follows_refuseFrom faithful (List.mem_cons_self ..) same

theorem follows_rewinding {scan : Scan σ α} {onText : Scan Text α}
    (follows : view.Follows marks scan onText) :
    view.Follows marks (Scan.rewinding scan) (Scan.rewinding onText) := by
  intro input text shows stand
  have agrees := follows input text shows stand
  simp only [Scan.rewinding]
  generalize scan input = given, onText text = expected at agrees ⊢
  cases agrees with
  | ok passed => exact .ok passed
  | error same passed =>
    have stands := passed.stands (faithful.stands_mark shows)
    exact .error same (passed.trans (faithful.after_rewind stands))

theorem follows_phrase {scan : Scan σ α} {onText : Scan Text α} (name : String)
    (follows : view.Follows marks scan onText) :
    view.Follows marks (Scan.phrase name scan) (Scan.phrase name onText) := by
  intro input text shows stand
  have agrees := follows input text shows stand
  simp only [Scan.phrase]
  generalize scan input = given, onText text = expected at agrees ⊢
  cases agrees with
  | ok passed => exact .ok passed
  | error same passed =>
    have quoted := passed.trans
      (faithful.after_quote passed.shows (passed.stands (faithful.stands_mark shows)))
    have stands := quoted.stands (faithful.stands_mark shows)
    refine .error ?_ (quoted.trans (faithful.after_rewind stands))
    rw [Failure.unquoted_within, Failure.unquoted_within, same]

theorem follows_optionally {scan : Scan σ α} {onText : Scan Text α}
    (follows : view.Follows marks scan onText) :
    view.Follows marks (Scan.optionally scan) (Scan.optionally onText) :=
  .outcome (follows_rewinding faithful follows) (fun _ => .pure _) fun _ _ _ => .pure _

theorem follows_symbol (c : Char) : view.Follows marks (Scan.symbol c) (Scan.symbol c) := by
  refine follows_rewinding faithful (.bind (follows_skipBlanks faithful) fun _ => ?_)
  refine .bind (follows_peek faithful) fun found => .ite (fun _ => ?_) fun _ => ?_
  · exact .bind (follows_next faithful) fun _ => .pure _
  · exact follows_refuse faithful fun _ _ => rfl

theorem follows_facing (c : Char) : view.Follows marks (Scan.facing c) (Scan.facing c) :=
  .bind (follows_skipBlanks faithful) fun _ => .bind (follows_peek faithful) fun _ => .pure _

theorem follows_commaListUpTo (limit : Nat) {item : Scan σ α} {itemOnText : Scan Text α}
    (follows : view.Follows marks item itemOnText) :
    view.Follows marks (Scan.commaListUpTo limit item) (Scan.commaListUpTo limit itemOnText) := by
  refine .bind follows fun first => .bind (.collect limit ?_) fun _ => .pure _
  refine .bind (follows_facing faithful ',') fun comma => .ite (fun _ => ?_) fun _ => .pure _
  exact .bind (follows_next faithful) fun _ => .bind follows fun _ => .pure _

end Primitives

end View

end NetTrace
