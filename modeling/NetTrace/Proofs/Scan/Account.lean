import NetTrace.Scan

/-!
Accounts of refusals: what a failure tells of the place from which a scan set out. A scan keeps to an
account if the place stays behind it wherever it goes, and every failure tells of that place what the
account asks for. Each way to put scans together keeps to every account that its parts keep to.
-/

namespace NetTrace

namespace Cause

def input? : Cause → Option Text
  | unexpectedCharacter _ _ input => some input
  | unexpectedEnd _ => none
  | unterminatedName input => some input
  | emptyBody _ input => some input
  | unknownRadix _ input => some input
  | unterminatedString input => some input
  | malformedRange _ input => some input
  | unbalanced _ _ _ input => some input
  | missingWord _ input => some input
  | missing _ input => some input
  | overflow _ _ => none
  | unreadableFile _ _ => none
  | readFailure _ => none

def isUnavailable : Cause → Bool
  | unreadableFile _ _ => true
  | readFailure _ => true
  | _ => false

theorem available_of_quoting {cause : Cause} {input : Text} (quoting : cause.input? = some input) :
    cause.isUnavailable = false := by
  cases cause with
  | unreadableFile path reason => contradiction
  | readFailure reason => contradiction
  | _ => rfl

end Cause

def Failure.quotes (failure : Failure) : List Text :=
  failure.contexts.map Context.input ++ failure.cause.input?.toList

/-- What it means to be on the way from a place, and what a failure has to tell of it. -/
structure Account (σ : Type) where
  Reaches : σ → σ → Prop
  Tells : σ → Failure → Prop

namespace Account

variable {σ μ α β : Type}

/-- The operations of the input stay on the way, and what is quoted from a place that was marked on
    the way is told of it. -/
structure Lawful [Input σ μ] (account : Account σ) : Prop where
  refl (here : σ) : account.Reaches here here
  trans {start here there : σ} : account.Reaches start here → account.Reaches here there →
    account.Reaches start there
  peek (here : σ) : account.Reaches here (Input.peek here).2
  next (here : σ) : account.Reaches here (Input.next here).2
  span (test : Char → Bool) (here : σ) : account.Reaches here (Input.span test here).2
  quote (mark : μ) (here : σ) : account.Reaches here (Input.quote mark here).2
  rewind {start place here : σ} : account.Reaches start place → account.Reaches start here →
    account.Reaches start (Input.rewind (Input.mark place) here)
  earlier {start here : σ} {failure : Failure} : account.Reaches start here →
    account.Tells here failure → account.Tells start failure
  quoting {cause : Text → Cause} (place here : σ) : (∀ input, (cause input).input? = some input) →
    account.Tells place { cause := cause (Input.quote (Input.mark place) here).1 }
  silent {cause : Cause} (here : σ) : cause.input? = none → cause.isUnavailable = false →
    account.Tells here { cause }
  within {place : σ} {failure : Failure} (name : String) (here : σ) : account.Tells place failure →
    account.Tells place (failure.within name (Input.quote (Input.mark place) here).1)

inductive Holds (account : Account σ) (start : σ) : EStateM.Result Failure σ α → Prop
  | ok {value rest} : account.Reaches start rest → Holds account start (.ok value rest)
  | error {failure rest} : account.Reaches start rest → account.Tells start failure →
      Holds account start (.error failure rest)

def Covers (account : Account σ) (start : σ) (scan : Scan σ α) : Prop :=
  ∀ here, account.Reaches start here → account.Holds start (scan here)

namespace Covers

variable {account : Account σ} {start : σ}

theorem pure (value : α) : account.Covers start (Pure.pure value) :=
  fun _ reached => .ok reached

theorem throw {failure : Failure} (told : account.Tells start failure) :
    account.Covers start (throw failure : Scan σ α) :=
  fun _ reached => .error reached told

theorem bind {scan : Scan σ α} {next : α → Scan σ β} (first : account.Covers start scan)
    (second : ∀ value, account.Covers start (next value)) :
    account.Covers start (scan >>= next) := by
  intro here reached
  simp only [Bind.bind, EStateM.bind]
  have holds := first here reached
  generalize scan here = given at holds ⊢
  cases holds with
  | ok reached' => exact second _ _ reached'
  | error reached' told => exact .error reached' told

theorem map {scan : Scan σ α} (f : α → β) (covers : account.Covers start scan) :
    account.Covers start (f <$> scan) := by
  intro here reached
  simp only [Functor.map, EStateM.map]
  have holds := covers here reached
  generalize scan here = given at holds ⊢
  cases holds with
  | ok reached' => exact .ok reached'
  | error reached' told => exact .error reached' told

theorem ite {condition : Prop} [Decidable condition] {yes no : Scan σ α}
    (positive : account.Covers start yes) (negative : account.Covers start no) :
    account.Covers start (if condition then yes else no) := by
  split
  · exact positive
  · exact negative

theorem outcome {scan : Scan σ α} {next : Except Failure α → Scan σ β}
    (covers : account.Covers start scan) (given : ∀ value, account.Covers start (next (.ok value)))
    (refused : ∀ failure, account.Tells start failure → account.Covers start (next (.error failure))) :
    account.Covers start (Scan.outcome scan >>= next) := by
  intro here reached
  simp only [Bind.bind, EStateM.bind, Scan.outcome]
  have holds := covers here reached
  generalize scan here = result at holds ⊢
  cases holds with
  | ok reached' => exact given _ _ reached'
  | error reached' told => exact refused _ told _ reached'

theorem otherwise {first second : Scan σ α} (covers : account.Covers start first)
    (covers' : account.Covers start second) : account.Covers start (Scan.otherwise first second) :=
  outcome covers (fun _ => .pure _) fun _ _ => covers'

theorem collect (limit : Nat) {step : Scan σ (Option α)} (covers : account.Covers start step) :
    account.Covers start (Scan.collect limit step) := by
  induction limit with
  | zero => exact .pure _
  | succ limit ih =>
    refine .bind covers fun found => ?_
    cases found with
    | none => exact .pure _
    | some value => exact .bind ih fun _ => .pure _

end Covers

variable [Input σ μ] {account : Account σ} {start : σ}

theorem covers_remaining {next : Nat → Scan σ α} (covers : ∀ bytes, account.Covers start (next bytes)) :
    account.Covers start (Scan.remaining >>= next) :=
  fun here reached => covers (Input.remaining here) here reached

theorem covers_collectAll {step : Scan σ (Option α)} (covers : account.Covers start step) :
    account.Covers start (Scan.collectAll step) :=
  covers_remaining fun _ => .collect _ covers

theorem covers_mark {next : μ → Scan σ α}
    (covers : ∀ place, account.Reaches start place → account.Covers start (next (Input.mark place))) :
    account.Covers start (Scan.mark >>= next) :=
  fun here reached => covers here reached here reached

section Primitives

variable (lawful : account.Lawful)

include lawful

theorem covers_peek : account.Covers start Scan.peek :=
  fun _ reached => .ok (lawful.trans reached (lawful.peek _))

theorem covers_next : account.Covers start Scan.next :=
  fun _ reached => .ok (lawful.trans reached (lawful.next _))

theorem covers_span (test : Char → Bool) : account.Covers start (Scan.span test) :=
  fun _ reached => .ok (lawful.trans reached (lawful.span test _))

theorem covers_skipBlanks : account.Covers start Scan.skipBlanks := covers_span lawful _

theorem covers_rewind {place : σ} (marked : account.Reaches start place) :
    account.Covers start (Scan.rewind (Input.mark place)) :=
  fun _ reached => .ok (lawful.rewind marked reached)

theorem covers_refuseFrom {place : σ} {cause : Text → Cause} (marked : account.Reaches start place)
    (quoting : ∀ input, (cause input).input? = some input) :
    account.Covers start (Scan.refuseFrom (Input.mark place) cause : Scan σ α) := by
  intro here reached
  have told := lawful.earlier marked (lawful.quoting place here quoting)
  exact .error (lawful.trans reached (lawful.quote _ _)) told

theorem covers_refuse {cause : Text → Cause} (quoting : ∀ input, (cause input).input? = some input) :
    account.Covers start (Scan.refuse cause : Scan σ α) :=
  fun here reached => covers_refuseFrom lawful reached quoting here reached

theorem covers_refuseEnd (expected : String) :
    account.Covers start (Scan.refuseEnd expected : Scan σ α) :=
  .throw (lawful.silent start rfl rfl)

theorem covers_rewinding {scan : Scan σ α} (covers : account.Covers start scan) :
    account.Covers start (Scan.rewinding scan) := by
  intro here reached
  have holds := covers here reached
  simp only [Scan.rewinding]
  generalize scan here = given at holds ⊢
  cases holds with
  | ok reached' => exact .ok reached'
  | error reached' told => exact .error (lawful.rewind reached reached') told

theorem covers_phrase {scan : Scan σ α} (name : String)
    (covers : ∀ place, account.Covers place scan) : account.Covers start (Scan.phrase name scan) := by
  intro here reached
  have holds := covers here here (lawful.refl here)
  simp only [Scan.phrase]
  generalize scan here = given at holds ⊢
  cases holds with
  | ok reached' => exact .ok (lawful.trans reached reached')
  | @error failure rest reached' told =>
    have quoted := lawful.trans (lawful.trans reached reached') (lawful.quote (Input.mark here) rest)
    exact .error (lawful.rewind reached quoted) (lawful.earlier reached (lawful.within name rest told))

theorem covers_optionally {scan : Scan σ α} (covers : account.Covers start scan) :
    account.Covers start (Scan.optionally scan) :=
  .outcome (covers_rewinding lawful covers) (fun _ => .pure _) fun _ _ => .pure _

theorem covers_symbol (c : Char) : account.Covers start (Scan.symbol c) := by
  refine covers_rewinding lawful (.bind (covers_skipBlanks lawful) fun _ => ?_)
  refine .bind (covers_peek lawful) fun found => .ite ?_ ?_
  · exact .bind (covers_next lawful) fun _ => .pure _
  · exact covers_refuse lawful fun _ => rfl

theorem covers_facing (c : Char) : account.Covers start (Scan.facing c) :=
  .bind (covers_skipBlanks lawful) fun _ => .bind (covers_peek lawful) fun _ => .pure _

theorem covers_commaListUpTo (limit : Nat) {item : Scan σ α} (covers : account.Covers start item) :
    account.Covers start (Scan.commaListUpTo limit item) := by
  refine .bind covers fun first => .bind (.collect limit ?_) fun _ => .pure _
  refine .bind (covers_facing lawful ',') fun comma => .ite ?_ (.pure _)
  exact .bind (covers_next lawful) fun _ => .bind covers fun _ => .pure _

theorem covers_commaList {item : Scan σ α} (covers : account.Covers start item) :
    account.Covers start (Scan.commaList item) :=
  covers_remaining fun _ => covers_commaListUpTo lawful _ covers

end Primitives

end Account

end NetTrace
