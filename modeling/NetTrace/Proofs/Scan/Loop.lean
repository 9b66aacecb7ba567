import NetTrace.Proofs.Scan.Limits

namespace NetTrace

namespace Loop

variable {σ ι ρ γ : Type}

/-- What a turn comes to. It does its work and gives an item, and the loop goes on or ends with it, or
    the loop stops there. -/
inductive Turn (σ ι ρ : Type)
  | again (item : ι) (next : σ)
  | last (item : ι) (result : ρ)
  | stop (result : ρ)

/-- Turn after turn up to the one that ends the loop, with the items of all the turns that did their
    work. No limit is set to their number. -/
inductive Ends (turn : σ → Turn σ ι ρ) : σ → List ι → ρ → Prop
  | stop {state result} : turn state = .stop result → Ends turn state [] result
  | last {state item result} : turn state = .last item result → Ends turn state [item] result
  | again {state item next items result} : turn state = .again item next →
      Ends turn next items result → Ends turn state (item :: items) result

variable {turn : σ → Turn σ ι ρ} {measures : σ → Nat → Prop} {state : σ} {size : Nat}

structure Shrinks (turn : σ → Turn σ ι ρ) (measures : σ → Nat → Prop) : Prop where
  again {state size item next} : measures state size → turn state = .again item next →
    ∃ less < size, measures next less
  last {state size item result} : measures state size → turn state = .last item result → 0 < size

theorem Shrinks.exists_ends (shrinks : Shrinks turn measures) (measured : measures state size) :
    ∃ items result, Ends turn state items result ∧ items.length ≤ size := by
  induction size using Nat.strongRecOn generalizing state with
  | ind size ih =>
    cases came : turn state with
    | stop result => exact ⟨[], result, .stop came, Nat.zero_le _⟩
    | last item result => exact ⟨[item], result, .last came, shrinks.last measured came⟩
    | again item next =>
      obtain ⟨less, below, measured'⟩ := shrinks.again measured came
      obtain ⟨items, result, ends, bound⟩ := ih less below measured'
      refine ⟨item :: items, result, .again came ends, ?_⟩
      rw [List.length_cons]
      omega

/-- A loop with a limit, which gives what its items and its result come to. It takes a turn as the loop
    without a limit does, and then goes on with a limit that is lower by one. -/
structure Limits (turn : σ → Turn σ ι ρ) (upTo : Nat → σ → γ) (finish : List ι → ρ → γ) : Prop where
  stop {state result} (limit : Nat) : turn state = .stop result →
    upTo (limit + 1) state = finish [] result
  last {state item result} (limit : Nat) : turn state = .last item result →
    upTo (limit + 1) state = finish [item] result
  again {limit state item next items result} : turn state = .again item next →
    upTo limit next = finish items result → upTo (limit + 1) state = finish (item :: items) result

variable {upTo : Nat → σ → γ} {finish : List ι → ρ → γ} {items : List ι} {result : ρ}

theorem Limits.of_ends (limits : Limits turn upTo finish) (ends : Ends turn state items result)
    {limit : Nat} (above : items.length < limit) : upTo limit state = finish items result := by
  -- By induction on the run: every turn that does its work uses up one of the limit.
  induction ends generalizing limit with
  | stop stopped =>
    obtain ⟨less, rfl⟩ : ∃ less, limit = less + 1 := ⟨limit - 1, by omega⟩
    exact limits.stop less stopped
  | last ended =>
    obtain ⟨less, rfl⟩ : ∃ less, limit = less + 1 := ⟨limit - 1, by omega⟩
    exact limits.last less ended
  | again goes _ ih =>
    obtain ⟨less, rfl⟩ : ∃ less, limit = less + 1 := ⟨limit - 1, by omega⟩
    rw [List.length_cons] at above
    exact limits.again goes (ih (by omega))

/-- The loop ends after no more turns than the size, and does the same under every limit above the
    size. -/
structure Settles (turn : σ → Turn σ ι ρ) (upTo : Nat → σ → γ) (finish : List ι → ρ → γ) (state : σ)
    (size : Nat) (items : List ι) (result : ρ) : Prop where
  ends : Ends turn state items result
  bounded : items.length ≤ size
  limited {limit : Nat} : size < limit → upTo limit state = finish items result

theorem Settles.mono {more : Nat} (settles : Settles turn upTo finish state size items result)
    (below : size ≤ more) : Settles turn upTo finish state more items result :=
  ⟨settles.ends, settles.bounded.trans below, fun above => settles.limited (by omega)⟩

theorem Shrinks.settles (shrinks : Shrinks turn measures) (limits : Limits turn upTo finish)
    (measured : measures state size) :
    ∃ items result, Settles turn upTo finish state size items result := by
  obtain ⟨items, result, ends, bounded⟩ := shrinks.exists_ends measured
  exact ⟨items, result, ends, bounded, fun above => limits.of_ends ends (by omega)⟩

end Loop

namespace Scan

variable {σ α : Type} {step : Scan σ (Option α)} {input : σ} {items : List α}
  {result : EStateM.Result Failure σ Unit}

def turn (step : Scan σ (Option α)) (input : σ) : Loop.Turn σ α (EStateM.Result Failure σ Unit) :=
  match step input with
  | .ok (some value) rest => .again value rest
  | .ok none rest => .stop (.ok () rest)
  | .error failure rest => .stop (.error failure rest)

def gather (items : List α) :
    EStateM.Result Failure σ Unit → EStateM.Result Failure σ (List α)
  | .ok _ rest => .ok items rest
  | .error failure rest => .error failure rest

theorem turn_eq_again {value : α} {rest : σ} :
    turn step input = .again value rest ↔ step input = .ok (some value) rest := by
  unfold turn
  cases step input with
  | ok found later => cases found <;> simp
  | error failure later => simp

theorem turn_ne_last {value : α} : turn step input ≠ .last value result := by
  unfold turn
  cases step input with
  | ok found later => cases found <;> simp
  | error failure later => simp

theorem turn_eq_stop : turn step input = .stop result ↔
    (∃ rest, step input = .ok none rest ∧ result = .ok () rest) ∨
      ∃ failure rest, step input = .error failure rest ∧ result = .error failure rest := by
  unfold turn
  cases step input with
  | ok found later => cases found <;> simp [eq_comm]
  | error failure later => simp [eq_comm]

theorem limits_collect (step : Scan σ (Option α)) :
    Loop.Limits (turn step) (fun limit => collect limit step) gather := by
  constructor
  case stop =>
    intro input result limit stopped
    rcases turn_eq_stop.mp stopped with ⟨rest, run, rfl⟩ | ⟨failure, rest, run, rfl⟩
    · simp only [collect, Bind.bind, EStateM.bind, run]
      rfl
    · simp only [collect, Bind.bind, EStateM.bind, run, gather]
  case last =>
    intro input value result limit ended
    exact absurd ended turn_ne_last
  case again =>
    intro limit input value next values result goes others
    simp only [collect, Bind.bind, EStateM.bind, turn_eq_again.mp goes, others]
    cases result <;> rfl

end Scan

end NetTrace
