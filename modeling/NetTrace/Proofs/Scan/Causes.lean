import NetTrace.Proofs.Scan.OnText

namespace NetTrace.Scan

variable {α β : Type} {text middle rest : Text} {cause : Cause}

def RefusesFor (scan : Scan Text α) (text : Text) (cause : Cause) : Prop :=
  ∃ failure rest, scan text = .error failure rest ∧ failure.cause = cause

namespace RefusesFor

variable {scan : Scan Text α} {next : α → Scan Text β} {value : α}

theorem not_ok (refuses : RefusesFor scan text cause) : scan text ≠ .ok value rest := by
  obtain ⟨failure, left, refused, -⟩ := refuses
  rw [refused]
  exact fun same => by cases same

theorem refuse (quoted : Text → Cause) (text : Text) :
    RefusesFor (Scan.refuse quoted : Scan Text α) text (quoted (Text.excerpt text)) :=
  ⟨_, text, rfl, rfl⟩

theorem phrase (name : String) (refuses : RefusesFor scan text cause) :
    RefusesFor (Scan.phrase name scan) text cause := by
  obtain ⟨failure, left, refused, same⟩ := refuses
  refine ⟨failure.within name (Text.excerpt text), text, ?_, same⟩
  simp only [Scan.phrase, refused]
  rfl

theorem rewinding (refuses : RefusesFor scan text cause) :
    RefusesFor (Scan.rewinding scan) text cause := by
  obtain ⟨failure, left, refused, same⟩ := refuses
  exact ⟨failure, text, rewinding_eq_error.mpr ⟨rfl, left, refused⟩, same⟩

theorem map (f : α → β) (refuses : RefusesFor scan text cause) :
    RefusesFor (f <$> scan) text cause := by
  obtain ⟨failure, left, refused, same⟩ := refuses
  refine ⟨failure, left, ?_, same⟩
  simp only [Functor.map, EStateM.map, refused]

theorem bind (refuses : RefusesFor scan text cause) : RefusesFor (scan >>= next) text cause := by
  obtain ⟨failure, left, refused, same⟩ := refuses
  refine ⟨failure, left, ?_, same⟩
  simp only [Bind.bind, EStateM.bind, refused]

theorem after (run : scan text = .ok value middle) (refuses : RefusesFor (next value) middle cause) :
    RefusesFor (scan >>= next) text cause := by
  rw [RefusesFor, bind_ok next run]
  exact refuses

end RefusesFor

section Inversion

variable {scan : Scan Text α} {next : α → Scan Text β}

theorem refusesFor_phrase {name : String} :
    RefusesFor (phrase name scan) text cause ↔ RefusesFor scan text cause := by
  refine ⟨fun refuses => ?_, RefusesFor.phrase name⟩
  obtain ⟨failure, left, refused, same⟩ := refuses
  obtain ⟨-, reason, middle, refused', rfl⟩ := phrase_eq_error.mp refused
  exact ⟨reason, middle, refused', same⟩

theorem refusesFor_rewinding :
    RefusesFor (rewinding scan) text cause ↔ RefusesFor scan text cause := by
  refine ⟨fun refuses => ?_, RefusesFor.rewinding⟩
  obtain ⟨failure, left, refused, same⟩ := refuses
  obtain ⟨-, middle, refused'⟩ := rewinding_eq_error.mp refused
  exact ⟨failure, middle, refused', same⟩

theorem refusesFor_map (f : α → β) :
    RefusesFor (f <$> scan) text cause ↔ RefusesFor scan text cause := by
  refine ⟨fun refuses => ?_, RefusesFor.map f⟩
  obtain ⟨failure, left, refused, same⟩ := refuses
  exact ⟨failure, left, map_eq_error.mp refused, same⟩

theorem refusesFor_bind : RefusesFor (scan >>= next) text cause ↔ RefusesFor scan text cause ∨
    ∃ value middle, scan text = .ok value middle ∧ RefusesFor (next value) middle cause := by
  constructor
  · intro refuses
    obtain ⟨failure, left, refused, same⟩ := refuses
    rcases bind_eq_error.mp refused with refused | ⟨value, middle, run, refused⟩
    · exact .inl ⟨failure, left, refused, same⟩
    · exact .inr ⟨value, middle, run, failure, left, refused, same⟩
  · intro refuses
    rcases refuses with refuses | ⟨value, middle, run, refuses⟩
    · exact refuses.bind
    · exact .after run refuses

end Inversion

def Spares (kind : Cause → Prop) (scan : Scan Text α) : Prop :=
  ∀ ⦃text cause⦄, RefusesFor scan text cause → ¬ kind cause

namespace Spares

variable {kind : Cause → Prop} {scan : Scan Text α} {more : α → Scan Text β}

theorem of_goes (goes : ∀ text, ∃ value rest, scan text = .ok value rest) : Spares kind scan := by
  intro text cause refuses
  obtain ⟨value, rest, run⟩ := goes text
  exact absurd run refuses.not_ok

theorem pure (value : α) : Spares kind (Pure.pure value : Scan Text α) :=
  of_goes fun text => ⟨value, text, rfl⟩

theorem peek : Spares kind (Scan.peek : Scan Text (Option Char)) :=
  of_goes fun _ => ⟨_, _, rfl⟩

theorem next : Spares kind (Scan.next : Scan Text (Option Char)) :=
  of_goes fun _ => ⟨_, _, rfl⟩

theorem span (test : Char → Bool) : Spares kind (Scan.span test : Scan Text Text) :=
  of_goes fun _ => ⟨_, _, rfl⟩

theorem mark : Spares kind (Scan.mark : Scan Text Text) :=
  of_goes fun _ => ⟨_, _, rfl⟩

theorem refuseFrom (start : Text) {quoted : Text → Cause} (other : ∀ input, ¬ kind (quoted input)) :
    Spares kind (Scan.refuseFrom start quoted : Scan Text α) := by
  intro text cause refuses
  obtain ⟨failure, left, refused, rfl⟩ := refuses
  cases refused
  exact other _

theorem refuse {quoted : Text → Cause} (other : ∀ input, ¬ kind (quoted input)) :
    Spares kind (Scan.refuse quoted : Scan Text α) :=
  fun text _ refuses => refuseFrom text other refuses

theorem refuseEnd {expected : String} (other : ¬ kind (.unexpectedEnd expected)) :
    Spares kind (Scan.refuseEnd expected : Scan Text α) := by
  intro text cause refuses
  obtain ⟨failure, left, refused, rfl⟩ := refuses
  cases refused
  exact other

theorem bind (first : Spares kind scan) (second : ∀ value, Spares kind (more value)) :
    Spares kind (scan >>= more) := by
  intro text cause refuses
  rcases refusesFor_bind.mp refuses with refuses | ⟨value, middle, -, refuses⟩
  · exact first refuses
  · exact second value refuses

theorem phrase (name : String) (spares : Spares kind scan) : Spares kind (Scan.phrase name scan) :=
  fun _ _ refuses => spares (refusesFor_phrase.mp refuses)

theorem rewinding (spares : Spares kind scan) : Spares kind (Scan.rewinding scan) :=
  fun _ _ refuses => spares (refusesFor_rewinding.mp refuses)

theorem optionally (scan : Scan Text α) : Spares kind (Scan.optionally scan) :=
  of_goes (optionally_goes scan)

theorem ite {condition : Prop} [Decidable condition] {other : Scan Text α}
    (positive : Spares kind scan) (negative : Spares kind other) :
    Spares kind (if condition then scan else other) := by
  split
  · exact positive
  · exact negative

end Spares

end NetTrace.Scan
