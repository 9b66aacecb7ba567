import NetTrace.Proofs.Input.View
import NetTrace.Proofs.Scan.OnText
import NetTrace.Proofs.Text.Blanks

namespace NetTrace

theorem Text.length_le_byteLength (text : Text) : text.length ≤ Text.byteLength text := by
  induction text with
  | nil => exact Nat.le_refl _
  | cons c rest ih =>
    have positive := c.utf8Size_pos
    simp only [List.length_cons, Text.byteLength_cons]
    omega

namespace Scan

variable {α : Type} {text : Text}

def Advances (step : Scan Text (Option α)) : Prop :=
  ∀ ⦃text value rest⦄, step text = .ok (some value) rest → rest.length < text.length

theorem advances_optionally {scan : Scan Text α} (passes : Passes 1 scan) :
    Advances (optionally scan) := by
  intro text value rest runs
  have shorter := passes.length (optionally_eq_some.mp runs)
  omega

theorem passes_of_optionally {scan : Scan Text α} (passes : Passes 1 scan) :
    Passes 0 (optionally scan) :=
  Passes.optionally (passes.mono (by omega))

theorem collect_congr {step other : Scan Text (Option α)} (advances : Advances step)
    (same : ∀ rest, rest.length ≤ text.length → step rest = other rest) {limit limit' : Nat}
    (above : text.length < limit) (above' : text.length < limit') :
    collect limit step text = collect limit' other text := by
  induction limit generalizing text limit' with
  | zero => omega
  | succ limit ih =>
    obtain ⟨limit', rfl⟩ : ∃ less, limit' = less + 1 := ⟨limit' - 1, by omega⟩
    simp only [collect, Bind.bind, EStateM.bind, ← same text (Nat.le_refl _)]
    cases runs : step text with
    | error failure rest => rfl
    | ok found rest =>
      cases found with
      | none => rfl
      | some value =>
        have shorter := advances runs
        have again : collect limit step rest = collect limit' other rest :=
          ih (fun t short => same t (by omega)) (by omega) (by omega)
        simp only [EStateM.bind, again]

theorem collectAll_eq {step : Scan Text (Option α)} (advances : Advances step) {limit : Nat}
    (above : text.length < limit) : collectAll step text = collect limit step text := by
  have bytes := Text.length_le_byteLength text
  change collect (Text.byteLength text + 1) step text = _
  exact collect_congr advances (fun _ _ => rfl) (by omega) above

def commaItem {σ μ : Type} [Input σ μ] (item : Scan σ α) : Scan σ (Option α) := do
  if ← facing ',' then
    let _ ← next
    return some (← item)
  else return none

theorem commaListUpTo_eq {σ μ : Type} [Input σ μ] (limit : Nat) (item : Scan σ α) :
    commaListUpTo limit item = do
      let first ← item
      let others ← collect limit (commaItem item)
      return first :: others := rfl

theorem run_facing (c : Char) (text : Text) :
    (facing c : Scan Text Bool) text =
      .ok (text.visible? == some c) (text.dropWhile Text.isBlank) := rfl

theorem advances_commaItem {item : Scan Text α} (passes : Passes 0 item) :
    Advances (commaItem item) := by
  intro text value rest runs
  rcases bind_eq_ok.mp runs with ⟨comma, middle, run, runs⟩
  rw [run_facing] at run
  rcases EStateM.Result.ok.inj run with ⟨rfl, rfl⟩
  split at runs
  · rename_i visible
    rcases bind_eq_ok.mp runs with ⟨_, _, run, runs⟩
    cases run
    rcases bind_eq_ok.mp runs with ⟨found, left, run, runs⟩
    cases runs
    have shorter := passes.length run
    have blanks := (List.dropWhile_sublist Text.isBlank (l := text)).length_le
    have comma : text.dropWhile Text.isBlank ≠ [] := by
      intro empty
      simp [Text.visible?, empty] at visible
    have positive := List.length_pos_iff.mpr comma
    rw [List.length_tail] at shorter
    omega
  · cases runs

theorem commaItem_congr {item other : Scan Text α}
    (same : ∀ rest, rest.length ≤ text.length → item rest = other rest) :
    commaItem item text = commaItem other text := by
  refine bind_congr fun comma rest run => ?_
  split
  · refine bind_congr fun _ left run' => ?_
    have shorter : left.length ≤ text.length := by
      cases run
      cases run'
      have blanks := (List.dropWhile_sublist Text.isBlank (l := text)).length_le
      rw [List.length_tail]
      omega
    simp only [Bind.bind, EStateM.bind, same left shorter]
  · rfl

theorem commaListUpTo_congr {item other : Scan Text α} (passes : Passes 0 item)
    (same : ∀ rest, rest.length ≤ text.length → item rest = other rest) {limit limit' : Nat}
    (above : text.length < limit) (above' : text.length < limit') :
    commaListUpTo limit item text = commaListUpTo limit' other text := by
  rw [commaListUpTo_eq, commaListUpTo_eq]
  simp only [Bind.bind, EStateM.bind, ← same text (Nat.le_refl _)]
  cases runs : item text with
  | error failure rest => rfl
  | ok first rest =>
    have shorter := passes.length runs
    have again : collect limit (commaItem item) rest = collect limit' (commaItem other) rest :=
      collect_congr (advances_commaItem passes)
        (fun left short => commaItem_congr fun t short' => same t (by omega))
        (by omega) (by omega)
    simp only [again]

theorem commaList_eq {item : Scan Text α} (passes : Passes 0 item) {limit : Nat}
    (above : text.length < limit) : commaList item text = commaListUpTo limit item text := by
  have bytes := Text.length_le_byteLength text
  change commaListUpTo (Text.byteLength text + 1) item text = _
  exact commaListUpTo_congr passes (fun _ _ => rfl) (by omega) above

theorem collect_comma {item : Scan Text α} {others : Text} (limit : Nat)
    (seen : text.dropWhile Text.isBlank = ',' :: others) :
    collect (limit + 1) (commaItem item) text = commaListUpTo limit item others := by
  simp only [collect, commaItem, commaListUpTo_eq]
  simp only [Bind.bind, EStateM.bind, run_facing, Text.visible?_cons seen, beq_self_eq_true,
    if_true, run_next, seen, List.tail_cons]
  cases item others <;> rfl

theorem collect_end {item : Scan Text α} (limit : Nat)
    (absent : text.visible? ≠ some ',') :
    collect (limit + 1) (commaItem item) text = .ok [] (text.dropWhile Text.isBlank) := by
  have other : (text.visible? == some ',') = false := by
    rw [beq_eq_false_iff_ne]
    exact absent
  simp only [collect, commaItem, Bind.bind, EStateM.bind, run_facing, other, Bool.false_eq_true,
    if_false, run_pure]

theorem commaList_eq_bind {item : Scan Text α} (passes : Passes 0 item) (text : Text) :
    commaList item text = (do
      let first ← item
      if ← facing ',' then
        let _ ← next
        let others ← commaList item
        return first :: others
      else return [first] : Scan Text (List α)) text := by
  rw [commaList_eq passes (Nat.lt_succ_self text.length), commaListUpTo_eq]
  refine bind_congr fun first middle run => ?_
  rw [bind_facing]
  by_cases visible : middle.visible? = some ','
  · have seen := List.eq_cons_of_mem_head? visible
    have short := passes.length run
    have blanks := (List.dropWhile_sublist Text.isBlank (l := middle)).length_le
    rw [seen, List.length_cons] at blanks
    have collected : collect (text.length + 1) (commaItem item) middle =
        commaList item (middle.dropWhile Text.isBlank).tail := by
      rw [collect_comma _ seen, commaList_eq passes]
      omega
    have facing : ((middle.dropWhile Text.isBlank).head? == some ',') = true := by
      rw [seen, List.head?_cons, beq_self_eq_true]
    simp only [facing, if_true, bind_next]
    simp only [Bind.bind, EStateM.bind, collected]
  · have facing : ((middle.dropWhile Text.isBlank).head? == some ',') = false :=
      beq_eq_false_iff_ne.mpr visible
    simp only [facing, Bool.false_eq_true, if_false, Bind.bind, EStateM.bind,
      collect_end _ visible, run_pure]

theorem commaList_eq_ok {item : Scan Text α} (passes : Passes 0 item) {values : List α}
    {rest : Text} : commaList item text = .ok values rest ↔
      ∃ first others middle, values = first :: others ∧ item text = .ok first middle ∧
        (middle.visible? ≠ some ',' ∧ others = [] ∧ rest = middle.dropWhile Text.isBlank ∨
         ∃ next, middle.dropWhile Text.isBlank = ',' :: next ∧
          commaList item next = .ok others rest) := by
  rw [commaList_eq_bind passes, bind_eq_ok]
  constructor
  · intro runs
    rcases runs with ⟨first, middle, run, runs⟩
    rw [bind_facing, ite_eq_ok, beq_iff_eq] at runs
    rcases runs with ⟨visible, runs⟩ | ⟨absent, ended⟩
    · rw [bind_next] at runs
      rcases bind_eq_ok.mp runs with ⟨others, _, collected, same⟩
      cases same
      have seen := List.eq_cons_of_mem_head? visible
      exact ⟨first, others, middle, rfl, run, .inr ⟨_, seen, collected⟩⟩
    · cases ended
      exact ⟨first, [], middle, rfl, run, .inl ⟨absent, rfl, rfl⟩⟩
  · intro runs
    rcases runs with ⟨first, others, middle, rfl, run, ending⟩
    refine ⟨first, middle, run, ?_⟩
    rw [bind_facing, ite_eq_ok, beq_iff_eq]
    rcases ending with ⟨absent, rfl, rfl⟩ | ⟨next, seen, run'⟩
    · exact .inr ⟨absent, rfl⟩
    · rw [seen, bind_next]
      exact .inl ⟨rfl, bind_eq_ok.mpr ⟨others, rest, run', rfl⟩⟩

theorem commaList_of_error {item : Scan Text α} (passes : Passes 0 item) {failure : Failure}
    {rest : Text} (refused : item text = .error failure rest) :
    commaList item text = .error failure rest := by
  rw [commaList_eq_bind passes]
  simp only [Bind.bind, EStateM.bind, refused]

theorem commaList_of_stuck {item : Scan Text α} (passes : Passes 0 item) {first : α}
    {middle others rest : Text} {failure : Failure} (run : item text = .ok first middle)
    (seen : middle.dropWhile Text.isBlank = ',' :: others)
    (refused : commaList item others = .error failure rest) :
    commaList item text = .error failure rest := by
  rw [commaList_eq_bind passes, bind_ok _ run, bind_facing, seen, List.head?_cons, beq_self_eq_true,
    if_pos rfl, bind_next, List.tail_cons]
  simp only [Bind.bind, EStateM.bind, refused]

theorem commaList_dropWhile {item : Scan Text α} (passes : Passes 0 item)
    (again : ∀ {text value rest},
      item (text.dropWhile Text.isBlank) = .ok value rest ↔ item text = .ok value rest)
    {values : List α} {rest : Text} :
    commaList item (text.dropWhile Text.isBlank) = .ok values rest ↔
      commaList item text = .ok values rest := by
  rw [commaList_eq_ok passes, commaList_eq_ok passes]
  simp only [again]

end Scan

namespace View

variable {σ μ α : Type} [Input σ μ] {view : View σ μ} {marks : List (μ × Text)}
  (faithful : view.Faithful)

include faithful

theorem follows_remaining {next : Nat → Scan σ α} {nextOnText : Nat → Scan Text α}
    (same : ∀ text limit limit', text.length ≤ limit → text.length ≤ limit' →
      nextOnText limit text = nextOnText limit' text)
    (follows : ∀ limit, view.Follows marks (next limit) (nextOnText limit)) :
    view.Follows marks (Scan.remaining >>= next) (Scan.remaining >>= nextOnText) := by
  intro input text shows stand
  have bound := faithful.remaining shows
  have bytes := Text.length_le_byteLength text
  show view.Agrees input (next (Input.remaining input) input) (nextOnText (Text.byteLength text) text)
  rw [same text _ _ bytes bound]
  exact follows _ input text shows stand

theorem follows_collectAll {step : Scan σ (Option α)} {stepOnText : Scan Text (Option α)}
    (follows : view.Follows marks step stepOnText) (advances : Scan.Advances stepOnText) :
    view.Follows marks (Scan.collectAll step) (Scan.collectAll stepOnText) := by
  apply follows_remaining faithful
  · intro text limit limit' above above'
    exact Scan.collect_congr advances (fun _ _ => rfl) (by omega) (by omega)
  · exact fun limit => .collect _ follows

theorem follows_commaList {item : Scan σ α} {itemOnText : Scan Text α}
    (follows : view.Follows marks item itemOnText) (passes : Scan.Passes 0 itemOnText) :
    view.Follows marks (Scan.commaList item) (Scan.commaList itemOnText) := by
  apply follows_remaining faithful
  · intro text limit limit' above above'
    exact Scan.commaListUpTo_congr passes (fun _ _ => rfl) (by omega) (by omega)
  · exact fun limit => follows_commaListUpTo faithful _ follows

end View

end NetTrace
