import NetTrace.Text.Basic
import Mathlib.Data.List.Basic

namespace NetTrace.Text

variable {c d : Char} {text piece : Text} {lines : List Text} {entries : List (List Text)}

/-- The fields of every line. A line feed ends a line, and a tab stands between two fields. -/
def rows (output : Text) : List (List Text) :=
  (output.splitOn '\n').dropLast.map (·.splitOn '\t')

theorem mem_of_mem_splitOn (among : piece ∈ text.splitOn c) : c ∉ piece ∧ ∀ d ∈ piece, d ∈ text := by
  induction text generalizing piece with
  | nil =>
    obtain rfl : piece = [] := by simpa using among
    exact ⟨List.not_mem_nil, List.forall_mem_nil _⟩
  | cons first text ih =>
    rw [List.splitOn_eq_splitOnP, List.splitOnP_cons_eq_if_modifyHead, ← List.splitOn_eq_splitOnP] at among
    by_cases parts : first = c
    · rw [if_pos (beq_iff_eq.mpr parts)] at among
      rcases List.mem_cons.mp among with rfl | among
      · exact ⟨List.not_mem_nil, List.forall_mem_nil _⟩
      · exact ⟨(ih among).1, fun d member => List.mem_cons_of_mem _ ((ih among).2 d member)⟩
    · obtain ⟨front, others, split⟩ := List.exists_cons_of_ne_nil (List.splitOn_ne_nil c text)
      rw [if_neg fun same => parts (beq_iff_eq.mp same), split, List.modifyHead_cons] at among
      rw [split] at ih
      rcases List.mem_cons.mp among with rfl | among
      · obtain ⟨absent, within⟩ := ih (List.mem_cons_self ..)
        refine ⟨fun member => ?_, List.forall_mem_cons.mpr ⟨List.mem_cons_self .., fun d member => ?_⟩⟩
        · rcases List.mem_cons.mp member with same | member
          · exact parts same.symm
          · exact absent member
        · exact List.mem_cons_of_mem _ (within d member)
      · obtain ⟨absent, within⟩ := ih (List.mem_cons_of_mem _ among)
        exact ⟨absent, fun d member => List.mem_cons_of_mem _ (within d member)⟩

theorem splitOn_ended (without : ∀ line ∈ lines, c ∉ line) :
    (lines.flatMap (· ++ [c])).splitOn c = lines ++ [[]] := by
  have joined : lines.flatMap (· ++ [c]) = List.intercalate [c] (lines ++ [[]]) := by
    clear without
    induction lines with
    | nil => rfl
    | cons line lines ih =>
      rw [List.flatMap_cons, ih]
      cases lines <;> simp [List.intercalate]
  rw [joined]
  refine List.splitOn_intercalate c (fun line member => ?_) (by simp)
  rcases List.mem_append.mp member with among | last
  · exact without line among
  · rw [List.mem_singleton.mp last]
    exact List.not_mem_nil

theorem not_mem_joined {fields : List Text} (other : c ≠ d) (without : ∀ field ∈ fields, c ∉ field) :
    c ∉ List.intercalate [d] fields := by
  induction fields with
  | nil => exact List.not_mem_nil
  | cons field fields ih =>
    obtain ⟨first, others⟩ := List.forall_mem_cons.mp without
    cases fields with
    | nil => simpa [List.intercalate] using first
    | cons next fields =>
      have joined : List.intercalate [d] (field :: next :: fields) =
          field ++ d :: List.intercalate [d] (next :: fields) := by simp [List.intercalate]
      rw [joined]
      simp [first, other, ih others]

theorem rows_eq_iff (some : ∀ fields ∈ entries, fields ≠ []) :
    rows (entries.flatMap fun fields => List.intercalate ['\t'] fields ++ ['\n']) = entries ↔
      ∀ fields ∈ entries, ∀ field ∈ fields, '\t' ∉ field ∧ '\n' ∉ field := by
  constructor
  · intro same fields among field member
    rw [← same] at among
    obtain ⟨line, isLine, rfl⟩ := List.mem_map.mp among
    obtain ⟨noTab, within⟩ := mem_of_mem_splitOn member
    have noFeed := (mem_of_mem_splitOn (List.dropLast_subset _ isLine)).1
    exact ⟨noTab, fun feed => noFeed (within _ feed)⟩
  · intro without
    have oneLine : ∀ line ∈ entries.map (List.intercalate ['\t']), '\n' ∉ line := by
      refine List.forall_mem_map.mpr fun fields among => ?_
      exact not_mem_joined (by decide) fun field member => (without fields among field member).2
    have split := splitOn_ended oneLine
    rw [List.flatMap_map] at split
    rw [rows, split, List.dropLast_concat, List.map_map]
    refine (List.map_congr_left fun fields among => ?_).trans (List.map_id _)
    exact List.splitOn_intercalate '\t' (fun field member => (without fields among field member).1)
      (some fields among)

end NetTrace.Text
