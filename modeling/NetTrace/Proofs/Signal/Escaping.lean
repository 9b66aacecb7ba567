import NetTrace.Proofs.Signal.Views
import NetTrace.Signal.Escaped

namespace NetTrace.Signal

open Scan Text
open Netlist

variable {name other base inside range key : Text} {bounds? : Option Bounds}

section Brackets

theorem splitAtLastBracket?_append (absent : '[' ∉ inside) :
    splitAtLastBracket? (base ++ '[' :: inside) = some (base, '[' :: inside) := by
  have reversed : (base ++ '[' :: inside).reverse = inside.reverse ++ '[' :: base.reverse := by simp
  have others : ∀ c ∈ inside.reverse, (c != '[') = true := fun c member =>
    bne_iff_ne.mpr (ne_of_mem_of_not_mem (List.mem_reverse.mp member) absent)
  have stops : Stops (· != '[') ('[' :: base.reverse) := stops_cons.mpr (by decide)
  simp only [splitAtLastBracket?, reversed, dropWhile_of_stops others stops,
    takeWhile_of_stops others stops, List.reverse_reverse]

theorem eq_append_of_split (split : splitAtLastBracket? name = some (base, range)) :
    ∃ inside, name = base ++ '[' :: inside ∧ range = '[' :: inside ∧ '[' ∉ inside := by
  have parts := List.takeWhile_append_dropWhile (p := (· != '[')) (l := name.reverse)
  have stops := stops_dropWhile (· != '[') name.reverse
  unfold splitAtLastBracket? at split
  cases dropped : name.reverse.dropWhile (· != '[') with
  | nil => simp only [dropped] at split; contradiction
  | cons bracket before =>
    rw [dropped] at parts stops
    obtain rfl : bracket = '[' := by simpa using stops_cons.mp stops
    simp only [dropped, Option.some.injEq, Prod.mk.injEq] at split
    obtain ⟨rfl, rfl⟩ := split
    refine ⟨_, ?_, rfl, fun member => ?_⟩
    · have whole := congrArg List.reverse parts
      simpa using whole.symm
    · have other := List.mem_takeWhile_imp (List.mem_reverse.mp member)
      simp at other

end Brackets

section Shapes

theorem escape_of_backslash (escaped : name.head? = some '\\') : escape name = name := by
  rw [escape, if_pos escaped]

theorem escape_whole (plain : name.head? ≠ some '\\') (ends : name.getLast? ≠ some ']') :
    escape name = '\\' :: name ++ [' '] := by
  rw [escape, if_neg plain]
  cases split : splitAtLastBracket? name with
  | none => rfl
  | some parts =>
    obtain ⟨inside, same, ranged, -⟩ := eq_append_of_split split
    have last : parts.2.getLast? = name.getLast? := by
      rw [same, ranged, List.getLast?_append_of_ne_nil _ (List.cons_ne_nil _ _)]
    exact if_neg (last ▸ ends)

theorem escape_apart (plain : (base ++ '[' :: inside ++ [']']).head? ≠ some '\\')
    (absent : '[' ∉ inside) :
    escape (base ++ '[' :: inside ++ [']']) = '\\' :: base ++ ' ' :: '[' :: inside ++ [']'] := by
  have absent' : '[' ∉ inside ++ [']'] := by simp [absent]
  have closed : ('[' :: inside ++ [']']).getLast? = some ']' := List.getLast?_concat
  rw [escape, if_neg plain, List.append_assoc, List.cons_append, splitAtLastBracket?_append absent']
  exact (if_pos closed).trans (by simp)

/-- Brackets at the end of a plain name, which hold no further opening bracket, are set apart from
    what is in front of them. -/
theorem escape_cases (plain : name.head? ≠ some '\\') : escape name = '\\' :: name ++ [' '] ∨
    ∃ base inside, '[' ∉ inside ∧ name = base ++ '[' :: inside ++ [']'] ∧
      escape name = '\\' :: base ++ ' ' :: '[' :: inside ++ [']'] := by
  by_cases ends : name.getLast? = some ']'
  · cases split : splitAtLastBracket? name with
    | none => exact .inl (by rw [escape, if_neg plain, split])
    | some parts =>
      obtain ⟨inside, same, -, absent⟩ := eq_append_of_split split
      obtain ⟨more, rfl⟩ : ∃ more, inside = more ++ [']'] := by
        rw [same, List.getLast?_append_of_ne_nil _ (List.cons_ne_nil _ _)] at ends
        obtain ⟨front, whole⟩ := List.getLast?_eq_some_iff.mp ends
        cases front with
        | nil => simp at whole
        | cons bracket more => exact ⟨more, (List.cons.inj whole).2⟩
      have same' : name = parts.1 ++ '[' :: more ++ [']'] := by simpa using same
      have absent' : '[' ∉ more := fun member => absent (List.mem_append_left _ member)
      exact .inr ⟨_, more, absent', same', same' ▸ escape_apart (same' ▸ plain) absent'⟩
  · exact .inl (escape_whole plain ends)

theorem head?_escape (name : Text) : (escape name).head? = some '\\' := by
  by_cases plain : name.head? = some '\\'
  · rw [escape_of_backslash plain, plain]
  · rcases escape_cases plain with whole | ⟨base, inside, -, -, apart⟩
    · rw [whole]
      rfl
    · rw [apart]
      rfl

theorem escape_injective (plain : name.head? ≠ some '\\') (plain' : other.head? ≠ some '\\')
    (same : escape name = escape other) : name = other := by
  -- The last character tells the two forms apart, and the last opening bracket the parts of one.
  rcases escape_cases plain with whole | ⟨base, inside, absent, rfl, apart⟩ <;>
    rcases escape_cases plain' with whole' | ⟨base', inside', absent', rfl, apart'⟩
  · rw [whole, whole'] at same
    exact (List.cons.inj (List.append_cancel_right same)).2
  · rw [whole, apart'] at same
    cases (List.append_inj' same rfl).2
  · rw [apart, whole'] at same
    cases (List.append_inj' same rfl).2
  · rw [apart, apart'] at same
    have fronts := congrArg splitAtLastBracket? (List.append_cancel_right same)
    rw [List.append_cons _ ' ' ('[' :: inside), List.append_cons _ ' ' ('[' :: inside'),
      splitAtLastBracket?_append absent, splitAtLastBracket?_append absent'] at fronts
    obtain ⟨bases, insides⟩ := Prod.mk.inj (Option.some.inj fronts)
    rw [insides, (List.cons.inj (List.append_cancel_right bases)).2]

end Shapes

section Keys

theorem render_eq_brackets (bounds : Bounds) :
    ∃ inside, bounds.render = '[' :: inside ++ [']'] ∧ '[' ∉ inside := by
  have digits : ∀ n, '[' ∉ Numeral.decimal n := by
    intro n member
    have digit := Numeral.isDigit_of_mem_decimal member
    contradiction
  by_cases same : bounds.first = bounds.second
  · exact ⟨_, if_pos same, digits _⟩
  · refine ⟨Numeral.decimal bounds.first.toNat ++ ':' :: Numeral.decimal bounds.second.toNat, ?_, ?_⟩
    · rw [Bounds.render, if_neg same]
      simp
    · simp [digits]

theorem escape_eq_render (plain : base.head? ≠ some '\\')
    (ends : bounds? = none → base.getLast? ≠ some ']') :
    escape (base ++ (bounds?.map Bounds.render).getD []) =
      Selection.render ⟨'\\' :: base ++ [' '], bounds?⟩ := by
  cases bounds? with
  | none =>
    rw [Option.map_none, Option.getD_none, List.append_nil]
    exact escape_whole plain (ends rfl)
  | some bounds =>
    obtain ⟨inside, written, absent⟩ := render_eq_brackets bounds
    have plain' : (base ++ '[' :: inside ++ [']']).head? ≠ some '\\' := by
      cases base with
      | nil => simp
      | cons c base => exact plain
    calc escape (base ++ bounds.render)
      _ = escape (base ++ '[' :: inside ++ [']']) := by rw [written, List.append_assoc]
      _ = '\\' :: base ++ ' ' :: '[' :: inside ++ [']'] := escape_apart plain' absent
      _ = '\\' :: base ++ [' '] ++ ('[' :: inside ++ [']']) := by simp
      _ = '\\' :: base ++ [' '] ++ bounds.render := by rw [written]

theorem spelled_escaped (visible : ∀ c ∈ base, isBlank c = false) (bounds? : Option Bounds) :
    ∃ text, Selection.Spelled ⟨'\\' :: base ++ [' '], bounds?⟩ text := by
  have named : Name.Spelled ('\\' :: base ++ [' ']) ('\\' :: base ++ [' ']) :=
    ⟨.inr ⟨base, ' ', rfl, visible, rfl⟩, .self _⟩
  cases bounds? with
  | none => exact ⟨_, .whole named⟩
  | some bounds => exact ⟨_, .part named (spelled_bounds bounds)⟩

theorem lex_render {selection : Selection} {text : Text} (spells : selection.Spelled text) :
    Rule.lex .signalKey selection.render = .ok ([], selection.render) := by
  have alike : Alike selection.render (selection.render ++ []) := by
    rw [List.append_nil]
    exact .refl _
  obtain ⟨left, run, same⟩ :=
    takes_selection spells.canonical ⟨endsList_nil.1.1, endsList_nil.1.2.2⟩ alike
  have ended : [] = left.dropWhile isBlank := same.alike.symm
  exact lex_key_iff.mpr ⟨selection, left, run, rfl, ended⟩

end Keys

structure Splits (descriptor : Descriptor) (key base : Text) (bounds? : Option Bounds) : Prop where
  raw : descriptor.raw = key
  base : descriptor.base = base
  indexed : descriptor.usesIndex = bounds?.isSome
  bounds : ∀ bounds, bounds? = some bounds →
    descriptor.high.toNat = max bounds.first.toNat bounds.second.toNat ∧
    descriptor.low.toNat = min bounds.first.toNat bounds.second.toNat

theorem splits_selection {selection : Selection} {text : Text} (spells : selection.Spelled text) :
    ∃ descriptor, Token.descriptor selection.render = .ok descriptor ∧
      Splits descriptor selection.render selection.name selection.bounds := by
  refine ⟨_, descriptor_of_selection spells, rfl, rfl, ?_, ?_⟩
  · obtain ⟨name, _ | bounds⟩ := selection <;> rfl
  · intro bounds some
    have between := BitRange.between_ofBounds bounds
    obtain ⟨name, _⟩ := selection
    cases some
    exact ⟨between.high, between.low⟩

/-- The escaped form of a name that has no blanks is the key that is read from it, and its descriptor
    tells the name and the range that were escaped. To escape once more changes nothing, and no two
    plain names are escaped alike. -/
theorem escaped_names_are_keys :
    (∀ base bounds?, (∀ c ∈ base, isBlank c = false) → base.head? ≠ some '\\' →
      (bounds? = none → base.getLast? ≠ some ']') → ∀ key,
      key = escape (base ++ (bounds?.map Bounds.render).getD []) →
      Rule.lex .signalKey key = .ok ([], key) ∧
      ∃ descriptor, Token.descriptor key = .ok descriptor ∧
        Splits descriptor key ('\\' :: base ++ [' ']) bounds?) ∧
    (∀ name, escape (escape name) = escape name) ∧
    ∀ name other, name.head? ≠ some '\\' → other.head? ≠ some '\\' →
      escape name = escape other → name = other := by
  refine ⟨fun base bounds? visible plain ends key made => ?_, fun name => ?_,
    fun _ _ plain plain' same => escape_injective plain plain' same⟩
  · obtain ⟨text, spells⟩ := spelled_escaped visible bounds?
    rw [made, escape_eq_render plain ends]
    exact ⟨lex_render spells, splits_selection spells⟩
  · exact escape_of_backslash (head?_escape name)

theorem escaped_names_are_keys_brackets :
    (Rule.lex .signalKey "\\a[1].\"b [0:3]".toList = .ok ([], "\\a[1].\"b [0:3]".toList) ∧
      ∃ descriptor, Token.descriptor "\\a[1].\"b [0:3]".toList = .ok descriptor ∧
        descriptor.base = "\\a[1].\"b ".toList ∧ descriptor.usesIndex = true ∧
        descriptor.high.toNat = 3 ∧ descriptor.low.toNat = 0) ∧
      Rule.lex .signalKey "\\a[1]. ".toList = .ok ([], "\\a[1]. ".toList) ∧
      escape "a[1].\"b".toList ≠ escape "a[1].".toList := by
  obtain ⟨keys, -, injective⟩ := escaped_names_are_keys
  obtain ⟨lexed, descriptor, decoded, splits⟩ := keys "a[1].\"b".toList (some ⟨0, 3⟩)
    (visible_of_all (by decide)) (by decide) (by decide) "\\a[1].\"b [0:3]".toList (by decide +kernel)
  obtain ⟨high, low⟩ := splits.bounds _ rfl
  have alone := keys "a[1].".toList none (visible_of_all (by decide)) (by decide) (by decide)
    "\\a[1]. ".toList (by decide +kernel)
  refine ⟨⟨lexed, descriptor, decoded, splits.base, splits.indexed, high, low⟩, alone.1, fun same => ?_⟩
  have equal := injective "a[1].\"b".toList "a[1].".toList (by decide) (by decide) same
  contradiction

end NetTrace.Signal
