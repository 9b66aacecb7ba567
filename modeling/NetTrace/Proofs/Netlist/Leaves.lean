import NetTrace.Proofs.Netlist.Items
import Mathlib.Data.List.Forall2
import Mathlib.Data.List.Lex
import Mathlib.Data.List.Sort

namespace NetTrace.Netlist

open Text (Blanks Lexeme Alike)
open Scan

namespace Operand

inductive LeafAt : Operand → List Nat → Operand → Prop
  | literal {value} : LeafAt (.literal value) [] (.literal value)
  | net {selection} : LeafAt (.net selection) [] (.net selection)
  | item {items index item place leaf} : items[index]? = some item → LeafAt item place leaf →
      LeafAt (.concatenation items) (index :: place) leaf

/-- Everything that stands at a place, each thing once and in the order of the places. -/
def Ordered (stands : List Nat → Operand → Prop) (found : List Operand) : Prop :=
  ∃ places, places.Pairwise (· < ·) ∧ List.Forall₂ stands places found ∧
    ∀ place leaf, stands place leaf → place ∈ places

def InOrder (operand : Operand) (leaves : List Operand) : Prop := Ordered operand.LeafAt leaves

theorem LeafAt.unique {operand leaf leaf' : Operand} {place : List Nat}
    (stands : operand.LeafAt place leaf) (stands' : operand.LeafAt place leaf') : leaf = leaf' := by
  induction stands with
  | literal => cases stands'; rfl
  | net => cases stands'; rfl
  | item found stands ih =>
    cases stands' with
    | item found' stands' =>
      obtain rfl := Option.some.inj (found.symm.trans found')
      exact ih stands'

namespace Ordered

variable {stands stands' : List Nat → Operand → Prop} {found found' : List Operand}

theorem exists_leaf {places : List (List Nat)} (pairs : List.Forall₂ stands places found) :
    ∀ place ∈ places, ∃ leaf, stands place leaf := by
  induction pairs with
  | nil => exact List.forall_mem_nil _
  | cons first others ih => exact List.forall_mem_cons.mpr ⟨⟨_, first⟩, ih⟩

theorem unique (once : ∀ place leaf leaf', stands place leaf → stands place leaf' → leaf = leaf')
    (ordered : Ordered stands found) (ordered' : Ordered stands found') : found = found' := by
  obtain ⟨places, sorted, pairs, all⟩ := ordered
  obtain ⟨places', sorted', pairs', all'⟩ := ordered'
  have same : places = places' := by
    refine sorted.eq_of_mem_iff sorted' fun place => ⟨fun member => ?_, fun member => ?_⟩
    · obtain ⟨leaf, here⟩ := exists_leaf pairs place member
      exact all' place leaf here
    · obtain ⟨leaf, here⟩ := exists_leaf pairs' place member
      exact all place leaf here
  subst same
  exact List.right_unique_forall₂' once pairs pairs'

theorem none (absent : ∀ place leaf, ¬ stands place leaf) : Ordered stands [] :=
  ⟨[], .nil, .nil, fun place leaf here => absurd here (absent place leaf)⟩

theorem one {place : List Nat} {leaf : Operand} (here : stands place leaf)
    (only : ∀ place' leaf', stands place' leaf' → place' = place) : Ordered stands [leaf] := by
  refine ⟨[place], List.pairwise_singleton _ _, .cons here .nil, fun place' leaf' here' => ?_⟩
  exact List.mem_singleton.mpr (only place' leaf' here')

theorem under (index : Nat) (ordered : Ordered stands found) :
    Ordered (fun place leaf => ∃ inner, place = index :: inner ∧ stands inner leaf) found := by
  obtain ⟨places, sorted, pairs, all⟩ := ordered
  refine ⟨places.map (index :: ·), ?_, ?_, ?_⟩
  · refine List.pairwise_map.mpr (sorted.imp fun before => ?_)
    exact List.cons_lt_cons_iff.mpr (.inr ⟨rfl, before⟩)
  · exact List.forall₂_map_left_iff.mpr (pairs.imp fun place leaf here => ⟨place, rfl, here⟩)
  · intro place leaf given
    obtain ⟨inner, rfl, here⟩ := given
    exact List.mem_map_of_mem (all inner leaf here)

theorem append (ordered : Ordered stands found) (ordered' : Ordered stands' found')
    (before : ∀ place leaf place' leaf', stands place leaf → stands' place' leaf' →
      place < place') :
    Ordered (fun place leaf => stands place leaf ∨ stands' place leaf) (found ++ found') := by
  obtain ⟨places, sorted, pairs, all⟩ := ordered
  obtain ⟨places', sorted', pairs', all'⟩ := ordered'
  refine ⟨places ++ places', List.pairwise_append.mpr ⟨sorted, sorted', ?_⟩, ?_, ?_⟩
  · intro place member place' member'
    obtain ⟨leaf, here⟩ := exists_leaf pairs place member
    obtain ⟨leaf', here'⟩ := exists_leaf pairs' place' member'
    exact before place leaf place' leaf' here here'
  · exact List.rel_append (pairs.imp fun _ _ => .inl) (pairs'.imp fun _ _ => .inr)
  · intro place leaf given
    rcases given with here | here
    · exact List.mem_append_left _ (all place leaf here)
    · exact List.mem_append_right _ (all' place leaf here)

end Ordered

/-- The leaf at a place in one of several operands, the first of which has the given number. -/
def LeafFrom (first : Nat) (items : List Operand) (place : List Nat) (leaf : Operand) : Prop :=
  ∃ index item inner, items[index]? = some item ∧ item.LeafAt inner leaf ∧
    place = (first + index) :: inner

theorem leafFrom_zero (items : List Operand) :
    (Operand.concatenation items).LeafAt = LeafFrom 0 items := by
  funext place leaf
  refine propext ⟨fun stands => ?_, fun given => ?_⟩
  · cases stands with
    | @item _ index item inner _ found stands =>
      exact ⟨index, item, inner, found, stands, by rw [Nat.zero_add]⟩
  · obtain ⟨index, item, inner, found, stands, rfl⟩ := given
    rw [Nat.zero_add]
    exact .item found stands

theorem leafFrom_cons (first : Nat) (item : Operand) (items : List Operand) :
    LeafFrom first (item :: items) = fun place leaf =>
      (∃ inner, place = first :: inner ∧ item.LeafAt inner leaf) ∨
        LeafFrom (first + 1) items place leaf := by
  funext place leaf
  refine propext ⟨fun given => ?_, fun given => ?_⟩
  · obtain ⟨index, found, inner, seen, stands, rfl⟩ := given
    cases index with
    | zero =>
      obtain rfl := Option.some.inj seen
      exact .inl ⟨inner, rfl, stands⟩
    | succ index => exact .inr ⟨index, found, inner, seen, stands, by rw [Nat.add_right_comm]; rfl⟩
  · rcases given with ⟨inner, rfl, stands⟩ | ⟨index, found, inner, seen, stands, rfl⟩
    · exact ⟨0, item, inner, rfl, stands, rfl⟩
    · exact ⟨index + 1, found, inner, seen, stands, by rw [Nat.add_right_comm]; rfl⟩

mutual

theorem inOrder_leaves : (operand : Operand) → operand.InOrder operand.leaves
  | .literal _ => .one .literal fun _ _ stands => by cases stands; rfl
  | .net _ => .one .net fun _ _ stands => by cases stands; rfl
  | .concatenation items => by
    rw [InOrder, leafFrom_zero]
    exact ordered_items 0 items

theorem ordered_items (first : Nat) : (items : List Operand) →
    Ordered (LeafFrom first items) (leavesOfItems items)
  | [] => .none fun place leaf given => by
    obtain ⟨_, _, _, found, -, -⟩ := given
    contradiction
  | item :: items => by
    rw [leafFrom_cons, leavesOfItems]
    refine ((inOrder_leaves item).under first).append (ordered_items (first + 1) items) ?_
    intro place leaf place' leaf' here here'
    obtain ⟨inner, rfl, -⟩ := here
    obtain ⟨index, _, inner', -, -, rfl⟩ := here'
    exact List.cons_lt_cons_iff.mpr (.inl (by omega))

end

theorem InOrder.eq_leaves {operand : Operand} {leaves : List Operand}
    (inOrder : operand.InOrder leaves) : leaves = operand.leaves := by
  have once : ∀ place leaf leaf', operand.LeafAt place leaf → operand.LeafAt place leaf' →
      leaf = leaf' := fun _ _ _ => LeafAt.unique
  exact Ordered.unique once inOrder (inOrder_leaves operand)

end Operand

variable {text left blanks : Text} {operand leaf : Operand} {operands : List Operand}

theorem leaves_of_spelled (spells : Operand.Spelled operand text) (blank : Blanks blanks) :
    Token.leaves (text ++ blanks) = .ok (operand.leaves.map Operand.render) := by
  have ends := endsList_nil.1.padded blank
  rw [List.append_nil] at ends
  exact map_complete _ (complete_of_spelled _ takes_operand spells ends blank)

theorem leaf_of_spelled (spells : Operand.Spelled operand text) :
    ∀ leaf ∈ operand.leaves, leaf.leaves = [leaf] ∧ ∃ front, Operand.Spelled leaf front := by
  refine spells.induct (motive := fun operand _ => ∀ leaf ∈ operand.leaves,
    leaf.leaves = [leaf] ∧ ∃ front, Operand.Spelled leaf front) ?_ ?_ ?_
  · intro value text spells leaf member
    obtain rfl := List.mem_singleton.mp member
    exact ⟨rfl, text, .literal spells⟩
  · intro selection text spells leaf member
    obtain rfl := List.mem_singleton.mp member
    exact ⟨rfl, text, .net spells⟩
  · intro items opened text closed _ spells _ leaf member
    rw [Operand.leaves, Operand.leavesOfItems_eq_flatMap] at member
    obtain ⟨item, among, member⟩ := List.mem_flatMap.mp member
    obtain ⟨_, leaves⟩ := spells.exists_item item among
    exact leaves leaf member

theorem lex_render (spells : Operand.Spelled operand text) :
    (Rule.netlist .connectedElement).lex operand.render = .ok ([], operand.render) := by
  have alike : Alike operand.render (operand.render ++ []) := by
    rw [List.append_nil]
    exact .refl _
  obtain ⟨left, run, same⟩ := takes_operand spells.canonical endsList_nil.1 alike
  have read : Phrase.connectedElement.read operand.render = .ok (.operand operand) left :=
    map_ok _ run
  exact lex_of_read read same.alike

theorem leaf_stands_alone (spells : Operand.Spelled operand text) (member : leaf ∈ operand.leaves) :
    (Rule.netlist .connectedElement).lex leaf.render = .ok ([], leaf.render) ∧
      Token.leaves leaf.render = .ok [leaf.render] := by
  obtain ⟨only, front, spells'⟩ := leaf_of_spelled spells leaf member
  have leaves := leaves_render spells'
  rw [only] at leaves
  exact ⟨lex_render spells', leaves⟩

theorem spelled_braced (run : commaList Operand.scan text = .ok operands left)
    (ended : left.dropWhile Text.isBlank = []) :
    Operand.Spelled (.concatenation operands) ('\x7b' :: text ++ ['\x7d']) := by
  obtain ⟨front, blanks, rfl, blank, spells⟩ := reads_commaList reads_operand run
  have closed : Lexeme ['\x7d'] (blanks ++ left ++ ['\x7d']) :=
    ⟨blanks ++ left, blank.append (List.dropWhile_eq_nil_iff.mp ended), rfl⟩
  have spells' := Operand.Spelled.concatenation (.self ['\x7b']) spells closed
  simpa only [List.append_assoc, List.cons_append, List.nil_append] using spells'

theorem leaves_of_items {tokens : List Text}
    (items : (Rule.netlist .connectedElement).Items text tokens []) :
    ∃ groups, tokens.mapM Token.leaves = .ok groups ∧
      Token.leavesOfList text = .ok groups.flatten ∧
      Token.leaves ('\x7b' :: text ++ ['\x7d']) = .ok groups.flatten := by
  obtain ⟨operands, left, run, rfl, ended⟩ := writes_operand.items_iff.mp items
  obtain ⟨front, blanks, -, -, spells⟩ := reads_commaList reads_operand run
  have whole : (operands.map fun item => item.leaves.map Operand.render).flatten =
      (operands.flatMap Operand.leaves).map Operand.render := List.map_flatMap.symm
  refine ⟨operands.map fun item => item.leaves.map Operand.render, ?_, ?_, ?_⟩
  · refine mapM_map_ok fun item member => ?_
    obtain ⟨_, spells⟩ := spells.exists_item item member
    exact leaves_render spells
  · rw [whole]
    exact map_complete_eq_ok.mpr ⟨operands, left, phrase_eq_ok.mpr run, ended.symm, rfl⟩
  · have braced := leaves_of_spelled (spelled_braced run ended.symm) .nil
    rw [List.append_nil, Operand.leaves, Operand.leavesOfItems_eq_flatMap] at braced
    rw [whole]
    exact braced

theorem leaf_of_taken {found : List Text}
    (taken : Token.leaves text = .ok found ∨ Token.leavesOfList text = .ok found) :
    ∀ token ∈ found, (Rule.netlist .connectedElement).lex token = .ok ([], token) ∧
      Token.leaves token = .ok [token] := by
  intro token among
  rcases taken with taken | taken
  · obtain ⟨operand, left, run, -, rfl⟩ := map_complete_eq_ok.mp taken
    obtain ⟨front, blanks, -, -, spells⟩ := reads_operand run
    obtain ⟨leaf, member, rfl⟩ := List.mem_map.mp among
    exact leaf_stands_alone spells member
  · obtain ⟨operands, left, run, -, rfl⟩ := map_complete_eq_ok.mp taken
    obtain ⟨front, blanks, -, -, spells⟩ := reads_commaList reads_operand (phrase_eq_ok.mp run)
    obtain ⟨leaf, inside, rfl⟩ := List.mem_map.mp among
    obtain ⟨operand, item, member⟩ := List.mem_flatMap.mp inside
    obtain ⟨_, spells⟩ := spells.exists_item operand item
    exact leaf_stands_alone spells member

theorem leaves_canonical (spells : Operand.Spelled operand text) :
    List.Forall₂ (fun leaf token => leaf.Canonical token ∧ Operand.Spelled leaf token) operand.leaves
      (operand.leaves.map Operand.render) := by
  refine List.forall₂_map_right_iff.mpr (List.forall₂_same.mpr fun leaf member => ?_)
  obtain ⟨-, front, spells'⟩ := leaf_of_spelled spells leaf member
  exact ⟨leaf.canonical_render, spells'.canonical⟩

/-- Taking an operand apart gives the canonical forms of its leaves from left to right, however it is
    spelled, so that operands which only nest these leaves in other ways give the same. Taking a
    list of operands apart gives what taking apart its items one by one gives, and the same as the
    list in braces. Every leaf that is given is an operand that is its own only leaf. -/
theorem leaves_from_left_to_right :
    (∀ operand text blanks, Operand.Spelled operand text → Blanks blanks →
      (∃ leaves, operand.InOrder leaves) ∧ ∀ leaves, operand.InOrder leaves → ∃ tokens,
        Token.leaves (text ++ blanks) = .ok tokens ∧
        List.Forall₂ (fun leaf token => leaf.Canonical token ∧ Operand.Spelled leaf token)
          leaves tokens) ∧
    (∀ operand operand' text text' leaves, Operand.Spelled operand text →
      Operand.Spelled operand' text' → operand.InOrder leaves → operand'.InOrder leaves →
        Token.leaves text = Token.leaves text') ∧
    (∀ text, ((∃ token, (Rule.netlist .connectedElementList).lex text = .ok ([], token)) ↔
        ∃ items, (Rule.netlist .connectedElement).Items text items []) ∧
      ∀ items, (Rule.netlist .connectedElement).Items text items [] → ∃ groups,
        items.mapM Token.leaves = .ok groups ∧ Token.leavesOfList text = .ok groups.flatten ∧
        Token.leaves ('\x7b' :: text ++ ['\x7d']) = .ok groups.flatten) ∧
    ∀ text found, Token.leaves text = .ok found ∨ Token.leavesOfList text = .ok found →
      ∀ leaf ∈ found, (Rule.netlist .connectedElement).lex leaf = .ok ([], leaf) ∧
        Token.leaves leaf = .ok [leaf] := by
  refine ⟨?_, ?_, ?_, ?_⟩
  · intro operand text blanks spells blank
    refine ⟨⟨_, Operand.inOrder_leaves operand⟩, fun leaves inOrder => ?_⟩
    rw [inOrder.eq_leaves]
    exact ⟨_, leaves_of_spelled spells blank, leaves_canonical spells⟩
  · intro operand operand' text text' leaves spells spells' inOrder inOrder'
    have taken := leaves_of_spelled spells .nil
    have taken' := leaves_of_spelled spells' .nil
    rw [← inOrder.eq_leaves, List.append_nil] at taken
    rw [← inOrder'.eq_leaves, List.append_nil] at taken'
    rw [taken, taken']
  · intro text
    exact ⟨writes_operand.complete_iff .operands rfl, fun items => leaves_of_items⟩
  · intro text found
    exact leaf_of_taken

theorem leaves_from_left_to_right_nested :
    let leaves : List Operand :=
      [.net ⟨['a'], some ⟨3, 3⟩⟩, .literal (.unsized ['1']), .net ⟨['b'], some ⟨7, 0⟩⟩]
    let tokens := ["a[3]".toList, "1".toList, "b[7:0]".toList]
    let late := "\x7ba [03],\x7b 1,b[7:0]\x7d\x7d".toList
    let early := "\x7b\x7ba [03], 1\x7d,b[7:0]\x7d".toList
    Token.leaves late = .ok tokens ∧ Token.leaves late = Token.leaves early ∧
    List.Forall₂ (fun leaf token => leaf.Canonical token ∧ Operand.Spelled leaf token) leaves tokens ∧
    (Rule.netlist .connectedElement).Items "a[3],\x7b1,b[7:0]\x7d".toList
      ["a[3]".toList, "\x7b1, b[7:0]\x7d".toList] [] ∧
    Token.leavesOfList "a[3],\x7b1,b[7:0]\x7d".toList = .ok tokens ∧
    Token.leaves "\x7ba[3],\x7b1,b[7:0]\x7d\x7d".toList = .ok tokens ∧
    (Rule.netlist .connectedElement).lex "b[7:0]".toList = .ok ([], "b[7:0]".toList) := by
  intro leaves tokens late early
  have space : Blanks [' '] := by decide
  have three : Bound 3 ['0', '3'] := ⟨_, by decide, by decide, .self _⟩
  have seven : Bound 7 ['7'] := ⟨_, by decide, by decide, .self _⟩
  have zero : Bound 0 ['0'] := ⟨_, by decide, by decide, .self _⟩
  have name (c : Char) (letter : c.isAlpha = true) : Name.Spelled [c] [c] :=
    ⟨.inl ⟨c, [], rfl, by rw [letter]; rfl, List.forall_mem_nil _⟩, .self _⟩
  have bit : Operand.Spelled (.net ⟨['a'], some ⟨3, 3⟩⟩) "a [03]".toList :=
    .net (.part (name 'a' rfl) (.index ⟨[' '], space, rfl⟩ three (.self _)))
  have number : Operand.Spelled (.literal (.unsized ['1'])) " 1".toList :=
    .literal (.unsized (by decide) ⟨[' '], space, rfl⟩)
  have range : Operand.Spelled (.net ⟨['b'], some ⟨7, 0⟩⟩) "b[7:0]".toList :=
    .net (.part (name 'b' rfl) (.range (.self _) seven (.self _) zero (.self _)))
  have inner := Operand.Spelled.concatenation (.self ['\x7b'])
    (.more number (.self [',']) (.one range)) (.self ['\x7d'])
  have spells := Operand.Spelled.concatenation (.self ['\x7b'])
    (.more bit (.self [',']) (.one inner)) (.self ['\x7d'])
  have inner' := Operand.Spelled.concatenation (.self ['\x7b'])
    (.more bit (.self [',']) (.one number)) (.self ['\x7d'])
  have spells' := Operand.Spelled.concatenation (.self ['\x7b'])
    (.more inner' (.self [',']) (.one range)) (.self ['\x7d'])
  have items : (Rule.netlist .connectedElement).Items "a[3],\x7b1,b[7:0]\x7d".toList
      ["a[3]".toList, "\x7b1, b[7:0]\x7d".toList] [] := .more rfl rfl (.last rfl rfl)
  have each : ["a[3]".toList, "\x7b1, b[7:0]\x7d".toList].mapM Token.leaves =
      .ok [["a[3]".toList], ["1".toList, "b[7:0]".toList]] := by rfl
  obtain ⟨spelled, nested, list, alone⟩ := leaves_from_left_to_right
  obtain ⟨found, taken, canonical⟩ := (spelled _ _ [] spells .nil).2 _ (Operand.inOrder_leaves _)
  have same := nested _ _ _ _ _ spells spells' (Operand.inOrder_leaves _) (Operand.inOrder_leaves _)
  obtain ⟨groups, each', whole, braced⟩ := (list _).2 _ items
  obtain rfl := Except.ok.inj (each.symm.trans each')
  have run : Token.leaves late = .ok tokens := by decide +kernel
  obtain rfl := Except.ok.inj (run.symm.trans taken)
  have standing := alone _ _ (.inr whole) "b[7:0]".toList (by decide)
  exact ⟨run, same, canonical, items, whole, braced, standing.1⟩

end NetTrace.Netlist
