import NetTrace.Proofs.Netlist.Language
import NetTrace.Proofs.Netlist.Retry

namespace NetTrace.Netlist

open Scan

variable {text inner middle rest token : Text}

namespace Operand

def nested : Nat → Operand → Operand
  | 0, operand => operand
  | count + 1, operand => .concatenation [nested count operand]

theorem render_nested (count : Nat) (operand : Operand) :
    (nested count operand).render =
      List.replicate count '\x7b' ++ operand.render ++ List.replicate count '\x7d' := by
  induction count with
  | zero => simp [nested]
  | succ count ih =>
    show '\x7b' :: (nested count operand).render ++ ['\x7d'] = _
    rw [ih, List.replicate_succ, List.replicate_succ']
    simp only [List.cons_append, List.append_assoc]

theorem leaves_nested (count : Nat) (operand : Operand) :
    (nested count operand).leaves = operand.leaves := by
  induction count with
  | zero => rfl
  | succ count ih =>
    show (nested count operand).leaves ++ [] = _
    rw [ih, List.append_nil]

end Operand

theorem operand_of_item {others : Text} {operand : Operand}
    (seen : text.dropWhile Text.isBlank = '\x7b' :: others)
    (item : Operand.scan others = .ok operand middle)
    (closed : middle.dropWhile Text.isBlank = '\x7d' :: rest) :
    Operand.scan text = .ok (.concatenation [operand]) rest := by
  have absent : middle.visible? ≠ some ',' := by
    rw [Text.visible?_cons closed]
    decide
  have list : commaList Operand.scan others = .ok [operand] (middle.dropWhile Text.isBlank) :=
    (commaList_eq_ok passes_operand).mpr ⟨operand, [], middle, rfl, item, .inl ⟨absent, rfl, rfl⟩⟩
  refine operand_eq_ok.mpr (.inl ⟨others, [operand], _, seen, list, ?_, rfl⟩)
  rw [Text.dropWhile_dropWhile, closed]

theorem exists_opened (c : Char) (text : Text) : ∃ count rest, Opened c count text rest := by
  by_cases visible : text.visible? = some c
  · have seen := Text.seen_of_visible visible
    have blanks := (List.dropWhile_sublist Text.isBlank (l := text)).length_le
    have some : 0 < (text.dropWhile Text.isBlank).length := by rw [seen]; exact Nat.succ_pos _
    obtain ⟨count, rest, opened⟩ := exists_opened c (text.dropWhile Text.isBlank).tail
    exact ⟨count + 1, rest, .more seen opened⟩
  · exact ⟨0, _, .none visible⟩
termination_by text.length
decreasing_by
  rw [List.length_tail]
  omega

theorem operand_of_group {count : Nat} {items : List Operand}
    (opened : Opened '\x7b' (count + 1) text inner)
    (list : commaList Operand.scan inner = .ok items middle)
    (closed : Text.closed? '\x7d' (count + 1) middle = some rest) :
    Operand.scan text = .ok (.nested count (.concatenation items)) rest := by
  -- By induction on the number of braces: the first that is opened is the last that is closed.
  induction count generalizing text rest with
  | zero =>
    cases opened with
    | @more _ _ others _ seen opened =>
      have list' : commaList Operand.scan others = .ok items middle := by
        cases opened
        exact (commaList_dropWhile passes_operand operand_dropWhile).mp list
      exact operand_eq_ok.mpr
        (.inl ⟨others, items, middle, seen, list', Text.closed?_one.mp closed, rfl⟩)
  | succ count ih =>
    cases opened with
    | @more _ _ others _ seen opened =>
      rw [Text.closed?_add (count + 1) 1, Option.bind_eq_some_iff] at closed
      obtain ⟨last, closed, closed'⟩ := closed
      exact operand_of_item seen (ih opened closed) (Text.closed?_one.mp closed')

theorem render_group (count : Nat) (items : List Operand) :
    Enclosed.render '\x7b' '\x7d' Reading.render ⟨count + 1, .operands items⟩ =
      (Operand.nested count (.concatenation items)).render := by
  rw [Operand.render_nested, Operand.render]
  show List.replicate (count + 1) '\x7b' ++ Operand.renderItems items ++
    List.replicate (count + 1) '\x7d' = _
  rw [List.replicate_succ', List.replicate_succ]
  simp only [List.append_assoc, List.cons_append, List.nil_append]

theorem operand_of_enclosed {group : Enclosed Reading}
    (run : Enclosed.scan '\x7b' '\x7d' Phrase.connectedElementList.read text = .ok group rest) :
    ∃ operand, Operand.scan text = .ok operand rest ∧
      group.render '\x7b' '\x7d' Reading.render = operand.render := by
  obtain ⟨count, inner, value, middle, opened, list, ending⟩ := enclosed_eq_ok.mp run
  rcases ending with ⟨closed, rfl⟩ | ⟨-, -, again, left, list, closed, rfl⟩
  · obtain ⟨items, list', rfl⟩ := map_eq_ok.mp list
    exact ⟨_, operand_of_group opened (phrase_eq_ok.mp list') closed, render_group count items⟩
  · obtain ⟨items, list', rfl⟩ := map_eq_ok.mp list
    cases opened with
    | @more _ _ others _ seen opened =>
      rw [seen, List.tail_cons] at list'
      have operand : Operand.scan text = .ok (.concatenation items) rest :=
        operand_eq_ok.mpr (.inl
          ⟨others, items, left, seen, phrase_eq_ok.mp list', Text.closed?_one.mp closed, rfl⟩)
      exact ⟨_, operand, render_group 0 items⟩

/-- Where the braces do not all close, the first of them alone encloses the list after it. -/
theorem enclosed_alone {count : Nat} {others last : Text} {reading : Reading}
    {items : List Operand} (seen : text.dropWhile Text.isBlank = '\x7b' :: others)
    (opened : Opened '\x7b' (count + 1) text inner)
    (list : Phrase.connectedElementList.read inner = .ok reading last)
    (unclosed : Text.closed? '\x7d' (count + 1) last = none) (deep : 0 < count)
    (again : commaList Operand.scan others = .ok items middle)
    (closed : middle.dropWhile Text.isBlank = '\x7d' :: rest) :
    Enclosed.scan '\x7b' '\x7d' Phrase.connectedElementList.read text =
      .ok ⟨1, .operands items⟩ rest := by
  refine enclosed_eq_ok.mpr ⟨count, inner, reading, last, opened, list, .inr ⟨unclosed, deep,
    .operands items, middle, ?_, Text.closed?_one.mpr closed, rfl⟩⟩
  rw [seen, List.tail_cons]
  exact map_ok _ (phrase_eq_ok.mpr again)

theorem enclosed_of_operand {operand : Operand} (brace : text.visible? = some '\x7b')
    (run : Operand.scan text = .ok operand rest) :
    ∃ group, Enclosed.scan '\x7b' '\x7d' Phrase.connectedElementList.read text = .ok group rest ∧
      group.render '\x7b' '\x7d' Reading.render = operand.render := by
  have seen := Text.seen_of_visible brace
  obtain ⟨count, inner, opened⟩ := exists_opened '\x7b' text
  obtain ⟨count, rfl⟩ : ∃ less, count = less + 1 := by
    cases opened with
    | none other => exact absurd brace other
    | more => exact ⟨_, rfl⟩
  obtain ⟨reading, left, list, tight, -⟩ := read_after_braces (.inr (.inl rfl)) opened run
  obtain ⟨inside, list', rfl⟩ := map_eq_ok.mp list
  cases closed : Text.closed? '\x7d' (count + 1) left with
  | some last =>
    have run' := operand_of_group opened (phrase_eq_ok.mp list') closed
    obtain ⟨rfl, rfl⟩ := EStateM.Result.ok.inj (run.symm.trans run')
    exact ⟨_, enclosed_eq_ok.mpr ⟨count, inner, _, left, opened, list, .inl ⟨closed, rfl⟩⟩,
      render_group count inside⟩
  | none =>
    obtain ⟨items, middle, rfl, again, ended⟩ := concatenation_of_brace seen run
    have deep : 0 < count := by
      by_contra one
      obtain rfl : count = 0 := by omega
      have whole : Tight .connectedElementList 0 (.concatenation items) := .inl rfl
      rw [tight whole] at closed
      contradiction
    exact ⟨_, enclosed_alone seen opened list closed deep again ended, render_group 0 items⟩

/-- A text that shows a brace first is lexed as a list of operands in braces where it is lexed as an
    operand and nowhere else, with the same token and the same rest. -/
theorem braced_list_iff_operand (brace : text.visible? = some '\x7b') :
    (Rule.wrapped .connectedElementList '\x7b' '\x7d').lex text = .ok (rest, token) ↔
      (Rule.netlist .connectedElement).lex text = .ok (rest, token) := by
  rw [Rule.lex_iff_read, Rule.lex_iff_read]
  constructor
  · intro lexed
    obtain ⟨left, run, same⟩ := lexed
    obtain ⟨group, enclosed, rfl⟩ := map_eq_ok.mp run
    obtain ⟨operand, run', written⟩ := operand_of_enclosed enclosed
    exact ⟨left, map_eq_ok.mpr ⟨.operand operand, map_ok _ run', written.symm⟩, same⟩
  · intro lexed
    obtain ⟨left, run, same⟩ := lexed
    obtain ⟨reading, read, rfl⟩ := map_eq_ok.mp run
    obtain ⟨operand, run', rfl⟩ := map_eq_ok.mp read
    obtain ⟨group, enclosed, written⟩ := enclosed_of_operand brace run'
    exact ⟨left, map_eq_ok.mpr ⟨group, enclosed, written⟩, same⟩

theorem braced_list_iff_operand_retried :
    Text.visible? " \x7b \x7ba \x7d,\x7b b[1:0] \x7d\x7d ;".toList = some '\x7b' ∧
      (Rule.netlist .connectedElement).lex " \x7b \x7ba \x7d,\x7b b[1:0] \x7d\x7d ;".toList =
        .ok (";".toList, "\x7b\x7ba\x7d, \x7bb[1:0]\x7d\x7d".toList) ∧
      (Rule.wrapped .connectedElementList '\x7b' '\x7d').lex
          " \x7b \x7ba \x7d,\x7b b[1:0] \x7d\x7d ;".toList =
        .ok (";".toList, "\x7b\x7ba\x7d, \x7bb[1:0]\x7d\x7d".toList) := by
  have brace : Text.visible? " \x7b \x7ba \x7d,\x7b b[1:0] \x7d\x7d ;".toList = some '\x7b' := by rfl
  have lexed : (Rule.netlist .connectedElement).lex
      " \x7b \x7ba \x7d,\x7b b[1:0] \x7d\x7d ;".toList =
        .ok (";".toList, "\x7b\x7ba\x7d, \x7bb[1:0]\x7d\x7d".toList) := by rfl
  exact ⟨brace, lexed, (braced_list_iff_operand brace).mpr lexed⟩

end NetTrace.Netlist
