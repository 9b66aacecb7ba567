import NetTrace.Proofs.Lexing.Rules
import NetTrace.Proofs.Netlist.RoundTrip

namespace NetTrace

open Netlist Scan

inductive Rule.Items (rule : Rule) : Text → List Text → Text → Prop
  | last {text token rest failure} : rule.lex text = .ok (rest, token) →
      (Rule.character ',').lex rest = .error failure → Items rule text [token] rest
  | more {text token middle next tokens rest} : rule.lex text = .ok (middle, token) →
      (Rule.character ',').lex middle = .ok (next, [',']) → Items rule next tokens rest →
      Items rule text (token :: tokens) rest

inductive Rule.Repeats (c : Char) : Nat → Text → Text → Prop
  | none {text} : Repeats c 0 text text
  | more {count text middle rest} : (Rule.character c).lex text = .ok (middle, [c]) →
      Repeats c count middle rest → Repeats c (count + 1) text rest

namespace Rule

variable {c : Char} {text rest token : Text}

theorem lex_character : (character c).lex text = .ok (rest, token) ↔
    token = [c] ∧ ∃ next, text.dropWhile Text.isBlank = c :: next ∧
      rest = next.dropWhile Text.isBlank := by
  rw [lex_iff_read]
  constructor
  · intro lexed
    obtain ⟨left, read, same⟩ := lexed
    obtain ⟨found, run, rfl⟩ := map_eq_ok.mp read
    obtain ⟨rfl, seen⟩ := symbol_eq_ok.mp run
    exact ⟨rfl, left, seen, same⟩
  · intro given
    obtain ⟨rfl, next, seen, same⟩ := given
    exact ⟨next, map_ok _ (symbol_eq_ok.mpr ⟨rfl, seen⟩), same⟩

theorem lex_character_refuses :
    (∃ failure, (character c).lex text = .error failure) ↔ text.visible? ≠ some c := by
  constructor
  · intro refused visible
    obtain ⟨failure, refused⟩ := refused
    have lexed := lex_character.mpr ⟨rfl, _, Text.seen_of_visible visible, rfl⟩
    rw [lexed] at refused
    contradiction
  · intro other
    cases lexed : (character c).lex text with
    | error failure => exact ⟨failure, rfl⟩
    | ok found =>
      obtain ⟨-, next, seen, -⟩ := lex_character.mp lexed
      exact absurd (Text.visible?_cons seen) other

/-- A rule that writes what a scan reads, and passes the blanks before it as the scan does. -/
structure Writes {α : Type} (rule : Rule) (scan : Scan Text α) (render : α → Text) : Prop where
  passes : Passes 0 scan
  again : ∀ {text value rest},
    scan (text.dropWhile Text.isBlank) = .ok value rest ↔ scan text = .ok value rest
  lex_iff : ∀ {text rest token}, rule.lex text = .ok (rest, token) ↔
    ∃ value left, scan text = .ok value left ∧ token = render value ∧
      rest = left.dropWhile Text.isBlank

variable {α : Type} {rule : Rule} {scan : Scan Text α} {render : α → Text}

theorem Writes.commaList_of_items (writes : rule.Writes scan render) {tokens : List Text}
    (items : rule.Items text tokens rest) : ∃ values left, commaList scan text = .ok values left ∧
      tokens = values.map render ∧ rest = left.dropWhile Text.isBlank := by
  induction items with
  | @last text token rest failure lexed refused =>
    obtain ⟨value, left, run, rfl, rfl⟩ := writes.lex_iff.mp lexed
    have absent := lex_character_refuses.mp ⟨_, refused⟩
    rw [Text.visible?, Text.dropWhile_dropWhile] at absent
    have list : commaList scan text = .ok [value] (left.dropWhile Text.isBlank) :=
      (commaList_eq_ok writes.passes).mpr ⟨value, [], left, rfl, run, .inl ⟨absent, rfl, rfl⟩⟩
    exact ⟨[value], _, list, rfl, (Text.dropWhile_dropWhile _ _).symm⟩
  | @more text token middle next tokens rest lexed comma items ih =>
    obtain ⟨value, left, run, rfl, rfl⟩ := writes.lex_iff.mp lexed
    obtain ⟨-, others, seen, rfl⟩ := lex_character.mp comma
    rw [Text.dropWhile_dropWhile] at seen
    obtain ⟨values, last, run', rfl, rfl⟩ := ih
    have list := (commaList_dropWhile writes.passes writes.again).mp run'
    exact ⟨value :: values, last, (commaList_eq_ok writes.passes).mpr
      ⟨value, values, left, rfl, run, .inr ⟨others, seen, list⟩⟩, rfl, rfl⟩

theorem Writes.items_of_commaList (writes : rule.Writes scan render) {values : List α}
    (run : commaList scan text = .ok values rest) :
    rule.Items text (values.map render) (rest.dropWhile Text.isBlank) := by
  -- By induction on the values that are read, the first of which is the first that is lexed.
  induction values generalizing text with
  | nil =>
    obtain ⟨first, others, _, same, -⟩ := (commaList_eq_ok writes.passes).mp run
    contradiction
  | cons value values ih =>
    obtain ⟨first, others, middle, same, run, ending⟩ := (commaList_eq_ok writes.passes).mp run
    obtain ⟨rfl, rfl⟩ := List.cons.inj same
    have lexed := writes.lex_iff.mpr ⟨value, middle, run, rfl, rfl⟩
    rcases ending with ⟨absent, rfl, rfl⟩ | ⟨next, seen, run'⟩
    · rw [Text.visible?, ← Text.dropWhile_dropWhile] at absent
      obtain ⟨failure, refused⟩ := lex_character_refuses.mpr absent
      rw [Text.dropWhile_dropWhile]
      exact .last lexed refused
    · have comma : (character ',').lex (middle.dropWhile Text.isBlank) = .ok (_, [',']) :=
        lex_character.mpr ⟨rfl, next, by rw [Text.dropWhile_dropWhile, seen], rfl⟩
      exact .more lexed comma (ih ((commaList_dropWhile writes.passes writes.again).mpr run'))

theorem Writes.items_iff (writes : rule.Writes scan render) {tokens : List Text} :
    rule.Items text tokens rest ↔ ∃ values left, commaList scan text = .ok values left ∧
      tokens = values.map render ∧ rest = left.dropWhile Text.isBlank := by
  refine ⟨writes.commaList_of_items, fun given => ?_⟩
  obtain ⟨values, left, run, rfl, rfl⟩ := given
  exact writes.items_of_commaList run

theorem lex_netlist {phrase : Phrase} (wrap : α → Reading)
    (same : (phrase.read : Scan Text Reading) = wrap <$> scan) :
    (netlist phrase).lex text = .ok (rest, token) ↔ ∃ value left, scan text = .ok value left ∧
      token = (wrap value).render ∧ rest = left.dropWhile Text.isBlank := by
  have written : ((netlist phrase).read : Scan Text Text) =
      (fun value => (wrap value).render) <$> scan := by
    funext text
    simp only [read, same, Functor.map, EStateM.map]
    cases scan text <;> rfl
  exact lex_map written

theorem Writes.complete_iff (writes : rule.Writes scan render) {list : Phrase} {name : String}
    (wrap : List α → Reading)
    (same : (list.read : Scan Text Reading) = wrap <$> phrase name (commaList scan)) :
    (∃ token, (netlist list).lex text = .ok ([], token)) ↔ ∃ tokens, rule.Items text tokens [] := by
  constructor
  · intro lexed
    obtain ⟨token, lexed⟩ := lexed
    obtain ⟨values, left, run, -, ended⟩ := (lex_netlist wrap same).mp lexed
    exact ⟨_, writes.items_iff.mpr ⟨values, left, phrase_eq_ok.mp run, rfl, ended⟩⟩
  · intro items
    obtain ⟨tokens, items⟩ := items
    obtain ⟨values, left, run, -, ended⟩ := writes.items_iff.mp items
    exact ⟨_, (lex_netlist wrap same).mpr ⟨values, left, phrase_eq_ok.mpr run, rfl, ended⟩⟩

theorem repeats_iff_closed {count : Nat} :
    Repeats c count (text.dropWhile Text.isBlank) rest ↔
      ∃ left, Text.closed? c count text = some left ∧ rest = left.dropWhile Text.isBlank := by
  induction count generalizing text with
  | zero =>
    constructor
    · intro repeats
      cases repeats
      exact ⟨text, rfl, rfl⟩
    · intro given
      obtain ⟨left, closed, rfl⟩ := given
      obtain rfl := Option.some.inj closed
      exact .none
  | succ count ih =>
    constructor
    · intro repeats
      cases repeats with
      | more lexed repeats =>
        obtain ⟨-, next, seen, rfl⟩ := lex_character.mp lexed
        rw [Text.dropWhile_dropWhile] at seen
        rw [Text.closed?_succ seen]
        exact ih.mp repeats
    · intro given
      obtain ⟨left, closed, same⟩ := given
      rw [Text.closed?] at closed
      obtain ⟨visible, closed⟩ := Option.ite_none_right_eq_some.mp closed
      have seen := (Text.dropWhile_dropWhile _ _).trans (Text.seen_of_visible visible)
      have lexed : (character c).lex (text.dropWhile Text.isBlank) = .ok (_, [c]) :=
        lex_character.mpr ⟨rfl, _, seen, rfl⟩
      exact .more lexed (ih.mpr ⟨left, closed, same⟩)

end Rule

namespace Netlist

variable {text rest : Text} {tokens : List Text}

theorem opened_iff_repeats {c : Char} {count : Nat} : Opened c count text rest ↔
    Rule.Repeats c count (text.dropWhile Text.isBlank) rest ∧ rest.visible? ≠ some c := by
  constructor
  · intro opened
    refine ⟨?_, opened.visible_ne⟩
    induction opened with
    | none other => exact .none
    | more seen opened ih =>
      exact .more (Rule.lex_character.mpr ⟨rfl, _, by rw [Text.dropWhile_dropWhile, seen], rfl⟩) ih
  · intro given
    obtain ⟨repeats, other⟩ := given
    induction count generalizing text with
    | zero =>
      cases repeats
      refine .none ?_
      rwa [Text.visible?, Text.dropWhile_dropWhile] at other
    | succ count ih =>
      cases repeats with
      | more lexed repeats =>
        obtain ⟨-, next, seen, rfl⟩ := Rule.lex_character.mp lexed
        rw [Text.dropWhile_dropWhile] at seen
        exact .more seen (ih repeats)

section Associations

variable {α : Type} {value : Scan Text α} {association : Association α}

theorem association_dropWhile :
    Association.scan value (text.dropWhile Text.isBlank) = Association.scan value text := by
  rw [Association.scan, bind_facing, bind_facing, Text.dropWhile_dropWhile]

theorem phrase_association_dropWhile {name : String} :
    phrase name (Association.scan value) (text.dropWhile Text.isBlank) = .ok association rest ↔
      phrase name (Association.scan value) text = .ok association rest := by
  rw [phrase_eq_ok, phrase_eq_ok, association_dropWhile]

theorem Association.Spelled.exists_value {spelled : α → Text → Prop}
    (spells : Association.Spelled spelled association text) :
    ∃ front, spelled association.value front := by
  cases spells with
  | positional spells => exact ⟨_, spells⟩
  | named lexeme named group =>
    cases group with
    | intro deep opened spells closed => exact ⟨_, spells⟩

theorem Separated.exists_item {item : α → Text → Prop} {values : List α}
    (spells : Separated item values text) : ∀ value ∈ values, ∃ front, item value front := by
  induction spells with
  | one spells =>
    intro value member
    obtain rfl := List.mem_singleton.mp member
    exact ⟨_, spells⟩
  | more spells comma others ih => exact List.forall_mem_cons.mpr ⟨⟨_, spells⟩, ih⟩

end Associations

theorem writes_operand :
    (Rule.netlist .connectedElement).Writes Operand.scan Operand.render where
  passes := passes_operand
  again := operand_dropWhile
  lex_iff := Rule.lex_netlist .operand rfl

theorem writes_connection :
    (Rule.netlist .connection).Writes Association.scanConnection
      (Association.render Operand.render) where
  passes := passes_connection
  again := phrase_association_dropWhile
  lex_iff := Rule.lex_netlist .connection rfl

theorem writes_parameter :
    (Rule.netlist .parameterConnection).Writes Association.scanParameter
      (Association.render Setting.render) where
  passes := reads_parameter.passes fun _ _ _ => Nat.zero_le _
  again := phrase_association_dropWhile
  lex_iff := Rule.lex_netlist .parameter rfl

def Token.expand (token : Text) : Except Violation (List Connection) := do
  let connection ← Token.connection token
  let leaves ← Token.leaves connection.element
  return leaves.map fun leaf => { connection with element := leaf }

theorem expand_render {association : Association Operand}
    (spells : Association.Spelled Operand.Spelled association text) :
    Token.expand (association.render Operand.render) = .ok (Token.ofLeaves association) := by
  obtain ⟨front, spells'⟩ := spells.exists_value
  simp only [Token.expand, connection_render spells, Token.ofAssociation, leaves_render spells',
    Bind.bind, Except.bind, Pure.pure, Except.pure, List.map_map]
  rfl

theorem mapM_map_ok {α β ε : Type} {values : List α} {render : α → Text} {f : Text → Except ε β}
    {g : α → β} (same : ∀ value ∈ values, f (render value) = .ok (g value)) :
    (values.map render).mapM f = .ok (values.map g) := by
  induction values with
  | nil => rfl
  | cons value values ih =>
    obtain ⟨first, others⟩ := List.forall_mem_cons.mp same
    rw [List.map_cons, List.mapM_cons, first, ih others]
    rfl

theorem connections_of_items (items : (Rule.netlist .connection).Items text tokens []) :
    ∃ groups, tokens.mapM Token.expand = .ok groups ∧
      Token.connections text = .ok groups.flatten := by
  obtain ⟨values, left, run, rfl, ended⟩ := writes_connection.items_iff.mp items
  obtain ⟨front, blanks, -, -, spells⟩ := reads_commaList reads_connection run
  refine ⟨values.map Token.ofLeaves, mapM_map_ok fun value member => ?_, ?_⟩
  · obtain ⟨_, spells⟩ := spells.exists_item value member
    exact expand_render spells
  · exact map_complete_eq_ok.mpr ⟨values, left, phrase_eq_ok.mpr run, ended.symm, rfl⟩

theorem mapM_parameter {values : List (Association Setting)}
    (run : commaList Association.scanParameter text = .ok values rest) :
    (values.map (Association.render Setting.render)).mapM Token.parameter =
      .ok (values.map (Token.ofAssociation Setting.render)) := by
  obtain ⟨front, blanks, -, -, spells⟩ := reads_commaList reads_parameter run
  refine mapM_map_ok fun value member => ?_
  obtain ⟨_, spells⟩ := spells.exists_item value member
  exact parameter_render spells

theorem parameters_of_items (items : (Rule.netlist .parameterConnection).Items text tokens []) :
    ∃ connections, tokens.mapM Token.parameter = .ok connections ∧
      Token.parameters text = .ok connections := by
  obtain ⟨values, left, run, rfl, ended⟩ := writes_parameter.items_iff.mp items
  have list : Association.scanParameters text = .ok values left := phrase_eq_ok.mpr run
  exact ⟨_, mapM_parameter run, map_complete_eq_ok.mpr ⟨values, left, list, ended.symm, rfl⟩⟩

def BlockItems (depth : Nat) (text : Text) (tokens : List Text) : Prop :=
  0 < depth ∧ ∃ start inner after, (Rule.character '#').lex text = .ok (start, ['#']) ∧
    Rule.Repeats '(' depth start inner ∧
    (Rule.netlist .parameterConnection).Items inner tokens after ∧ Rule.Repeats ')' depth after []

theorem block_eq_ok {block : ParameterBlock} :
    ParameterBlock.scan text = .ok block rest ↔ 0 < block.depth ∧ ∃ next inner middle,
      text.dropWhile Text.isBlank = '#' :: next ∧ Opened '(' block.depth next inner ∧
      commaList Association.scanParameter inner = .ok block.content middle ∧
      Text.closed? ')' block.depth middle = some rest := by
  simp only [ParameterBlock.scan, phrase_eq_ok, bind_eq_ok, symbol_eq_ok, enclosed_eq_ok]
  constructor
  · intro given
    obtain ⟨_, next, ⟨-, seen⟩, count, inner, values, middle, opened, run, ending⟩ := given
    have run' := phrase_eq_ok.mp run
    rcases ending with ⟨closed, rfl⟩ | ⟨-, deep, again, left, list, -⟩
    · exact ⟨Nat.succ_pos _, next, inner, middle, seen, opened, run', closed⟩
    · -- After the first of several parentheses stands another, and no parameter starts with one.
      have read : Phrase.parameterList.read (next.dropWhile Text.isBlank).tail =
        .ok (.parameters again) left := map_ok _ list
      exact absurd (opened.second deep) (visible_ne_parenthesis read)
  · intro given
    obtain ⟨deep, next, inner, middle, seen, opened, run, closed⟩ := given
    obtain ⟨count, same⟩ : ∃ count, block.depth = count + 1 := ⟨block.depth - 1, by omega⟩
    obtain ⟨depth, values⟩ := block
    obtain rfl : depth = count + 1 := same
    exact ⟨'#', next, ⟨rfl, seen⟩, count, inner, values, middle, opened, phrase_eq_ok.mpr run,
      .inl ⟨closed, rfl⟩⟩

theorem blockItems_iff {depth : Nat} : BlockItems depth text tokens ↔ ∃ values left,
    ParameterBlock.scan text = .ok ⟨depth, values⟩ left ∧
      tokens = values.map (Association.render Setting.render) ∧
      [] = left.dropWhile Text.isBlank := by
  simp only [BlockItems, block_eq_ok, writes_parameter.items_iff, Rule.lex_character, true_and]
  constructor
  · intro given
    obtain ⟨deep, _, inner, _, ⟨next, seen, rfl⟩, repeats, ⟨values, middle, run, rfl, rfl⟩,
      repeats'⟩ := given
    obtain ⟨last, closed, ended⟩ := Rule.repeats_iff_closed.mp repeats'
    have read : Phrase.parameterList.read inner = .ok (.parameters values) middle :=
      map_ok _ (phrase_eq_ok.mpr run)
    have opened := opened_iff_repeats.mpr ⟨repeats, visible_ne_parenthesis read⟩
    exact ⟨values, last, ⟨deep, next, inner, middle, seen, opened, run, closed⟩, rfl, ended⟩
  · intro given
    obtain ⟨values, last, run, rfl, ended⟩ := given
    obtain ⟨deep, next, inner, middle, seen, opened, run, closed⟩ := run
    exact ⟨deep, _, inner, _, ⟨next, seen, rfl⟩, (opened_iff_repeats.mp opened).1,
      ⟨values, middle, run, rfl, rfl⟩, Rule.repeats_iff_closed.mpr ⟨last, closed, ended⟩⟩

theorem blockParameters_of_items {depth : Nat} (items : BlockItems depth text tokens) :
    ∃ connections, tokens.mapM Token.parameter = .ok connections ∧
      Token.blockParameters text = .ok connections := by
  obtain ⟨values, left, run, rfl, ended⟩ := blockItems_iff.mp items
  obtain ⟨-, next, inner, middle, -, -, run', -⟩ := block_eq_ok.mp run
  exact ⟨_, mapM_parameter run', map_complete_eq_ok.mpr ⟨_, left, run, ended.symm, rfl⟩⟩

theorem exists_blockItems : (∃ token, (Rule.netlist .moduleParameters).lex text = .ok ([], token)) ↔
    ∃ depth tokens, BlockItems depth text tokens := by
  constructor
  · intro lexed
    obtain ⟨token, lexed⟩ := lexed
    obtain ⟨block, left, run, -, ended⟩ := (Rule.lex_netlist .block rfl).mp lexed
    exact ⟨block.depth, _, blockItems_iff.mpr ⟨block.content, left, run, rfl, ended⟩⟩
  · intro items
    obtain ⟨depth, tokens, items⟩ := items
    obtain ⟨values, left, run, -, ended⟩ := blockItems_iff.mp items
    exact ⟨_, (Rule.lex_netlist .block rfl).mpr ⟨⟨depth, values⟩, left, run, rfl, ended⟩⟩

/-- A list of connections, a list of parameters and a block of parameters are lexed to the end of a
    text if their items can be lexed one after the other up to there. Then taking the whole apart
    gives, in order, what taking the token of every item apart gives: of a connection the leaves of
    what it is connected to, and of a block the same for any number of parentheses. -/
theorem taken_apart_by_items (text : Text) :
    ((∃ token, (Rule.netlist .connectionList).lex text = .ok ([], token)) ↔
      ∃ tokens, (Rule.netlist .connection).Items text tokens []) ∧
    ((∃ token, (Rule.netlist .parameterList).lex text = .ok ([], token)) ↔
      ∃ tokens, (Rule.netlist .parameterConnection).Items text tokens []) ∧
    ((∃ token, (Rule.netlist .moduleParameters).lex text = .ok ([], token)) ↔
      ∃ depth tokens, BlockItems depth text tokens) ∧
    ∀ tokens,
      ((Rule.netlist .connection).Items text tokens [] → ∃ groups,
        tokens.mapM Token.expand = .ok groups ∧ Token.connections text = .ok groups.flatten) ∧
      ((Rule.netlist .parameterConnection).Items text tokens [] → ∃ connections,
        tokens.mapM Token.parameter = .ok connections ∧ Token.parameters text = .ok connections) ∧
      ∀ depth, BlockItems depth text tokens → ∃ connections,
        tokens.mapM Token.parameter = .ok connections ∧
        Token.blockParameters text = .ok connections := by
  exact ⟨writes_connection.complete_iff .connections rfl,
    writes_parameter.complete_iff .parameters rfl, exists_blockItems,
    fun tokens => ⟨connections_of_items, parameters_of_items, fun _ => blockParameters_of_items⟩⟩

theorem taken_apart_by_items_blocks :
    (Rule.netlist .connection).Items ".A(\x7bb, \x7b2'h1\x7d\x7d) , c".toList
        [".A(\x7bb, \x7b2'h1\x7d\x7d)".toList, "c".toList] [] ∧
      Token.connections ".A(\x7bb, \x7b2'h1\x7d\x7d) , c".toList =
        .ok [{ pin := some "A".toList, element := "b".toList },
          { pin := some "A".toList, element := "2'h1".toList },
          { pin := none, element := "c".toList }] ∧
      (Rule.netlist .parameterConnection).Items ".W(4), n".toList
        [".W(4)".toList, "n".toList] [] ∧
      BlockItems 1 "# (.W(4), n)".toList [".W(4)".toList, "n".toList] ∧
      BlockItems 2 "#( (.W(4), n))".toList [".W(4)".toList, "n".toList] ∧
      ∃ connections, [".W(4)".toList, "n".toList].mapM Token.parameter = .ok connections ∧
        Token.parameters ".W(4), n".toList = .ok connections ∧
        Token.blockParameters "# (.W(4), n)".toList = .ok connections ∧
        Token.blockParameters "#( (.W(4), n))".toList = .ok connections := by
  have connections : (Rule.netlist .connection).Items ".A(\x7bb, \x7b2'h1\x7d\x7d) , c".toList
      [".A(\x7bb, \x7b2'h1\x7d\x7d)".toList, "c".toList] [] := .more rfl rfl (.last rfl rfl)
  have parameters : (Rule.netlist .parameterConnection).Items ".W(4), n".toList
      [".W(4)".toList, "n".toList] [] := .more rfl rfl (.last rfl rfl)
  have single : BlockItems 1 "# (.W(4), n)".toList [".W(4)".toList, "n".toList] :=
    ⟨by decide, _, _, _, rfl, .more rfl .none, .more rfl rfl (.last rfl rfl), .more rfl .none⟩
  have double : BlockItems 2 "#( (.W(4), n))".toList [".W(4)".toList, "n".toList] :=
    ⟨by decide, _, _, _, rfl, .more rfl (.more rfl .none), .more rfl rfl (.last rfl rfl),
      .more rfl (.more rfl .none)⟩
  have expanded : [".A(\x7bb, \x7b2'h1\x7d\x7d)".toList, "c".toList].mapM Token.expand =
      .ok [[{ pin := some "A".toList, element := "b".toList },
        { pin := some "A".toList, element := "2'h1".toList }],
        [{ pin := none, element := "c".toList }]] := by rfl
  obtain ⟨groups, items, whole⟩ := ((taken_apart_by_items _).2.2.2 _).1 connections
  obtain rfl := Except.ok.inj (expanded.symm.trans items)
  obtain ⟨-, list, -⟩ := (taken_apart_by_items ".W(4), n".toList).2.2.2 _
  obtain ⟨-, -, block⟩ := (taken_apart_by_items "# (.W(4), n)".toList).2.2.2 _
  obtain ⟨-, -, block'⟩ := (taken_apart_by_items "#( (.W(4), n))".toList).2.2.2 _
  obtain ⟨found, items, parts⟩ := list parameters
  obtain ⟨_, items₁, parts₁⟩ := block 1 single
  obtain ⟨_, items₂, parts₂⟩ := block' 2 double
  obtain rfl := Except.ok.inj (items.symm.trans items₁)
  obtain rfl := Except.ok.inj (items.symm.trans items₂)
  exact ⟨connections, whole, parameters, single, double, found, items, parts, parts₁, parts₂⟩

end Netlist

end NetTrace
