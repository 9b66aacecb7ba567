import NetTrace.Proofs.Netlist.Items

namespace NetTrace

open Netlist Scan

/-- A token of the rule and, as long as a comma is left at the front, the comma dropped and another
    token. The outcome is the tokens with what is left after them, or why one of them is refused. -/
inductive Rule.Iterated (rule : Rule) : Text → Except Failure (List Text × Text) → Prop
  | refused {text failure} : rule.lex text = .error failure → Iterated rule text (.error failure)
  | last {text token rest} : rule.lex text = .ok (rest, token) → rest.head? ≠ some ',' →
      Iterated rule text (.ok ([token], rest))
  | more {text token next tokens rest} : rule.lex text = .ok (',' :: next, token) →
      Iterated rule next (.ok (tokens, rest)) → Iterated rule text (.ok (token :: tokens, rest))
  | stuck {text token next failure} : rule.lex text = .ok (',' :: next, token) →
      Iterated rule next (.error failure) → Iterated rule text (.error failure)

namespace Netlist.Phrase

def item? : Phrase → Option Phrase
  | identifierList => some identifier
  | connectedElementList => some connectedElement
  | connectionList => some connection
  | parameterList => some parameterConnection
  | _ => none

def listed (list : Phrase) (text : Text) :
    Except Failure (List Text × Text) → Except Failure (Text × Text)
  | .ok (tokens, rest) => .ok (rest, Text.commaJoin tokens)
  | .error failure => .error (failure.within list.name (Text.excerpt text))

end Netlist.Phrase

namespace Rule

variable {α : Type} {rule : Rule} {scan : Scan Text α} {render : α → Text}
  {text rest : Text} {tokens : List Text} {outcome : Except Failure (List Text × Text)}

theorem Iterated.head_ne (iterated : rule.Iterated text (.ok (tokens, rest))) :
    rest.head? ≠ some ',' := by
  generalize same : Except.ok (tokens, rest) = outcome at iterated
  induction iterated generalizing tokens with
  | refused | stuck => cases same
  | last lexed other => cases same; exact other
  | more lexed iterated ih => cases same; exact ih rfl

theorem Writes.exists_iterated (writes : rule.Writes scan render) (text : Text) :
    ∃ outcome, rule.Iterated text outcome := by
  -- By induction on the length of the text that is left.
  induction length : text.length using Nat.strong_induction_on generalizing text with
  | _ n ih =>
    cases lexed : rule.lex text with
    | error failure => exact ⟨_, .refused lexed⟩
    | ok found =>
      obtain ⟨rest, token⟩ := found
      by_cases comma : rest.head? = some ','
      · obtain ⟨value, left, run, -, same⟩ := writes.lex_iff.mp lexed
        have shorter := writes.passes.length run
        have blanks := (List.dropWhile_sublist Text.isBlank (l := left)).length_le
        rw [← same, List.eq_cons_of_mem_head? comma, List.length_cons] at blanks
        obtain ⟨outcome, iterated⟩ := ih rest.tail.length (by omega) rest.tail rfl
        rw [List.eq_cons_of_mem_head? comma] at lexed
        cases outcome with
        | error failure => exact ⟨_, .stuck lexed iterated⟩
        | ok found => exact ⟨_, .more lexed iterated⟩
      · exact ⟨_, .last lexed comma⟩

theorem Writes.commaList_of_iterated (writes : rule.Writes scan render)
    (iterated : rule.Iterated text (.ok (tokens, rest))) :
    ∃ values left, commaList scan text = .ok values left ∧ tokens = values.map render ∧
      rest = left.dropWhile Text.isBlank := by
  generalize same : Except.ok (tokens, rest) = outcome at iterated
  induction iterated generalizing tokens with
  | refused | stuck => cases same
  | last lexed other =>
    cases same
    obtain ⟨value, left, run, rfl, rfl⟩ := writes.lex_iff.mp lexed
    have list := (commaList_eq_ok writes.passes).mpr
      ⟨value, [], left, rfl, run, .inl ⟨other, rfl, rfl⟩⟩
    exact ⟨[value], _, list, rfl, (Text.dropWhile_dropWhile _ _).symm⟩
  | more lexed iterated ih =>
    cases same
    obtain ⟨value, left, run, rfl, seen⟩ := writes.lex_iff.mp lexed
    obtain ⟨values, last, list, rfl, rfl⟩ := ih rfl
    exact ⟨value :: values, last, (commaList_eq_ok writes.passes).mpr
      ⟨value, values, left, rfl, run, .inr ⟨_, seen.symm, list⟩⟩, rfl, rfl⟩

theorem Writes.commaList_error_of_iterated (writes : rule.Writes scan render)
    (refuses : ∀ {text failure}, rule.lex text = .error failure →
      ∃ left, scan text = .error failure left)
    {failure : Failure} (iterated : rule.Iterated text (.error failure)) :
    ∃ left, commaList scan text = .error failure left := by
  generalize same : Except.error failure = outcome at iterated
  induction iterated with
  | last | more => cases same
  | refused lexed =>
    cases same
    obtain ⟨left, refused⟩ := refuses lexed
    exact ⟨left, commaList_of_error writes.passes refused⟩
  | stuck lexed iterated ih =>
    cases same
    obtain ⟨value, middle, run, -, seen⟩ := writes.lex_iff.mp lexed
    obtain ⟨left, refused⟩ := ih rfl
    exact ⟨left, commaList_of_stuck writes.passes run seen.symm refused⟩

theorem lex_netlist_error {phrase : Phrase} (wrap : α → Reading)
    (same : (phrase.read : Scan Text Reading) = wrap <$> scan) {failure : Failure} :
    (netlist phrase).lex text = .error failure ↔ ∃ left, scan text = .error failure left := by
  rw [lex_eq_error]
  simp only [token, read, same, Bind.bind, EStateM.bind, Functor.map, EStateM.map]
  cases scan text <;> simp

theorem Writes.lex_list {item list : Phrase} (one : α → Reading) (many : List α → Reading)
    (writes : (netlist item).Writes scan render)
    (reads : (item.read : Scan Text Reading) = one <$> scan)
    (reads' : (list.read : Scan Text Reading) = many <$> phrase list.name (commaList scan))
    (joins : ∀ values, (many values).render = Text.commaJoin (values.map render)) (text : Text) :
    (∃ outcome, (netlist item).Iterated text outcome) ∧
      ∀ outcome, (netlist item).Iterated text outcome →
        (netlist list).lex text = list.listed text outcome := by
  refine ⟨writes.exists_iterated text, fun outcome iterated => ?_⟩
  cases outcome with
  | ok found =>
    obtain ⟨tokens, rest⟩ := found
    obtain ⟨values, left, run, rfl, rfl⟩ := writes.commaList_of_iterated iterated
    exact (lex_netlist many reads').mpr
      ⟨values, left, phrase_eq_ok.mpr run, (joins values).symm, rfl⟩
  | error failure =>
    obtain ⟨left, refused⟩ := writes.commaList_error_of_iterated
      (lex_netlist_error one reads).mp iterated
    exact (lex_netlist_error many reads').mpr ⟨text, phrase_of_error _ refused⟩

end Rule

namespace Netlist

theorem writes_name : (Rule.netlist .identifier).Writes Name.scan id where
  passes := reads_name.passes fun _ _ _ => Nat.zero_le _
  again := name_dropWhile
  lex_iff := Rule.lex_netlist .word rfl

theorem lex_list {list item : Phrase} (lists : list.item? = some item) (text : Text) :
    (∃ outcome, (Rule.netlist item).Iterated text outcome) ∧
      ∀ outcome, (Rule.netlist item).Iterated text outcome →
        (Rule.netlist list).lex text = list.listed text outcome := by
  cases list with
  | identifierList =>
    cases lists
    have joins : ∀ names, (Reading.words names).render = Text.commaJoin (names.map id) := by
      intro names
      rw [List.map_id]
      rfl
    exact writes_name.lex_list .word .words rfl rfl joins text
  | connectedElementList =>
    cases lists
    exact writes_operand.lex_list .operand .operands rfl rfl Operand.renderItems_eq_commaJoin text
  | connectionList =>
    cases lists
    exact writes_connection.lex_list .connection .connections rfl rfl (fun _ => rfl) text
  | parameterList =>
    cases lists
    exact writes_parameter.lex_list .parameter .parameters rfl rfl (fun _ => rfl) text
  | _ => cases lists

/-- A list is lexed where the loop over its item ends with no item refused. It leaves what the loop
    leaves, which no comma starts, and its token is the tokens of the items in order with a comma and
    a blank between them. Where an item is refused, the list is refused for the same and leaves the
    text as it was. -/
theorem lists_iterate_items (list item : Phrase) (lists : list.item? = some item) (text : Text) :
    (∀ rest token, (Rule.netlist list).lex text = .ok (rest, token) ↔ ∃ tokens,
      (Rule.netlist item).Iterated text (.ok (tokens, rest)) ∧ token = Text.commaJoin tokens) ∧
    (∀ rest token, (Rule.netlist list).lex text = .ok (rest, token) → rest.head? ≠ some ',') ∧
    (∀ failure, (Rule.netlist list).lex text = .error failure ↔ ∃ reason,
      (Rule.netlist item).Iterated text (.error reason) ∧
        failure = reason.within list.name (Text.excerpt text)) ∧
    ∀ failure rest, (Rule.netlist list).token text = .error failure rest → rest = text := by
  obtain ⟨⟨outcome, iterated⟩, same⟩ := lex_list lists text
  have accepted : ∀ {rest token}, (Rule.netlist list).lex text = .ok (rest, token) → ∃ tokens,
      (Rule.netlist item).Iterated text (.ok (tokens, rest)) ∧ token = Text.commaJoin tokens := by
    intro rest token lexed
    rw [same outcome iterated] at lexed
    cases outcome with
    | error reason => cases lexed
    | ok found =>
      obtain ⟨tokens, left⟩ := found
      cases lexed
      exact ⟨tokens, iterated, rfl⟩
  have refused : ∀ {failure}, (Rule.netlist list).lex text = .error failure → ∃ reason,
      (Rule.netlist item).Iterated text (.error reason) ∧
        failure = reason.within list.name (Text.excerpt text) := by
    intro failure lexed
    rw [same outcome iterated] at lexed
    cases outcome with
    | ok found => cases lexed
    | error reason =>
      cases lexed
      exact ⟨reason, iterated, rfl⟩
  refine ⟨fun rest token => ⟨accepted, fun given => ?_⟩, fun rest token lexed => ?_,
    fun failure => ⟨refused, fun given => ?_⟩, fun failure rest => ?_⟩
  · obtain ⟨tokens, iterated, rfl⟩ := given
    exact same _ iterated
  · obtain ⟨tokens, iterated, -⟩ := accepted lexed
    exact iterated.head_ne
  · obtain ⟨reason, iterated, rfl⟩ := given
    exact same _ iterated
  · exact fun refused => (Rule.netlist list).restores_token refused

/-- Three items with blanks around them, and a list that is refused for what follows its second
    comma. -/
theorem lists_iterate_items_connections :
    Phrase.connectionList.item? = some .connection ∧
      (Rule.netlist .connection).Iterated ".A(b) ,\x7bc\x7d, 4'h1 ;".toList
        (.ok ([".A(b)".toList, "\x7bc\x7d".toList, "4'h1".toList], ";".toList)) ∧
      (Rule.netlist .connectionList).lex ".A(b) ,\x7bc\x7d, 4'h1 ;".toList =
        .ok (";".toList, ".A(b), \x7bc\x7d, 4'h1".toList) ∧
      ∃ reason, (Rule.netlist .connection).Iterated "a, b, ;".toList (.error reason) ∧
        (Rule.netlist .connectionList).lex "a, b, ;".toList =
          .error (reason.within "ConnectionList" (Text.excerpt "a, b, ;".toList)) ∧
        ∃ failure, (Rule.netlist .connectionList).token "a, b, ;".toList =
          .error failure "a, b, ;".toList := by
  have first : (Rule.netlist .connection).lex ".A(b) ,\x7bc\x7d, 4'h1 ;".toList =
    .ok (",\x7bc\x7d, 4'h1 ;".toList, ".A(b)".toList) := by rfl
  have second : (Rule.netlist .connection).lex "\x7bc\x7d, 4'h1 ;".toList =
    .ok (", 4'h1 ;".toList, "\x7bc\x7d".toList) := by rfl
  have third : (Rule.netlist .connection).lex " 4'h1 ;".toList =
    .ok (";".toList, "4'h1".toList) := by rfl
  have iterated : (Rule.netlist .connection).Iterated _ _ :=
    .more first (.more second (.last third (by decide)))
  have first' : (Rule.netlist .connection).lex "a, b, ;".toList =
    .ok (", b, ;".toList, "a".toList) := by rfl
  have second' : (Rule.netlist .connection).lex " b, ;".toList =
    .ok (", ;".toList, "b".toList) := by rfl
  have third' : ∃ reason, (Rule.netlist .connection).lex " ;".toList = .error reason :=
    ⟨_, by rfl⟩
  obtain ⟨reason, third'⟩ := third'
  have stuck : (Rule.netlist .connection).Iterated _ _ :=
    .stuck first' (.stuck second' (.refused third'))
  obtain ⟨accepts, -⟩ := lists_iterate_items .connectionList .connection rfl
    ".A(b) ,\x7bc\x7d, 4'h1 ;".toList
  obtain ⟨-, -, refuses, restores⟩ := lists_iterate_items .connectionList .connection rfl
    "a, b, ;".toList
  have lexed := (accepts _ _).mpr ⟨_, iterated, rfl⟩
  have refused := (refuses _).mpr ⟨reason, stuck, rfl⟩
  obtain ⟨rest, left⟩ := Rule.lex_eq_error.mp refused
  obtain rfl := restores _ _ left
  exact ⟨rfl, iterated, lexed, reason, stuck, refused, _, left⟩

end Netlist

end NetTrace
