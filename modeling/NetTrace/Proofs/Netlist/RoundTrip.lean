import NetTrace.Netlist.Token
import NetTrace.Proofs.Netlist.Language
import NetTrace.Proofs.Netlist.Retry

namespace NetTrace.Netlist

open Text (Blanks Stops Alike Remains)
open NetTrace.Token (complete_eq_ok)
open Scan

variable {text rest : Text}

theorem endsList_nil : EndsList [] :=
  ⟨⟨Text.stops_nil _, by decide, by decide⟩, by decide⟩

theorem read_render {phrase : Phrase} {reading : Reading} {more written : Text}
    (run : phrase.read text = .ok reading rest) (ends : EndsList more)
    (alike : Alike written (reading.render ++ more)) :
    ∃ left, phrase.read written = .ok reading left ∧ Remains left more := by
  obtain ⟨front, blanks, rfl, -, derives⟩ := reads_phrase phrase run
  exact takes_phrase phrase derives.canonical ends alike

inductive Delimits : Char → Char → Prop
  | parentheses : Delimits '(' ')'
  | braces : Delimits '\x7b' '\x7d'

theorem Delimits.endsList {opening closing : Char} (delimits : Delimits opening closing)
    (count : Nat) : EndsList (List.replicate (count + 1) closing) := by
  cases delimits with
  | parentheses => exact endsList_lexeme (.self [')']) (by decide) (by decide) _
  | braces => exact endsList_lexeme (.self ['\x7d']) (by decide) (by decide) _

theorem visible_ne_parenthesis {phrase : Phrase} {reading : Reading}
    (run : phrase.read text = .ok reading rest) : text.visible? ≠ some '(' := by
  obtain ⟨front, blanks, rfl, -, derives⟩ := reads_phrase phrase run
  have refused : phrase.begins '(' = false := by cases phrase <;> rfl
  exact derives.leads.ne refused _

theorem visible_render {phrase : Phrase} {reading : Reading}
    (run : phrase.read text = .ok reading rest) (more : Text) :
    (reading.render ++ more).visible? = text.visible? := by
  obtain ⟨front, blanks, rfl, -, derives⟩ := reads_phrase phrase run
  rw [derives.canonical.leads.visible, derives.leads.visible]

theorem enclosed_render_all {opening closing : Char} (delimits : Delimits opening closing)
    {phrase : Phrase} {count : Nat} {inner middle : Text} {reading : Reading}
    (opened : Opened opening (count + 1) text inner)
    (run : phrase.read inner = .ok reading middle) :
    Enclosed.scan opening closing phrase.read
      (Enclosed.render opening closing Reading.render ⟨count + 1, reading⟩) =
        .ok ⟨count + 1, reading⟩ [] := by
  have blanks : Text.isBlank opening = false ∧ Text.isBlank closing = false := by
    cases delimits <;> decide
  have other : (reading.render ++ List.replicate (count + 1) closing).visible? ≠ some opening := by
    rw [visible_render run]
    exact opened.visible_ne
  have start := (delimiters_replicate opening (count + 1)).opened blanks.1 other (.refl _)
  obtain ⟨left, run', same⟩ := read_render run (delimits.endsList count) (Alike.dropWhile _)
  have closed := (delimiters_replicate closing (count + 1)).closed? (Nat.succ_pos _) blanks.2
    (show Alike left (List.replicate (count + 1) closing ++ []) by
      rw [List.append_nil]
      exact same.alike)
  rw [← List.append_assoc] at start
  exact enclosed_eq_ok.mpr ⟨count, _, reading, left, start, run', .inl ⟨closed, rfl⟩⟩

/-- If only the first brace was used, the written form has too few closing braces for all of them
    again, and the second attempt on it reads what it read before. -/
theorem enclosed_render_first {phrase : Phrase} {count : Nat} {others inner middle left : Text}
    {value reading : Reading} (opened : Opened '\x7b' (count + 1) others inner)
    (run : phrase.read inner = .ok value middle)
    (refused : Text.closed? '\x7d' (count + 2) middle = none)
    (again : phrase.read others = .ok reading left) (closed : Text.closed? '\x7d' 1 left = some rest) :
    Enclosed.scan '\x7b' '\x7d' phrase.read
      (Enclosed.render '\x7b' '\x7d' Reading.render ⟨1, reading⟩) = .ok ⟨1, reading⟩ [] := by
  have brace : others.visible? = some '\x7b' := by
    cases opened with
    | more seen opened => exact Text.visible?_cons seen
  obtain ⟨braced, operand, alone, after, leading, item, ends, -⟩ := leading_of_brace brace again
  obtain ⟨value', middle', run', tight, -⟩ := read_after_braces braced opened item
  obtain ⟨rfl, rfl⟩ := EStateM.Result.ok.inj (run.symm.trans run')
  -- The same is found in the written form.
  obtain ⟨left', again', same⟩ :=
    read_render again (Delimits.braces.endsList 0) (.refl (reading.render ++ ['\x7d']))
  have brace' : (reading.render ++ ['\x7d']).visible? = some '\x7b' := by
    rw [visible_render again, brace]
  obtain ⟨-, operand', alone', after', leading', item', -, stays⟩ := leading_of_brace brace' again'
  obtain ⟨rfl, rfl⟩ := Prod.mk.inj (Option.some.inj (leading.symm.trans leading'))
  obtain ⟨more, written⟩ := render_leading leading
  obtain ⟨inner', opened'⟩ := opened_render opened item (more ++ ['\x7d'])
  rw [← List.append_assoc, ← written] at opened'
  obtain ⟨first, last, run'', tight', loose'⟩ := read_after_braces braced opened' item'
  have refused' : Text.closed? '\x7d' (count + 2) last = none := by
    by_cases whole : Tight phrase count operand
    · rw [Text.closed?_add (count + 1) 1, tight whole, Option.bind_some] at refused
      rw [Text.closed?_add (count + 1) 1, tight' whole, Option.bind_some]
      cases alone with
      | true =>
        rw [Text.closed?_congr (ends rfl), closed] at refused
        contradiction
      | false => exact closed?_of_comma (stays rfl) 0
    · exact loose' whole _ (by omega)
  have closed' : Text.closed? '\x7d' 1 left' = some [] := Text.closed?_one.mpr same.alike
  exact enclosed_eq_ok.mpr ⟨count + 1, inner', first, last, .more rfl opened', run'', .inr
    ⟨refused', Nat.succ_pos _, reading, left', again', closed', rfl⟩⟩

theorem enclosed_render {opening closing : Char} (delimits : Delimits opening closing)
    {phrase : Phrase} {group : Enclosed Reading}
    (run : Enclosed.scan opening closing phrase.read text = .ok group rest) :
    Enclosed.scan opening closing phrase.read (group.render opening closing Reading.render) =
      .ok group [] := by
  obtain ⟨count, inner, value, middle, opened, content, ending⟩ := enclosed_eq_ok.mp run
  rcases ending with ⟨-, rfl⟩ | ⟨refused, deep, reading, left, again, closed, rfl⟩
  · exact enclosed_render_all delimits opened content
  · obtain ⟨count, rfl⟩ : ∃ less, count = less + 1 := ⟨count - 1, by omega⟩
    cases opened with
    | @more _ _ others _ seen opened =>
      rw [seen, List.tail_cons] at again
      cases delimits with
      | parentheses =>
        -- No phrase starts with a parenthesis, so the second attempt has failed.
        cases opened with
        | more seen' opened =>
          exact absurd (Text.visible?_cons seen') (visible_ne_parenthesis again)
      | braces => exact enclosed_render_first opened content refused again closed

theorem complete_of_spelled {α : Type} {scan : Scan Text α} {spelled : α → Text → Prop}
    {follow : Text → Prop} (name : String) (takes : Takes scan spelled follow) {value : α}
    {text blanks : Text} (spells : spelled value text) (follows : follow blanks)
    (blank : Blanks blanks) : NetTrace.Token.complete name scan (text ++ blanks) = .ok value := by
  obtain ⟨left, run, same⟩ := takes spells follows (.refl _)
  have ended : blanks.dropWhile Text.isBlank = [] := List.dropWhile_eq_nil_iff.mpr blank
  exact complete_eq_ok.mpr ⟨left, run, Eq.trans same.alike ended⟩

theorem complete_of_takes {α : Type} {scan : Scan Text α} {spelled : α → Text → Prop}
    {follow : Text → Prop} (name : String) (takes : Takes scan spelled follow) {value : α}
    {token : Text} (spells : spelled value token) (ends : follow []) :
    NetTrace.Token.complete name scan token = .ok value := by
  have complete := complete_of_spelled name takes spells ends .nil
  rwa [List.append_nil] at complete

/-- Taking the token of a phrase apart gives the parts of the reading itself. A word is a name, and
    after one phrase a run of digits. A string has no numeric value, and the value of a parameter by
    itself is not taken apart. -/
def Phrase.TakenApart (phrase : Phrase) (reading : Reading) : Prop :=
  match reading with
  | .word token =>
    if phrase = .unbasedImmediate then
      ∃ number, Token.numericValue token = .ok number ∧
        (Literal.unsized token).numericValue token = .ok number
    else Token.descriptor token = .ok { raw := token, base := token, range := none }
  | .words names => Token.names reading.render = .ok names
  | .literal value =>
    (∃ body, value = .string body) ∨ ∃ number, Token.numericValue reading.render = .ok number ∧
      value.numericValue reading.render = .ok number
  | .bounds range => Token.bitRange reading.render = .ok (BitRange.ofBounds range)
  | .operand item => Token.leaves reading.render = .ok (item.leaves.map Operand.render)
  | .operands items =>
    Token.leavesOfList reading.render = .ok ((items.flatMap Operand.leaves).map Operand.render)
  | .connection item =>
    Token.connection reading.render = .ok (Token.ofAssociation Operand.render item)
  | .connections items => Token.connections reading.render = .ok (items.flatMap Token.ofLeaves)
  | .setting _ => True
  | .parameter item =>
    Token.parameter reading.render = .ok (Token.ofAssociation Setting.render item)
  | .parameters items =>
    Token.parameters reading.render = .ok (items.map (Token.ofAssociation Setting.render))
  | .block group =>
    Token.blockParameters reading.render =
      .ok (group.content.map (Token.ofAssociation Setting.render))

theorem numericValue_of_spelled {value : Literal} {text blanks : Text}
    (spells : Literal.Spelled value text) (blank : Blanks blanks) :
    Token.numericValue (text ++ blanks) = value.numericValue (text ++ blanks) := by
  have ends : Ends (blanks ++ []) := endsList_nil.1.padded blank
  rw [List.append_nil] at ends
  have complete := complete_of_spelled "Immediate" takes_literal spells ⟨ends.1, ends.2.1⟩ blank
  simp only [Token.numericValue, complete, bind, Except.bind]

theorem numericValue_render {value : Literal} {text : Text} (spells : Literal.Spelled value text) :
    Token.numericValue value.render = value.numericValue value.render := by
  have same := numericValue_of_spelled spells.canonical .nil
  rwa [List.append_nil] at same

theorem numericValue_of_literal {value : Literal} {text : Text}
    (spells : Literal.Spelled value text) : (∃ body, value = .string body) ∨
      ∃ number, Token.numericValue value.render = .ok number ∧
        value.numericValue value.render = .ok number := by
  rw [numericValue_render spells]
  cases value with
  | unsized digits => exact .inr ⟨_, rfl, rfl⟩
  | sized width radix digits => exact .inr ⟨_, rfl, rfl⟩
  | string body => exact .inl ⟨body, rfl⟩

theorem descriptor_of_selection {selection : Selection} {text : Text}
    (spells : Selection.Spelled selection text) :
    Token.descriptor selection.render = .ok
      { raw := selection.render, base := selection.name
        range := selection.bounds.map BitRange.ofBounds } := by
  have complete := complete_of_takes "Identifier" takes_selection spells.canonical
    ⟨endsList_nil.1.1, endsList_nil.1.2.2⟩
  rw [Token.descriptor, complete]
  rfl

theorem descriptor_of_name {name : Text} (named : SimpleName name ∨ EscapedName name) :
    Token.descriptor name = .ok { raw := name, base := name, range := none } := by
  have spells : Selection.Spelled ⟨name, none⟩ name := .whole ⟨named, .self name⟩
  exact descriptor_of_selection spells

theorem numericValue_of_digits {digits : Text} (run : DigitRun Char.isDigit digits) :
    ∃ number, Token.numericValue digits = .ok number ∧
      (Literal.unsized digits).numericValue digits = .ok number := by
  have spells : Literal.Spelled (.unsized digits) digits := .unsized run (.self digits)
  rcases numericValue_of_literal spells with ⟨_, same⟩ | number
  · contradiction
  · exact number

theorem map_complete_eq_ok {α β : Type} {scan : Scan Text α} {name : String} {f : α → β}
    {found : β} {token : Text} : f <$> NetTrace.Token.complete name scan token = .ok found ↔
      ∃ value left, scan token = .ok value left ∧ left.dropWhile Text.isBlank = [] ∧
        found = f value := by
  constructor
  · intro taken
    cases complete : NetTrace.Token.complete name scan token with
    | error violation =>
      rw [complete] at taken
      contradiction
    | ok value =>
      rw [complete] at taken
      obtain ⟨left, run, ended⟩ := complete_eq_ok.mp complete
      exact ⟨value, left, run, ended, (Except.ok.inj taken).symm⟩
  · intro given
    obtain ⟨value, left, run, ended, rfl⟩ := given
    rw [complete_eq_ok.mpr ⟨left, run, ended⟩]
    rfl

theorem map_complete {α β : Type} {scan : Scan Text α} {value : α} {token : Text} {name : String}
    (f : α → β) (complete : NetTrace.Token.complete name scan token = .ok value) :
    f <$> NetTrace.Token.complete name scan token = .ok (f value) := by
  rw [complete]
  rfl

theorem takenApart_of_derives {phrase : Phrase} {reading : Reading} {text : Text}
    (derives : phrase.Derives reading text) : phrase.TakenApart reading := by
  have ends := endsList_nil
  have names : Takes Name.scan Name.Spelled Ends :=
    fun _ _ _ _ named follows => takes_name named follows.1
  have passes : Passes 0 Name.scan := reads_name.passes fun _ _ _ => Nat.zero_le _
  cases derives.canonical with
  | identifier spells => exact descriptor_of_name spells.1
  | simpleIdentifier named => exact descriptor_of_name (.inl named)
  | escapedIdentifier named => exact descriptor_of_name (.inr named)
  | unbasedImmediate run => exact numericValue_of_digits run
  | parameterConnectedElement => trivial
  | identifierList spells =>
    exact complete_of_takes _ (.phrase _ (takes_commaList names passes)) spells ends
  | immediate spells => exact numericValue_of_literal spells
  | basedImmediate spells => exact numericValue_of_literal spells
  | stringLiteral spells => exact numericValue_of_literal spells
  | bitRange spells => exact map_complete _ (complete_of_takes _ takes_bounds spells trivial)
  | connectedElement spells => exact map_complete _ (complete_of_takes _ takes_operand spells ends.1)
  | connectedElementList spells =>
    exact map_complete _ (complete_of_takes _ (.phrase _ (takes_commaList takes_operand passes_operand))
      spells ends)
  | connection spells => exact map_complete _ (complete_of_takes _ takes_connection spells ends.1)
  | connectionList spells =>
    exact map_complete _ (complete_of_takes _ (.phrase _ (takes_commaList takes_connection passes_connection))
      spells ends)
  | parameterConnection spells => exact map_complete _ (complete_of_takes _ takes_parameter spells ends.1)
  | parameterList spells => exact map_complete _ (complete_of_takes _ takes_parameters spells ends)
  | moduleParameters spells => exact map_complete _ (complete_of_takes _ takes_block spells ends)

theorem leaves_render {operand : Operand} (spells : Operand.Spelled operand text) :
    Token.leaves operand.render = .ok (operand.leaves.map Operand.render) :=
  takenApart_of_derives (.connectedElement spells)

theorem connection_render {association : Association Operand}
    (spells : Association.Spelled Operand.Spelled association text) :
    Token.connection (association.render Operand.render) =
      .ok (Token.ofAssociation Operand.render association) :=
  takenApart_of_derives (.connection spells)

theorem parameter_render {association : Association Setting}
    (spells : Association.Spelled Setting.Spelled association text) :
    Token.parameter (association.render Setting.render) =
      .ok (Token.ofAssociation Setting.render association) :=
  takenApart_of_derives (.parameterConnection spells)

theorem phrase_reads_back {phrase : Phrase} {text rest token : Text}
    (lexed : (Rule.netlist phrase).lex text = .ok (rest, token)) :
    ∃ reading left, phrase.read text = .ok reading left ∧ token = reading.render ∧
      phrase.read token = .ok reading [] ∧ (Rule.netlist phrase).lex token = .ok ([], token) ∧
      phrase.TakenApart reading := by
  obtain ⟨left, run, -⟩ := Rule.lex_iff_read.mp lexed
  obtain ⟨reading, read, rfl⟩ := map_eq_ok.mp run
  have alike : Alike reading.render (reading.render ++ []) := by
    rw [List.append_nil]
    exact .refl _
  obtain ⟨ended, again, same⟩ := read_render read endsList_nil alike
  obtain rfl : ended = [] := by
    rcases same with same | same
    · exact same
    · exact same
  obtain ⟨front, blanks, -, -, derives⟩ := reads_phrase phrase read
  have lexed' : (Rule.netlist phrase).lex reading.render = .ok ([], reading.render) :=
    Rule.lex_iff_read.mpr ⟨[], map_ok _ again, rfl⟩
  exact ⟨reading, left, read, rfl, again, lexed', takenApart_of_derives derives⟩

theorem group_reads_back {phrase : Phrase} {opening closing : Char} {text rest token : Text}
    (delimits : Delimits opening closing)
    (lexed : (Rule.wrapped phrase opening closing).lex text = .ok (rest, token)) :
    ∃ group left, Enclosed.scan opening closing phrase.read text = .ok group left ∧
      token = group.render opening closing Reading.render ∧
      Enclosed.scan opening closing phrase.read token = .ok group [] ∧
      (Rule.wrapped phrase opening closing).lex token = .ok ([], token) := by
  obtain ⟨left, run, -⟩ := Rule.lex_iff_read.mp lexed
  obtain ⟨group, read, rfl⟩ := map_eq_ok.mp run
  have again := enclosed_render delimits read
  have lexed' : (Rule.wrapped phrase opening closing).lex _ = .ok ([], _) :=
    Rule.lex_iff_read.mpr ⟨[], map_ok _ again, rfl⟩
  exact ⟨group, left, read, rfl, again, lexed'⟩

theorem descriptor_of_scan {selection : Selection} (run : Selection.scan text = .ok selection rest) :
    Token.descriptor selection.render = .ok
      { raw := selection.render, base := selection.name
        range := selection.bounds.map BitRange.ofBounds } := by
  obtain ⟨front, blanks, -, -, spells⟩ := reads_selection run
  exact descriptor_of_selection spells

theorem key_reads_back {text rest token : Text}
    (lexed : Rule.signalKey.lex text = .ok (rest, token)) :
    ∃ selection left, Selection.scan text = .ok selection left ∧ token = selection.render ∧
      Token.descriptor token = .ok
        { raw := token, base := selection.name
          range := selection.bounds.map BitRange.ofBounds } := by
  obtain ⟨left, run, -⟩ := Rule.lex_iff_read.mp lexed
  obtain ⟨selection, read, rfl⟩ := map_eq_ok.mp run
  exact ⟨selection, left, read, rfl, descriptor_of_scan read⟩

/-- The token of a phrase is read back to its end as what it was written from, and so is the token of
    a group of such phrases in parentheses or braces; and taking a token apart, a signal key
    included, gives the parts of what was read. -/
theorem token_reads_back (phrase : Phrase) :
    (∀ text rest token, (Rule.netlist phrase).lex text = .ok (rest, token) →
      ∃ reading left, phrase.read text = .ok reading left ∧ token = reading.render ∧
        phrase.read token = .ok reading [] ∧ (Rule.netlist phrase).lex token = .ok ([], token) ∧
        phrase.TakenApart reading) ∧
    (∀ opening closing text rest token, Delimits opening closing →
      (Rule.wrapped phrase opening closing).lex text = .ok (rest, token) →
      ∃ group left, Enclosed.scan opening closing phrase.read text = .ok group left ∧
        token = group.render opening closing Reading.render ∧
        Enclosed.scan opening closing phrase.read token = .ok group [] ∧
        (Rule.wrapped phrase opening closing).lex token = .ok ([], token)) ∧
    ∀ text rest token, Rule.signalKey.lex text = .ok (rest, token) →
      ∃ selection left, Selection.scan text = .ok selection left ∧ token = selection.render ∧
        Token.descriptor token = .ok
          { raw := token, base := selection.name
            range := selection.bounds.map BitRange.ofBounds } := by
  refine ⟨fun text rest token lexed => phrase_reads_back lexed, ?_, ?_⟩
  · intro opening closing text rest token delimits lexed
    exact group_reads_back delimits lexed
  · intro text rest token lexed
    exact key_reads_back lexed

/-- A list in braces of which only the first is a delimiter: the second attempt reads it, before and
    after it is written. -/
theorem token_reads_back_braces :
    (Rule.netlist .connectedElement).lex "\x7b a ,b[03:3] \x7d;".toList =
      .ok (";".toList, "\x7ba, b[3]\x7d".toList) ∧
    (∃ reading left, Phrase.connectedElement.read "\x7b a ,b[03:3] \x7d;".toList = .ok reading left ∧
      "\x7ba, b[3]\x7d".toList = reading.render ∧
      Phrase.connectedElement.read "\x7ba, b[3]\x7d".toList = .ok reading [] ∧
      (Rule.netlist .connectedElement).lex "\x7ba, b[3]\x7d".toList =
        .ok ([], "\x7ba, b[3]\x7d".toList) ∧ Phrase.connectedElement.TakenApart reading) ∧
    Delimits '\x7b' '\x7d' ∧
    (Rule.wrapped .connectedElementList '\x7b' '\x7d').lex "\x7b\x7ba\x7d,b\x7d".toList =
      .ok ([], "\x7b\x7ba\x7d, b\x7d".toList) ∧
    (∃ group left, Enclosed.scan '\x7b' '\x7d' Phrase.connectedElementList.read
        "\x7b\x7ba\x7d,b\x7d".toList = .ok group left ∧
      "\x7b\x7ba\x7d, b\x7d".toList = group.render '\x7b' '\x7d' Reading.render ∧
      Enclosed.scan '\x7b' '\x7d' Phrase.connectedElementList.read
        "\x7b\x7ba\x7d, b\x7d".toList = .ok group [] ∧
      (Rule.wrapped .connectedElementList '\x7b' '\x7d').lex "\x7b\x7ba\x7d, b\x7d".toList =
        .ok ([], "\x7b\x7ba\x7d, b\x7d".toList)) ∧
    Rule.signalKey.lex "a [1:2]".toList = .ok ([], "a[1:2]".toList) ∧
    ∃ selection left, Selection.scan "a [1:2]".toList = .ok selection left ∧
      "a[1:2]".toList = selection.render ∧
      Token.descriptor "a[1:2]".toList = .ok
        { raw := "a[1:2]".toList, base := selection.name
          range := selection.bounds.map BitRange.ofBounds } := by
  have element : (Rule.netlist .connectedElement).lex "\x7b a ,b[03:3] \x7d;".toList =
      .ok (";".toList, "\x7ba, b[3]\x7d".toList) := by rfl
  have group : (Rule.wrapped .connectedElementList '\x7b' '\x7d').lex
      "\x7b\x7ba\x7d,b\x7d".toList = .ok ([], "\x7b\x7ba\x7d, b\x7d".toList) := by rfl
  have key : Rule.signalKey.lex "a [1:2]".toList = .ok ([], "a[1:2]".toList) := by rfl
  exact ⟨element, (token_reads_back .connectedElement).1 _ _ _ element, .braces, group,
    (token_reads_back .connectedElementList).2.1 _ _ _ _ _ .braces group, key,
    (token_reads_back .identifier).2.2 _ _ _ key⟩

end NetTrace.Netlist
