import NetTrace.Proofs.Command.Printed
import NetTrace.Proofs.Lexing.Quotations
import NetTrace.Proofs.Netlist.Leaves
import NetTrace.Proofs.Signal.Views
import NetTrace.Proofs.Text.Rows

namespace NetTrace

open Scan Text

namespace Netlist

/-- Where a blank can stand in a name or a value: in the body of a string, and at the end of an
    escaped name, which a range may follow. -/
inductive BlankIn (c : Char) : Text → Prop
  | string {body} : c ∈ body → BlankIn c ('"' :: body ++ ['"'])
  | escaped {body} (bounds? : Option Bounds) : (∀ d ∈ body, isBlank d = false) →
      BlankIn c ('\\' :: body ++ c :: (bounds?.map Bounds.render).getD [])

variable {c : Char} {text name : Text} (blank : isBlank c = true)

include blank

theorem absent_of_visible (visible : ∀ d ∈ text, isBlank d = false) : c ∉ text := by
  intro member
  have other := visible c member
  rw [blank] at other
  contradiction

theorem absent_digits {isDigit : Char → Bool} {digits : Text} (run : DigitRun isDigit digits)
    (visible : ∀ d, isDigit d = true → isBlank d = false) : c ∉ digits :=
  absent_of_visible blank fun d member => visible d (run.2 d member)

theorem absent_bounds (bounds : Bounds) : c ∉ bounds.render := by
  have digits : ∀ n, c ∉ Numeral.decimal n := fun n => absent_of_visible blank fun d member =>
    visible_of_isDigit (Numeral.isDigit_of_mem_decimal member)
  have mark : ∀ d, isBlank d = false → c ≠ d := by
    intro d visible same
    rw [← same, blank] at visible
    contradiction
  have opened := mark '[' rfl
  have colon := mark ':' rfl
  have closed := mark ']' rfl
  unfold Bounds.render
  split <;> simp [digits, opened, colon, closed]

theorem blankIn_selection {selection : Selection} (spells : selection.Spelled text)
    (member : c ∈ selection.render) : BlankIn c selection.render := by
  have named : (SimpleName selection.name ∨ EscapedName selection.name) ∧
      selection.render = selection.name ++ (selection.bounds.map Bounds.render).getD [] := by
    cases spells with
    | whole named => exact ⟨named.1, (List.append_nil _).symm⟩
    | part named _ => exact ⟨named.1, rfl⟩
  obtain ⟨kind, written⟩ := named
  have bare : c ∉ (selection.bounds.map Bounds.render).getD [] := by
    cases selection.bounds with
    | none => exact List.not_mem_nil
    | some bounds => exact absent_bounds blank bounds
  rw [written] at member ⊢
  have inName := (List.mem_append.mp member).resolve_right bare
  rcases kind with ⟨first, others, same, starts, continues⟩ | ⟨body, terminator, same, visible, -⟩
  · rw [same] at inName
    refine (absent_of_visible blank (List.forall_mem_cons.mpr ⟨?_, fun d among => ?_⟩) inName).elim
    · exact visible_of_continues (continues_of_starts starts)
    · exact visible_of_continues (continues d among)
  · rw [same] at inName ⊢
    obtain rfl : c = terminator := by
      rcases List.mem_append.mp inName with early | last
      · refine (absent_of_visible blank (List.forall_mem_cons.mpr ⟨rfl, visible⟩) early).elim
      · exact List.mem_singleton.mp last
    rw [List.append_assoc]
    exact .escaped _ visible

theorem blankIn_name (named : Name.Spelled name text) (member : c ∈ name) : BlankIn c name :=
  blankIn_selection blank (.whole named) member

theorem blankIn_literal {value : Literal} (spells : value.Spelled text)
    (member : c ∈ value.render) : BlankIn c value.render := by
  have radixDigit : ∀ (radix : Radix) d, radix.isDigit d = true → isBlank d = false :=
    fun radix d digit => visible_of_continues (continues_of_radix radix digit)
  cases spells with
  | unsized run _ => exact (absent_digits blank run (fun _ => visible_of_isDigit) member).elim
  | @sized width radix digits _ _ run _ run' _ =>
    have tick : c ≠ '\'' := by
      rintro rfl
      contradiction
    have marker : c ≠ radix.marker := by
      rintro rfl
      cases radix <;> contradiction
    have absent := absent_digits blank run fun _ => visible_of_isDigit
    have absent' := absent_digits blank run'.of_figures (radixDigit radix)
    simp [Literal.render, tick, marker, absent, absent'] at member
  | @string body _ _ _ =>
    have quote : c ≠ '"' := by
      rintro rfl
      contradiction
    exact .string (by simpa [Literal.render, quote] using member)

theorem blankIn_leaf {operand : Operand} (spells : Operand.Spelled operand text) :
    ∀ leaf ∈ operand.leaves, c ∈ leaf.render → BlankIn c leaf.render := by
  refine spells.induct (motive := fun operand _ => ∀ leaf ∈ operand.leaves,
    c ∈ leaf.render → BlankIn c leaf.render) ?_ ?_ ?_
  · intro value text spells leaf among member
    obtain rfl := List.mem_singleton.mp among
    exact blankIn_literal blank spells member
  · intro selection text spells leaf among member
    obtain rfl := List.mem_singleton.mp among
    exact blankIn_selection blank spells member
  · intro items opened text closed _ spells _ leaf among member
    rw [Operand.leaves, Operand.leavesOfItems_eq_flatMap] at among
    obtain ⟨item, ofItem, among⟩ := List.mem_flatMap.mp among
    obtain ⟨_, leaves⟩ := spells.exists_item item ofItem
    exact leaves leaf among member

theorem blankIn_setting {setting : Setting} (spells : setting.Spelled text)
    (member : c ∈ setting.render) : BlankIn c setting.render := by
  cases spells with
  | literal spells => exact blankIn_literal blank spells member
  | name named => exact blankIn_name blank named member

theorem blankIn_pin {α : Type} {spelled : α → Text → Prop} {association : Association α}
    (spells : association.Spelled spelled text) (member : c ∈ association.pin?.getD []) :
    BlankIn c (association.pin?.getD []) := by
  cases spells with
  | positional _ => contradiction
  | named _ named _ => exact blankIn_name blank named member

end Netlist

section Sources

variable {limit : Nat} {stream later : Stream} {source : Source}

theorem Signal.spelled_of_lex {key : Text} (lexed : stream.lex .signalKey = (.ok key, later)) :
    ∃ selection text, Netlist.Selection.Spelled selection text ∧ key = selection.render := by
  rcases Stream.lex_cases .signalKey (Stream.placed_self stream) with
    ⟨token, _, rest, given, expected, -⟩ | ⟨_, _, _, given, -⟩
  · rw [lexed] at given
    cases given
    obtain ⟨selection, left, run, same, -⟩ := lex_key_iff.mp expected
    obtain ⟨text, blanks, -, -, spells⟩ := Netlist.reads_selection run
    exact ⟨selection, text, spells, same⟩
  · rw [lexed] at given
    cases given

theorem Signal.spelled_of_keysUpTo {found : List Text} (scanned : keysUpTo limit stream = .ok found) :
    ∀ key ∈ found, ∃ selection text, Netlist.Selection.Spelled selection text ∧
      key = selection.render := by
  induction limit generalizing stream found with
  | zero =>
    cases scanned
    exact List.forall_mem_nil _
  | succ limit ih =>
    rcases keysUpTo_step limit stream with ⟨seen, step⟩ | ⟨seen, key, later, lexed, step⟩ |
      ⟨seen, refusal, later, -, step⟩
    · rw [step, except_bind_eq_ok] at scanned
      obtain ⟨_, -, done⟩ := scanned
      cases done
      exact List.forall_mem_nil _
    · rw [step, except_bind_eq_ok] at scanned
      obtain ⟨more, others, done⟩ := scanned
      cases done
      exact List.forall_mem_cons.mpr ⟨spelled_of_lex lexed, ih others⟩
    · rw [step, except_bind_eq_ok] at scanned
      obtain ⟨_, -, done⟩ := scanned
      contradiction

theorem Vcd.words_of_declaration {command : Text} {declared : Variable}
    (decoded : Token.declaration command = .ok declared) :
    IsWord declared.code ∧ IsWord declared.name :=
  (declaration_eq_ok.mp decoded).areWords fun _ member => isWord_of_mem_words member

theorem Vcd.Header.words_of_scanUpTo {found : List Variable} (scanned : scanUpTo limit stream = .ok found) :
    ∀ declared ∈ found, IsWord declared.code ∧ IsWord declared.name := by
  induction limit generalizing stream found with
  | zero =>
    cases scanned
    exact List.forall_mem_nil _
  | succ limit ih =>
    cases lexed : stream.lex (.vcd .declarationCommand) with
    | mk result later =>
      cases result with
      | error refusal =>
        rw [scanUpTo_error lexed, except_bind_eq_ok] at scanned
        obtain ⟨_, -, done⟩ := scanned
        cases done
        exact List.forall_mem_nil _
      | ok command =>
        rw [scanUpTo_ok lexed] at scanned
        split at scanned
        · obtain ⟨first, decoded, scanned⟩ := except_bind_eq_ok.mp scanned
          obtain ⟨more, others, done⟩ := except_bind_eq_ok.mp scanned
          cases done
          exact List.forall_mem_cons.mpr ⟨words_of_declaration decoded, ih others⟩
        · split at scanned
          · cases scanned
            exact List.forall_mem_nil _
          · exact ih scanned

end Sources

namespace Command

open Netlist

variable {opened : Opened} {command : Command} {entries : List (List Text)}

def lists : Command → Bool
  | connections _ | parameters _ | whitelist _ | declarations _ => true
  | version | lex .. | literal _ => false

/-- What a command extracts, entry by entry with their fields: a pin and a leaf that it is connected
    to, a parameter and its value, a key, and the code, width and name of a variable. -/
inductive Extracts (opened : Opened) : Command → List (List Text) → Prop
  | connections {text items rest} : Association.scanConnections text = .ok items rest →
      Extracts opened (.connections text) (items.flatMap fun item =>
        item.value.leaves.map fun leaf => [item.pin?.getD [], leaf.render])
  | parameters {text block rest} : ParameterBlock.scan text = .ok block rest →
      Extracts opened (.parameters text) (block.content.map fun item =>
        [item.pin?.getD [], item.value.render])
  | whitelist {path source found} : opened.source path = .ok source → Signal.keys source = .ok found →
      Extracts opened (.whitelist path) (found.map fun key => [key])
  | declarations {path source found} : opened.source path = .ok source →
      Vcd.Header.scan source = .ok found →
      Extracts opened (.declarations path) (found.map fun declared =>
        [declared.code, Numeral.decimal declared.width.toNat, declared.name])

def printed (entries : List (List Text)) : Text := entries.flatMap fun fields => line fields ++ ['\n']

theorem entry_eq (pin? : Option Text) (text : Text) :
    entry pin? text = line [pin?.getD [], text] ++ ['\n'] := by
  simp [entry, line_pair]

theorem line_singleton (field : Text) : line [field] = field := by simp [line, List.intercalate]

theorem output_of_extracts (extracts : Extracts opened command entries) :
    command.run opened = { exit := 0, output := printed entries } := by
  cases extracts with
  | connections read =>
    rw [run_connections read]
    simp only [printed, List.flatMap_assoc, List.flatMap_map, entry_eq]
  | parameters read =>
    rw [run_parameters read]
    simp only [printed, List.flatMap_map, entry_eq]
  | @whitelist path source found given scanned =>
    have told : (opened.source path >>= Signal.keys) = .ok found :=
      except_bind_eq_ok.mpr ⟨source, given, scanned⟩
    simp only [Command.run, told, report, Report.success, printed, List.flatMap_map, line_singleton]
  | @declarations path source found given scanned =>
    have told : (opened.source path >>= Vcd.Header.scan) = .ok found :=
      except_bind_eq_ok.mpr ⟨source, given, scanned⟩
    rw [Command.run, told]
    show Report.success (found.map variableLine) = _
    simp only [Report.success, printed, List.flatMap_map, variableLine]

theorem ok_of_exit {found : Except Failure (List Text)} (ended : (report (.ok found)).exit = 0) :
    ∃ lines, found = .ok lines := by
  cases found with
  | ok lines => exact ⟨lines, rfl⟩
  | error failure => exact absurd ended (show (1 : UInt8) ≠ 0 by decide)

theorem exists_extracted (lists : command.lists = true) (ended : (command.run opened).exit = 0) :
    ∃ entries, Extracts opened command entries := by
  have well : ∀ failure, command.run opened ≠ .failed failure := by
    intro failure failed
    rw [failed] at ended
    exact absurd ended (show (1 : UInt8) ≠ 0 by decide)
  cases command with
  | connections text =>
    have given : (connections text).text? = some text := rfl
    rcases prints_or_failed opened given with ⟨_, prints⟩ | ⟨failure, failed⟩
    · cases prints with
      | connections read => exact ⟨_, .connections read⟩
    · exact absurd failed (well failure)
  | parameters text =>
    have given : (parameters text).text? = some text := rfl
    rcases prints_or_failed opened given with ⟨_, prints⟩ | ⟨failure, failed⟩
    · cases prints with
      | parameters read => exact ⟨_, .parameters read⟩
    · exact absurd failed (well failure)
  | whitelist path =>
    obtain ⟨found, told⟩ := ok_of_exit ended
    obtain ⟨source, given, scanned⟩ := except_bind_eq_ok.mp told
    exact ⟨_, .whitelist given scanned⟩
  | declarations path =>
    obtain ⟨lines, told⟩ := ok_of_exit ended
    obtain ⟨found, told, -⟩ := except_bind_eq_ok.mp told
    obtain ⟨source, given, scanned⟩ := except_bind_eq_ok.mp told
    exact ⟨_, .declarations given scanned⟩
  | version | lex | literal => contradiction

theorem ne_nil_of_extracts (extracts : Extracts opened command entries) :
    ∀ fields ∈ entries, fields ≠ [] := by
  intro fields among
  cases extracts with
  | connections _ =>
    obtain ⟨item, -, among⟩ := List.mem_flatMap.mp among
    obtain ⟨leaf, -, rfl⟩ := List.mem_map.mp among
    exact List.cons_ne_nil _ _
  | parameters _ | whitelist _ _ | declarations _ _ =>
    obtain ⟨item, -, rfl⟩ := List.mem_map.mp among
    exact List.cons_ne_nil _ _

section Blanks

variable {c : Char} (blank : isBlank c = true)

include blank

theorem absent_of_declarations {path : Text} (extracts : Extracts opened (.declarations path) entries) :
    ∀ fields ∈ entries, ∀ field ∈ fields, c ∉ field := by
  intro fields among field member
  cases extracts with
  | declarations _ scanned =>
    obtain ⟨declared, ofList, rfl⟩ := List.mem_map.mp among
    obtain ⟨isCode, isName⟩ := Vcd.Header.words_of_scanUpTo scanned declared ofList
    have isWidth := Vcd.isWord_decimal declared.width.toNat
    simp only [List.mem_cons, List.not_mem_nil, or_false] at member
    rcases member with rfl | rfl | rfl
    · exact absent_of_visible blank isCode.2
    · exact absent_of_visible blank isWidth.2
    · exact absent_of_visible blank isName.2

theorem blankIn_of_extracts (extracts : Extracts opened command entries) :
    ∀ fields ∈ entries, ∀ field ∈ fields, c ∈ field → BlankIn c field := by
  intro fields among field member inField
  cases extracts with
  | connections read =>
    obtain ⟨_, _, -, -, spells⟩ := reads_commaList reads_connection (phrase_eq_ok.mp read)
    obtain ⟨item, ofList, among⟩ := List.mem_flatMap.mp among
    obtain ⟨leaf, isLeaf, rfl⟩ := List.mem_map.mp among
    obtain ⟨_, item⟩ := spells.exists_item item ofList
    obtain ⟨_, value⟩ := item.exists_value
    rcases List.mem_pair.mp member with rfl | rfl
    · exact blankIn_pin blank item inField
    · exact blankIn_leaf blank value leaf isLeaf inField
  | parameters read =>
    obtain ⟨_, _, -, -, spells⟩ := reads_block read
    obtain ⟨item, ofList, rfl⟩ := List.mem_map.mp among
    cases spells with
    | intro _ group =>
      cases group with
      | intro _ _ content _ =>
        obtain ⟨_, item⟩ := content.exists_item item ofList
        obtain ⟨_, value⟩ := item.exists_value
        rcases List.mem_pair.mp member with rfl | rfl
        · exact blankIn_pin blank item inField
        · exact blankIn_setting blank value inField
  | whitelist _ scanned =>
    obtain ⟨key, ofList, rfl⟩ := List.mem_map.mp among
    obtain rfl := List.mem_singleton.mp member
    obtain ⟨selection, _, spells, rfl⟩ := Signal.spelled_of_keysUpTo scanned field ofList
    exact blankIn_selection blank spells inField
  | declarations given scanned =>
    exact (absent_of_declarations blank (.declarations given scanned) _ among _ member inField).elim

end Blanks

/-- A command that lists what it extracts prints its entries in order, each as a line of its fields
    with tabs between them. The entries can be read back from what is printed if no field holds a tab
    or a line feed, and only then. No field of a variable does; another field holds one only in the
    body of a string, or as the blank that ends an escaped name. -/
theorem lines_tell_entries (parse : List Text → Except Report Command) (opened : Text → Opened)
    (arguments : List Text) (command : Command) (asked : parse arguments = .ok command)
    (lists : command.lists = true) (ended : (reportWith parse opened arguments).exit = 0) :
    ∃ entries, Extracts (opened (command.path?.getD [])) command entries ∧
      (reportWith parse opened arguments).output =
        entries.flatMap (fun fields => List.intercalate ['\t'] fields ++ ['\n']) ∧
      (rows (reportWith parse opened arguments).output = entries ↔
        ∀ fields ∈ entries, ∀ field ∈ fields, '\t' ∉ field ∧ '\n' ∉ field) ∧
      ((∃ path, command = .declarations path) →
        rows (reportWith parse opened arguments).output = entries) ∧
      ∀ fields ∈ entries, ∀ field ∈ fields, ∀ c, c = '\t' ∨ c = '\n' → c ∈ field →
        BlankIn c field := by
  have reported : reportWith parse opened arguments =
      command.run (opened (command.path?.getD [])) := by
    rw [reportWith, asked]
  rw [reported] at ended ⊢
  obtain ⟨entries, extracts⟩ := exists_extracted lists ended
  have output := congrArg Report.output (output_of_extracts extracts)
  have readBack : rows (command.run (opened (command.path?.getD []))).output = entries ↔
      ∀ fields ∈ entries, ∀ field ∈ fields, '\t' ∉ field ∧ '\n' ∉ field := by
    rw [output]
    exact rows_eq_iff (ne_nil_of_extracts extracts)
  refine ⟨entries, extracts, output, readBack, fun declares => ?_, ?_⟩
  · obtain ⟨path, rfl⟩ := declares
    exact readBack.mpr fun fields among field member =>
      ⟨absent_of_declarations rfl extracts fields among field member,
        absent_of_declarations rfl extracts fields among field member⟩
  · intro fields among field member c separates inField
    have blank : isBlank c = true := by
      rcases separates with rfl | rfl
      · rfl
      · rfl
    exact blankIn_of_extracts blank extracts fields among field member inField

theorem lines_tell_entries_spaces :
    let listed := ["connections".toList, ".\\p (\"x y\"), b".toList]
    let dumped := ["vcd-vars".toList, "dump".toList]
    let opened : Text → Opened := fun _ => .ok [.chunk "$var reg 8 ! d [7:0] $end".toUTF8.data]
    (∃ entries, Extracts (opened []) (.connections ".\\p (\"x y\"), b".toList) entries ∧
      (reportOn opened listed).output = "\\p \t\"x y\"\n\tb\n".toList ∧
      (rows (reportOn opened listed).output = entries ↔
        ∀ fields ∈ entries, ∀ field ∈ fields, '\t' ∉ field ∧ '\n' ∉ field)) ∧
    ∃ entries, Extracts (opened "dump".toList) (.declarations "dump".toList) entries ∧
      (reportOn opened dumped).output = "!\t8\td[7:0]\n".toList ∧
      rows (reportOn opened dumped).output = entries := by
  intro listed dumped opened
  have asked : parse listed = .ok (.connections ".\\p (\"x y\"), b".toList) := by decide +kernel
  have asked' : parse dumped = .ok (.declarations "dump".toList) := by decide +kernel
  have output : reportOn opened listed =
      { exit := 0, output := "\\p \t\"x y\"\n\tb\n".toList } := by decide +kernel
  have output' : reportOn opened dumped = { exit := 0, output := "!\t8\td[7:0]\n".toList } := by
    decide +kernel
  have ended : (reportOn opened listed).exit = 0 := by rw [output]
  have ended' : (reportOn opened dumped).exit = 0 := by rw [output']
  obtain ⟨entries, extracts, -, readBack, -⟩ :=
    lines_tell_entries parse opened listed _ asked rfl ended
  obtain ⟨entries', extracts', -, -, declares, -⟩ :=
    lines_tell_entries parse opened dumped _ asked' rfl ended'
  exact ⟨⟨entries, extracts, by rw [output], readBack⟩, entries', extracts', by rw [output'],
    declares ⟨_, rfl⟩⟩

/-- A line feed that ends an escaped name is taken for the end of its line, and a tab in a string for
    the end of a field. -/
theorem lines_not_told_apart :
    let listed := ["whitelist".toList, "keys".toList]
    let opened : Text → Opened := fun _ => .ok [.chunk "\\a\nb".toUTF8.data]
    let connected := ["connections".toList, "\"a\tb\"".toList]
    ((reportOn opened listed).exit = 0 ∧
      Extracts (opened "keys".toList) (.whitelist "keys".toList) [["\\a\n".toList], [['b']]] ∧
      rows (reportOn opened listed).output = [["\\a".toList], [[]], [['b']]]) ∧
    (reportOn opened connected).exit = 0 ∧
      Extracts (opened []) (.connections "\"a\tb\"".toList) [[[], "\"a\tb\"".toList]] ∧
      rows (reportOn opened connected).output = [[[], "\"a".toList, "b\"".toList]] := by
  intro listed opened connected
  refine ⟨⟨by decide +kernel, ?_, by decide +kernel⟩, by decide +kernel, ?_, by decide +kernel⟩
  · have given : (opened "keys".toList).source "keys".toList =
        .ok [.chunk "\\a\nb".toUTF8.data] := rfl
    have scanned : Signal.keys [.chunk "\\a\nb".toUTF8.data] = .ok ["\\a\n".toList, ['b']] := by
      decide +kernel
    exact .whitelist given scanned
  · have read : Association.scanConnections "\"a\tb\"".toList =
        .ok [.positional (.literal (.string "a\tb".toList))] [] := by rfl
    exact .connections read

end Command

end NetTrace
