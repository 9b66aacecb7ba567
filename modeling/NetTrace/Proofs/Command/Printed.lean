import NetTrace.Command
import NetTrace.Proofs.Netlist.RoundTrip

namespace NetTrace.Command

open Netlist Scan

def text? : Command → Option Text
  | lex _ text | connections text | parameters text | literal text => some text
  | _ => none

def entry (pin? : Option Text) (text : Text) : Text := pin?.getD [] ++ '\t' :: text ++ ['\n']

/-- What there is to print for the text of a command: the token and the rest; an entry for every leaf
    of every connection; an entry for every parameter; a string, or a number that is not too large. -/
inductive Prints : Command → Text → Prop
  | lex {phrase text reading rest} : phrase.read text = .ok reading rest →
      Prints (.lex phrase text) ("token: ".toList ++ reading.render ++ "\nrest:  ".toList ++
        rest.dropWhile Text.isBlank ++ ['\n'])
  | connections {text items rest} : Association.scanConnections text = .ok items rest →
      Prints (.connections text) (items.flatMap fun item =>
        item.value.leaves.flatMap fun leaf => entry item.pin? leaf.render)
  | parameters {text block rest} : ParameterBlock.scan text = .ok block rest →
      Prints (.parameters text) (block.content.flatMap fun item =>
        entry item.pin? item.value.render)
  | string {text body rest} : Literal.scan text = .ok (.string body) rest →
      Prints (.literal text) ("string\t\"".toList ++ body ++ "\"\n".toList)
  | unsized {text digits rest} : Literal.scan text = .ok (.unsized digits) rest →
      Numeral.value 10 digits < 2 ^ 64 →
      Prints (.literal text) ("32\t".toList ++ Numeral.decimal (Numeral.value 10 digits) ++ ['\n'])
  | sized {text width radix digits rest} : Literal.scan text = .ok (.sized width radix digits) rest →
      Numeral.value 10 width < 2 ^ 32 → Numeral.value radix.base digits < 2 ^ 64 →
      Prints (.literal text) (Numeral.decimal (Numeral.value 10 width) ++ '\t' ::
        Numeral.decimal (Numeral.value radix.base digits) ++ ['\n'])

variable {text rest output : Text} {command : Command} {phrase : Phrase} {reading : Reading}
  {opened : Opened}

theorem line_pair (left right : Text) : line [left, right] = left ++ '\t' :: right := by
  simp [line, List.intercalate]

theorem success_pair (left right : Text) :
    Report.success [line [left, right]] = { exit := 0, output := left ++ '\t' :: right ++ ['\n'] } := by
  rw [Report.success, List.flatMap_singleton, line_pair]

section Tokens

theorem onToken_eq {lines : Text → Except Violation (Except Failure (List Text))}
    (run : phrase.read text = .ok reading rest) :
    onToken phrase text lines = report (lines reading.render) := by
  have lexed : (Rule.netlist phrase).lex text = .ok (_, reading.render) :=
    Rule.lex_iff_read.mpr ⟨rest, map_ok _ run, rfl⟩
  simp only [onToken, lexed]

theorem read_or_refused (phrase : Phrase) (text : Text) :
    (∃ reading rest, phrase.read text = .ok reading rest) ∨
      ∃ failure, (Rule.netlist phrase).lex text = .error failure := by
  cases lexed : (Rule.netlist phrase).lex text with
  | error failure => exact .inr ⟨failure, rfl⟩
  | ok found =>
    obtain ⟨left, run, -⟩ := Rule.lex_iff_read.mp lexed
    obtain ⟨reading, read, -⟩ := map_eq_ok.mp run
    exact .inl ⟨reading, left, read⟩

theorem takenApart_of_read (run : phrase.read text = .ok reading rest) :
    phrase.TakenApart reading := by
  obtain ⟨spelling, blanks, -, -, derives⟩ := reads_phrase phrase run
  exact takenApart_of_derives derives

end Tokens

section Lists

theorem success_connections (found : List Connection) :
    Report.success (found.map connectionLine) =
      { exit := 0, output := found.flatMap (fun item => entry item.pin item.element) } := by
  simp only [Report.success, List.flatMap_map, connectionLine, line_pair, entry, Connection.pinText]

theorem run_connections {items : List (Association Operand)}
    (read : Association.scanConnections text = .ok items rest) :
    (connections text).run opened =
      { exit := 0
        output := items.flatMap (fun item =>
          item.value.leaves.flatMap (fun leaf => entry item.pin? leaf.render)) } := by
  have run : Phrase.connectionList.read text = .ok (.connections items) rest := map_ok _ read
  have apart : Token.connections (Reading.connections items).render =
      .ok (items.flatMap Token.ofLeaves) := takenApart_of_read run
  rw [Command.run, onToken_eq run, apart]
  refine (success_connections _).trans ?_
  simp only [List.flatMap_assoc, Token.ofLeaves, List.flatMap_map]

theorem run_parameters {block : ParameterBlock} (read : ParameterBlock.scan text = .ok block rest) :
    (parameters text).run opened =
      { exit := 0, output := block.content.flatMap (fun item => entry item.pin? item.value.render) } := by
  have run : Phrase.moduleParameters.read text = .ok (.block block) rest := map_ok _ read
  have apart : Token.blockParameters (Reading.block block).render =
      .ok (block.content.map (Token.ofAssociation Setting.render)) := takenApart_of_read run
  rw [Command.run, onToken_eq run, apart]
  refine (success_connections _).trans ?_
  simp only [List.flatMap_map, Token.ofAssociation]

end Lists

section Literals

theorem run_string {body : Text} (read : Literal.scan text = .ok (.string body) rest) :
    (literal text).run opened =
      { exit := 0, output := "string\t\"".toList ++ body ++ "\"\n".toList } := by
  have run : Phrase.immediate.read text = .ok (.literal (.string body)) rest := map_ok _ read
  rw [Command.run, onToken_eq run]
  show Report.success [line ["string".toList, '"' :: body ++ ['"']]] = _
  rw [success_pair]
  simp

/-- A number starts with a digit, so that its token is not taken for a string. -/
theorem run_number {value : Literal} (read : Literal.scan text = .ok value rest)
    (number : ∀ body, value ≠ .string body) :
    (literal text).run opened = report ((fun found => found.map fun number =>
      [line [Numeral.decimal number.width.toNat, Numeral.decimal number.value.toNat]]) <$>
        value.numericValue value.render) := by
  have run : Phrase.immediate.read text = .ok (.literal value) rest := map_ok _ read
  obtain ⟨spelling, blanks, -, -, spells⟩ := reads_literal read
  have other : value.render.head? ≠ some '"' := by
    cases spells with
    | @unsized digits _ isRun =>
      have other := isRun.head_ne []
      rwa [List.append_nil] at other
    | sized isRun => exact isRun.head_ne _
    | string => exact absurd rfl (number _)
  rw [Command.run, onToken_eq run, Reading.render, literalLine, if_neg other,
    numericValue_render spells]
  rfl

theorem run_unsized {digits : Text} (read : Literal.scan text = .ok (.unsized digits) rest) :
    (literal text).run opened = if Numeral.value 10 digits < 2 ^ 64
      then { exit := 0
             output := "32\t".toList ++ Numeral.decimal (Numeral.value 10 digits) ++ ['\n'] }
      else .failed { cause := .overflow (Text.trim digits) 64 } := by
  rw [run_number read (by simp), Literal.numericValue]
  rcases Numeral.word64?_cases 10 digits with ⟨fits, value, found, same⟩ | ⟨large, found⟩
  · rw [found, if_pos fits, ← same]
    refine (success_pair (Numeral.decimal NumericValue.defaultWidth.toNat) _).trans ?_
    rw [show Numeral.decimal NumericValue.defaultWidth.toNat = "32".toList from by decide]
    rfl
  · rw [found, if_neg large]
    rfl

theorem run_sized {width digits : Text} {radix : Radix}
    (read : Literal.scan text = .ok (.sized width radix digits) rest) :
    (literal text).run opened =
      if Numeral.value 10 width < 2 ^ 32 ∧ Numeral.value radix.base digits < 2 ^ 64
      then { exit := 0
             output := Numeral.decimal (Numeral.value 10 width) ++ '\t' ::
               Numeral.decimal (Numeral.value radix.base digits) ++ ['\n'] }
      else .failed { cause := .overflow (Text.trim (Literal.sized width radix digits).render)
                       (if Numeral.value 10 width < 2 ^ 32 then 64 else 32) } := by
  rw [run_number read (by simp), Literal.numericValue]
  rcases Numeral.word32?_cases 10 width with ⟨fits, bits, found, same⟩ | ⟨large, found⟩
  · rcases Numeral.word64?_cases radix.base digits with ⟨fits', value, found', same'⟩ | ⟨large, found'⟩
    · rw [found, found', if_pos ⟨fits, fits'⟩, ← same, ← same']
      exact success_pair _ _
    · rw [found, found', if_neg fun both => large both.2, if_pos fits]
      rfl
  · rw [found, if_neg fun both => large both.1, if_neg large]
    rfl

end Literals

section Commands

theorem run_of_prints (prints : command.Prints output) :
    command.run opened = { exit := 0, output } := by
  cases prints with
  | @lex phrase text reading rest read =>
    have lexed : (Rule.netlist phrase).lex text =
        .ok (rest.dropWhile Text.isBlank, reading.render) := Rule.lex_iff_read.mpr ⟨rest, map_ok _ read, rfl⟩
    simp [Command.run, lexed, Report.success]
  | connections read => exact run_connections read
  | parameters read => exact run_parameters read
  | string read => exact run_string read
  | unsized read fits => rw [run_unsized read, if_pos fits]
  | sized read fits fits' => rw [run_sized read, if_pos ⟨fits, fits'⟩]

theorem prints_or_failed (opened : Opened) (given : command.text? = some text) :
    (∃ output, command.Prints output) ∨ ∃ failure, command.run opened = .failed failure := by
  cases command with
  | lex phrase text =>
    rcases read_or_refused phrase text with ⟨reading, rest, read⟩ | ⟨failure, refused⟩
    · exact .inl ⟨_, .lex read⟩
    · exact .inr ⟨failure, by rw [Command.run, refused]⟩
  | connections text =>
    rcases read_or_refused .connectionList text with ⟨reading, rest, run⟩ | ⟨failure, refused⟩
    · obtain ⟨items, read, -⟩ := map_eq_ok.mp run
      exact .inl ⟨_, .connections read⟩
    · exact .inr ⟨failure, by rw [Command.run, onToken, refused]⟩
  | parameters text =>
    rcases read_or_refused .moduleParameters text with ⟨reading, rest, run⟩ | ⟨failure, refused⟩
    · obtain ⟨block, read, -⟩ := map_eq_ok.mp run
      exact .inl ⟨_, .parameters read⟩
    · exact .inr ⟨failure, by rw [Command.run, onToken, refused]⟩
  | literal text =>
    rcases read_or_refused .immediate text with ⟨reading, rest, run⟩ | ⟨failure, refused⟩
    · obtain ⟨value, read, -⟩ := map_eq_ok.mp run
      cases value with
      | string body => exact .inl ⟨_, .string read⟩
      | unsized digits =>
        by_cases fits : Numeral.value 10 digits < 2 ^ 64
        · exact .inl ⟨_, .unsized read fits⟩
        · exact .inr ⟨_, by rw [run_unsized read, if_neg fits]⟩
      | sized width radix digits =>
        by_cases fits : Numeral.value 10 width < 2 ^ 32 ∧ Numeral.value radix.base digits < 2 ^ 64
        · exact .inl ⟨_, .sized read fits.1 fits.2⟩
        · exact .inr ⟨_, by rw [run_sized read, if_neg fits]⟩
    · exact .inr ⟨failure, by rw [Command.run, onToken, refused]⟩
  | version | whitelist | declarations => contradiction

theorem exit_report_ne (found : Except Failure (List Text)) : (report (.ok found)).exit ≠ 101 := by
  cases found with
  | ok lines => exact show (0 : UInt8) ≠ 101 by decide
  | error failure => exact show (1 : UInt8) ≠ 101 by decide

theorem exit_run_ne (opened : Opened) (command : Command) : (command.run opened).exit ≠ 101 := by
  cases given : command.text? with
  | some text =>
    rcases prints_or_failed opened given with ⟨output, prints⟩ | ⟨failure, failed⟩
    · rw [run_of_prints prints]
      exact show (0 : UInt8) ≠ 101 by decide
    · rw [failed]
      exact show (1 : UInt8) ≠ 101 by decide
  | none =>
    cases command with
    | version => exact show (0 : UInt8) ≠ 101 by decide
    | whitelist path => exact exit_report_ne _
    | declarations path => exact exit_report_ne _
    | lex | connections | parameters | literal => contradiction

end Commands

/-- No arguments make the program hand on what is not a token, nor does any command, however the
    arguments are read. A command that is given a text ends well where there is something to print
    for that text, and prints it; where there is not, it ends with one and prints nothing. -/
theorem prints_as_read (parse : List Text → Except Report Command) (opened : Text → Opened)
    (arguments : List Text) :
    (reportOn opened arguments).exit ≠ 101 ∧
    ∀ command, parse arguments = .ok command →
      (reportWith parse opened arguments).exit ≠ 101 ∧
      ∀ text, command.text? = some text →
        ((reportWith parse opened arguments).exit = 0 ↔ ∃ output, command.Prints output) ∧
        (∀ output, command.Prints output → (reportWith parse opened arguments).output = output) ∧
        ((¬ ∃ output, command.Prints output) →
          (reportWith parse opened arguments).exit = 1 ∧
            (reportWith parse opened arguments).output = []) := by
  constructor
  · rw [reportOn, reportWith, Command.parse]
    cases ofArguments? arguments with
    | none => exact show (2 : UInt8) ≠ 101 by decide
    | some command => exact exit_run_ne _ command
  · intro command asked
    have reported : reportWith parse opened arguments =
        command.run (opened (command.path?.getD [])) := by
      rw [reportWith, asked]
    rw [reported]
    refine ⟨exit_run_ne _ command, fun text given => ?_⟩
    refine ⟨⟨fun ended => ?_, fun ⟨output, prints⟩ => by rw [run_of_prints prints]⟩,
      fun output prints => by rw [run_of_prints prints], fun absent => ?_⟩
    · rcases prints_or_failed (opened (command.path?.getD [])) given with
        prints | ⟨failure, failed⟩
      · exact prints
      · rw [failed] at ended
        exact absurd ended (show (1 : UInt8) ≠ 0 by decide)
    · rcases prints_or_failed (opened (command.path?.getD [])) given with
        prints | ⟨failure, failed⟩
      · exact absurd prints absent
      · rw [failed]
        exact ⟨rfl, rfl⟩

theorem prints_as_read_leaves :
    let listed := ["connections".toList, " .A( \x7bx ,y[03:3]\x7d ), 7;".toList]
    let wide := ["literal".toList, "--".toList, "4294967296'h0".toList]
    ((reportOn (fun _ => .ok []) listed).exit = 0 ∧
      (reportOn (fun _ => .ok []) listed).output = "A\tx\nA\ty[3]\n\t7\n".toList) ∧
    (reportOn (fun _ => .ok []) wide).exit = 1 ∧ (reportOn (fun _ => .ok []) wide).output = [] := by
  intro listed wide
  have asked : Command.parse listed = .ok (.connections " .A( \x7bx ,y[03:3]\x7d ), 7;".toList) := by
    decide +kernel
  have asked' : Command.parse wide = .ok (.literal "4294967296'h0".toList) := by decide +kernel
  have read : Association.scanConnections " .A( \x7bx ,y[03:3]\x7d ), 7;".toList =
      .ok [.named ['A'] ⟨1, .concatenation [.net ⟨['x'], none⟩, .net ⟨['y'], some ⟨3, 3⟩⟩]⟩,
        .positional (.literal (.unsized ['7']))] ";".toList := by rfl
  have read' : Literal.scan "4294967296'h0".toList =
      .ok (.sized "4294967296".toList .hex ['0']) [] := by rfl
  obtain ⟨ended, printed, -⟩ :=
    ((prints_as_read Command.parse (fun _ => .ok []) listed).2 _ asked).2 _ rfl
  obtain ⟨-, -, failed⟩ := ((prints_as_read Command.parse (fun _ => .ok []) wide).2 _ asked').2 _ rfl
  have prints := Prints.connections read
  refine ⟨⟨ended.mpr ⟨_, prints⟩, (printed _ prints).trans ?_⟩, failed ?_⟩
  · decide +kernel
  · rintro ⟨output, prints⟩
    cases prints with
    | string read => cases (EStateM.Result.ok.inj (read'.symm.trans read)).1
    | unsized read => cases (EStateM.Result.ok.inj (read'.symm.trans read)).1
    | sized read fits =>
      obtain ⟨rfl, -, -⟩ := Literal.sized.inj (EStateM.Result.ok.inj (read'.symm.trans read)).1
      revert fits
      decide

end NetTrace.Command
