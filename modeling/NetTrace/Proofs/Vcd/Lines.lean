import NetTrace.Proofs.Lexing.Exhaust
import NetTrace.Proofs.Vcd.Decoding

namespace NetTrace

namespace Text

def lines (text : Text) : List Text := if text = [] then [] else text.splitOn '\n'

theorem intercalate_ne_nil {c : Char} {list : List Text} (some : list ≠ [])
    (each : ∀ line ∈ list, line ≠ []) : List.intercalate [c] list ≠ [] := by
  obtain ⟨line, others, rfl⟩ := List.exists_cons_of_ne_nil some
  have first := each line (List.mem_cons_self ..)
  cases others with
  | nil => simpa [List.intercalate] using first
  | cons next others => simp [List.intercalate]

theorem lines_joined {list : List Text} (each : ∀ line ∈ list, line ≠ [] ∧ '\n' ∉ line) :
    lines (List.intercalate ['\n'] list) = list := by
  by_cases none : list = []
  · subst none
    rfl
  · rw [lines, if_neg (intercalate_ne_nil none fun line member => (each line member).1)]
    exact List.splitOn_intercalate '\n' (fun line member => (each line member).2) none

variable {left right word : Text}

theorem IsWord.one_line (isWord : IsWord word) : '\n' ∉ word := by
  intro member
  have visible := isWord.2 _ member
  contradiction

theorem one_line_append (hl : '\n' ∉ left) (hr : '\n' ∉ right) : '\n' ∉ left ++ ' ' :: right := by
  simp [hl, hr]

theorem one_line_joined {list : List Text} (all : ∀ word ∈ list, IsWord word) :
    '\n' ∉ List.intercalate [' '] list := by
  induction list with
  | nil => exact List.not_mem_nil
  | cons word list ih =>
    obtain ⟨isWord, all⟩ := List.forall_mem_cons.mp all
    cases list with
    | nil => simpa [List.intercalate] using isWord.one_line
    | cons next others => exact one_line_append isWord.one_line (ih all)

end Text

namespace Vcd

open Scan Text

variable {text rest token value : Text} {words others : List Text} {change : ValueChange}
  {keywords : List Text} {phrase : Phrase} {grammar : WordGrammar Text}

section Lines

theorem CommandOf.one_line (all : ∀ word ∈ words, IsWord word)
    (reads : CommandOf keywords words value others) : '\n' ∉ value := by
  obtain ⟨keyword, body, -, -, rfl, rfl⟩ := reads
  exact one_line_joined fun word member => all word (List.mem_append_left _ member)

theorem ValueChange.Legal.one_line (legal : change.Legal) : '\n' ∉ change.render := by
  cases change with
  | scalar value code =>
    have isWord : IsWord (value :: code) := isWord_cons (visible_of_isBit legal.1) legal.2.2
    exact isWord.one_line
  | vector bits code =>
    have isWord : IsWord ('b' :: bits) :=
      isWord_cons rfl fun c member => visible_of_isBit (legal.1.2 c member)
    exact one_line_append isWord.one_line legal.2.one_line
  | real number code =>
    have isWord : IsWord ('r' :: number.render) := isWord_cons rfl number.visible_render
    exact one_line_append isWord.one_line legal.2.one_line

theorem Values.one_line (all : ∀ word ∈ words, IsWord word) (reads : Values words value others) :
    '\n' ∉ value := by
  obtain ⟨keyword, middle, changes, rfl, -, many, rfl⟩ := reads
  obtain ⟨isWord, all⟩ := List.forall_mem_cons.mp all
  have legal : ∀ change ∈ changes, change.Legal := many.each byWords_change Change.legal all
  have tag : IsWord Word.endTag := by decide
  refine one_line_append ?_ tag.one_line
  rw [List.mem_append, List.mem_flatMap]
  intro member
  rcases member with inside | ⟨change, among, inside⟩
  · exact isWord.one_line inside
  · exact one_line_append List.not_mem_nil (legal change among).one_line inside

theorem Simulation.one_line (all : ∀ word ∈ words, IsWord word)
    (reads : Simulation words value others) : '\n' ∉ value := by
  rcases reads with ((⟨change, reads, rfl⟩ | time) | values) | comment
  · exact (reads.legal all).one_line
  · obtain ⟨front, _, _, -, marked, -, -⟩ := time
    rw [marked.1]
    exact (marked.isWord rfl visible_of_isDigit).one_line
  · exact values.one_line all
  · exact comment.one_line all

end Lines

section Commands

def Commands (text : Text) (header body : List Text) (rest : Text) : Prop :=
  ∃ middle, Rule.Exhausts (.vcd .declarationCommand) text header middle ∧
    Rule.Exhausts (.vcd .simulationCommand) middle body rest

variable {header body : List Text}

theorem Commands.unique (commands : Commands text header body rest) {header' body' : List Text}
    {rest' : Text} (commands' : Commands text header' body' rest') :
    header' = header ∧ body' = body ∧ rest' = rest := by
  obtain ⟨middle, first, second⟩ := commands
  obtain ⟨middle', first', second'⟩ := commands'
  obtain ⟨rfl, rfl⟩ := first.unique first'
  exact ⟨rfl, second.unique second'⟩

theorem Commands.settled (commands : Commands text header body rest) (some : header ++ body ≠ []) :
    rest.dropWhile isBlank = rest := by
  obtain ⟨middle, first, second⟩ := commands
  apply second.settled
  by_cases none : body = []
  · rw [none, List.append_nil] at some
    exact .inr (first.settled (.inl some))
  · exact .inl none

theorem line_of_exhausts {tokens : List Text} (exhausts : Rule.Exhausts (.vcd phrase) text tokens rest)
    (reads : ByWords phrase.read grammar) (passes : Passes 1 phrase.read)
    (one_line : ∀ {words value others}, (∀ word ∈ words, IsWord word) →
      grammar words value others → '\n' ∉ value) : ∀ token ∈ tokens,
      (token ≠ [] ∧ '\n' ∉ token) ∧ Rule.lex (.vcd phrase) token = .ok ([], token) := by
  intro token member
  obtain ⟨before, after, lexed⟩ := exhausts.lexed token member
  obtain ⟨left, run, -⟩ := Rule.lex_iff_read.mp lexed
  have again := phrase.readsAll_token run
  refine ⟨⟨?_, one_line (fun word member => isWord_of_mem_words member) (reads.words run)⟩, again.lex⟩
  obtain ⟨_, run', -⟩ := again
  have shorter := passes.length run'
  intro none
  simp only [none, List.length_nil] at shorter
  omega

theorem byWords_header : ByWords (Rule.read (.vcd .declarationCommand))
    (CommandOf Command.declarationKeywords) := byWords_declaration

theorem byWords_body : ByWords (Rule.read (.vcd .simulationCommand)) Simulation := byWords_simulation

theorem exists_commands (text : Text) : ∃ header body rest, Commands text header body rest ∧
    Rule.lex (.vcd .vcdDefinitions) text =
      .ok (rest.dropWhile isBlank, List.intercalate ['\n'] (header ++ body)) := by
  obtain ⟨header, middle, left, first, run, alike⟩ :=
    Rule.exists_collected byWords_header passes_declaration (.refl text)
  obtain ⟨body, rest, left', second, run', alike'⟩ :=
    Rule.exists_collected byWords_body passes_simulation alike
  have all : Command.scanAll text = .ok (List.intercalate ['\n'] (header ++ body)) left' :=
    phrase_eq_ok.mpr (bind_eq_ok.mpr ⟨header, left, run, bind_eq_ok.mpr ⟨body, left', run', rfl⟩⟩)
  exact ⟨header, body, rest, ⟨middle, first, second⟩, Rule.lex_iff_read.mpr ⟨left', all, alike'⟩⟩

/-- Every text is lexed as definitions. Their lines are the commands that are lexed one after the
    other, first those of the header and then those of the body, and each line is lexed as itself.
    What is left is left by the commands too, and no command of the body starts there; only where
    there is no command at all the definitions pass the blanks in front. -/
theorem definitions_are_commands (text : Text) : ∃ header body rest token,
    (∀ header' body' rest', Commands text header' body' rest' ↔
      header' = header ∧ body' = body ∧ rest' = rest) ∧
    Rule.lex (.vcd .vcdDefinitions) text = .ok (rest.dropWhile isBlank, token) ∧
    (header ++ body ≠ [] → rest.dropWhile isBlank = rest) ∧
    (∃ failure, Rule.lex (.vcd .simulationCommand) (rest.dropWhile isBlank) = .error failure) ∧
    token.lines = header ++ body ∧ (∀ command ∈ header ++ body, '\n' ∉ command) ∧
    (∀ command ∈ header, Rule.lex (.vcd .declarationCommand) command = .ok ([], command)) ∧
    ∀ command ∈ body, Rule.lex (.vcd .simulationCommand) command = .ok ([], command) := by
  obtain ⟨header, body, rest, commands, lexed⟩ := exists_commands text
  have division := commands
  obtain ⟨middle, first, second⟩ := division
  have ofHeader := line_of_exhausts first byWords_declaration passes_declaration CommandOf.one_line
  have ofBody := line_of_exhausts second byWords_simulation passes_simulation Simulation.one_line
  have each : ∀ command ∈ header ++ body, command ≠ [] ∧ '\n' ∉ command := by
    intro command member
    rcases List.mem_append.mp member with member | member
    · exact (ofHeader command member).1
    · exact (ofBody command member).1
  refine ⟨header, body, rest, _, fun header' body' rest' => ⟨commands.unique, ?same⟩, lexed,
    commands.settled, ?refused, lines_joined each, fun command member => (each command member).2,
    fun command member => (ofHeader command member).2, fun command member => (ofBody command member).2⟩
  case same =>
    rintro ⟨rfl, rfl, rfl⟩
    exact commands
  case refused =>
    have passes := passes_simulation.mono (Nat.zero_le 1)
    exact (Rule.refused_dropWhile byWords_body passes).mpr second.refused

theorem definitions_are_commands_comments :
    let text := "$comment a\n$end #5 1! $comment b $end $dumpvars 0!".toList
    let header := ["$comment a $end".toList]
    let body := ["#5".toList, "1!".toList, "$comment b $end".toList]
    Commands text header body "$dumpvars 0!".toList ∧ ∃ token, token.lines = header ++ body ∧
      Rule.lex (.vcd .vcdDefinitions) text = .ok ("$dumpvars 0!".toList, token) := by
  intro text header body
  have first : Rule.lex (.vcd .declarationCommand) text =
      .ok ("#5 1! $comment b $end $dumpvars 0!".toList, "$comment a $end".toList) := by
    decide +kernel
  have time : Rule.lex (.vcd .simulationCommand) "#5 1! $comment b $end $dumpvars 0!".toList =
      .ok ("1! $comment b $end $dumpvars 0!".toList, "#5".toList) := by
    decide +kernel
  have change : Rule.lex (.vcd .simulationCommand) "1! $comment b $end $dumpvars 0!".toList =
      .ok ("$comment b $end $dumpvars 0!".toList, "1!".toList) := by
    decide +kernel
  have comment : Rule.lex (.vcd .simulationCommand) "$comment b $end $dumpvars 0!".toList =
      .ok ("$dumpvars 0!".toList, "$comment b $end".toList) := by
    decide +kernel
  obtain ⟨_, stop⟩ := Rule.refused_of_isOk (show (Rule.lex (.vcd .declarationCommand)
    "#5 1! $comment b $end $dumpvars 0!".toList).isOk = false by decide +kernel)
  obtain ⟨_, stop'⟩ := Rule.refused_of_isOk (show (Rule.lex (.vcd .simulationCommand)
    "$dumpvars 0!".toList).isOk = false by decide +kernel)
  have commands : Commands text header body "$dumpvars 0!".toList :=
    ⟨_, .more first (.stop stop), .more time (.more change (.more comment (.stop stop')))⟩
  obtain ⟨_, _, _, token, unique, lexed, settled, -, lines, -⟩ := definitions_are_commands text
  obtain ⟨rfl, rfl, rfl⟩ := (unique _ _ _).mp commands
  rw [settled (by decide)] at lexed
  exact ⟨commands, token, lines, lexed⟩

/-- A text that starts with no command is left by the definitions without the blanks in front of it,
    and by the commands with them. -/
theorem definitions_pass_blanks :
    Commands " x".toList [] [] " x".toList ∧
      Rule.lex (.vcd .vcdDefinitions) " x".toList = .ok ("x".toList, []) ∧
      "x".toList ≠ " x".toList := by
  obtain ⟨_, stop⟩ := Rule.refused_of_isOk
    (show (Rule.lex (.vcd .declarationCommand) " x".toList).isOk = false by decide +kernel)
  obtain ⟨_, stop'⟩ := Rule.refused_of_isOk
    (show (Rule.lex (.vcd .simulationCommand) " x".toList).isOk = false by decide +kernel)
  exact ⟨⟨_, .stop stop, .stop stop'⟩, by decide +kernel, by decide⟩

end Commands

end Vcd

end NetTrace
