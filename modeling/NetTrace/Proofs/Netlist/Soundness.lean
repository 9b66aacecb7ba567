import NetTrace.Proofs.Netlist.Lexemes
import NetTrace.Proofs.Netlist.Groups

namespace NetTrace

open Text (Blanks Lexeme)

/-- What is passed on success spells the value that is given, up to the blanks after it. -/
def Scan.Reads {α : Type} (scan : Scan Text α) (spelled : α → Text → Prop) : Prop :=
  ∀ ⦃text value rest⦄, scan text = .ok value rest →
    ∃ front blanks, text = front ++ (blanks ++ rest) ∧ Blanks blanks ∧ spelled value front

namespace Scan.Reads

variable {α β : Type} {scan : Scan Text α} {spelled : α → Text → Prop}

theorem phrase (name : String) (reads : Reads scan spelled) : Reads (Scan.phrase name scan) spelled :=
  fun _ _ _ runs => reads (phrase_eq_ok.mp runs)

theorem map (f : α → β) {spelled' : β → Text → Prop} (reads : Reads scan spelled)
    (same : ∀ value text, spelled value text → spelled' (f value) text) :
    Reads (f <$> scan) spelled' := by
  intro text value rest runs
  obtain ⟨found, run, rfl⟩ := map_eq_ok.mp runs
  obtain ⟨front, blanks, whole, blank, spells⟩ := reads run
  exact ⟨front, blanks, whole, blank, same _ _ spells⟩

theorem passes {count : Nat} (reads : Reads scan spelled)
    (long : ∀ value text, spelled value text → count ≤ text.length) : Passes count scan := by
  intro text value rest runs
  obtain ⟨front, blanks, rfl, -, spells⟩ := reads runs
  have enough := long _ _ spells
  refine ⟨front ++ blanks, (List.append_assoc ..).symm, ?_⟩
  rw [List.length_append]
  omega

theorem of_exact (exact : ∀ ⦃text value rest⦄, scan text = .ok value rest →
    ∃ front, text = front ++ rest ∧ spelled value front) : Reads scan spelled := by
  intro text value rest runs
  obtain ⟨front, whole, spells⟩ := exact runs
  exact ⟨front, [], whole, .nil, spells⟩

end Scan.Reads

namespace Netlist

open Scan

theorem Padded.reads_after {α : Type} {spelled : α → Text → Prop} (padded : Padded spelled)
    {text rest : Text} {value : α}
    (reads : ∃ front blanks, text.dropWhile Text.isBlank = front ++ (blanks ++ rest) ∧
      Blanks blanks ∧ spelled value front) :
    ∃ front blanks, text = front ++ (blanks ++ rest) ∧ Blanks blanks ∧ spelled value front := by
  obtain ⟨front, blanks, same, blank, spells⟩ := reads
  refine ⟨text.takeWhile Text.isBlank ++ front, blanks, ?_, blank,
    padded (Text.blanks_takeWhile text) spells⟩
  rw [List.append_assoc, ← same, List.takeWhile_append_dropWhile]

theorem reads_simple :
    Reads Name.simple fun name text => SimpleName name ∧ Lexeme name text := by
  refine .of_exact fun text name rest runs => ?_
  obtain ⟨seen, simple, -⟩ := simple_eq_ok.mp runs
  obtain ⟨front, whole, lexeme⟩ := Text.lexeme_after seen
  exact ⟨front, whole, simple, lexeme⟩

theorem reads_escaped :
    Reads Name.escaped fun name text => EscapedName name ∧ Lexeme name text := by
  refine .of_exact fun text name rest runs => ?_
  obtain ⟨seen, escaped⟩ := escaped_eq_ok.mp runs
  obtain ⟨front, whole, lexeme⟩ := Text.lexeme_after seen
  exact ⟨front, whole, escaped, lexeme⟩

theorem reads_name : Reads Name.scan Name.Spelled := by
  refine .of_exact fun text name rest runs => ?_
  obtain ⟨seen, kind⟩ := name_eq_ok.mp runs
  obtain ⟨front, whole, lexeme⟩ := Text.lexeme_after seen
  exact ⟨front, whole, kind.imp And.left id, lexeme⟩

theorem reads_digits :
    Reads Literal.scanDigits fun digits text => DigitRun Char.isDigit digits ∧ Lexeme digits text := by
  refine .of_exact fun text digits rest runs => ?_
  obtain ⟨seen, run, -⟩ := digits_eq_ok.mp runs
  obtain ⟨front, whole, lexeme⟩ := Text.lexeme_after seen
  exact ⟨front, whole, run, lexeme⟩

theorem reads_sized (radix : Radix) : Reads (Literal.scanSized radix) fun value text =>
    (∃ width digits, value = .sized width radix digits) ∧ Literal.Spelled value text := by
  refine .of_exact fun text value rest runs => ?_
  obtain ⟨width, digits, middle, rfl, seen, run, -, tick, run', -⟩ := sized_eq_ok.mp runs
  obtain ⟨front, rfl, lexeme⟩ := Text.lexeme_after seen
  rw [← radix.letter_eq] at tick
  obtain ⟨front', rfl, lexeme'⟩ := Text.lexeme_after tick
  exact ⟨front ++ front', (List.append_assoc ..).symm, ⟨width, digits, rfl⟩,
    .sized run lexeme run'.figures lexeme'⟩

theorem reads_string : Reads Literal.scanString fun value text =>
    (∃ body, value = .string body) ∧ Literal.Spelled value text := by
  refine .of_exact fun text value rest runs => ?_
  obtain ⟨body, rfl, seen, all⟩ := string_eq_ok.mp runs
  rw [List.append_cons _ _ rest] at seen
  obtain ⟨front, whole, lexeme⟩ := Text.lexeme_after seen
  exact ⟨front, whole, ⟨body, rfl⟩, .string all lexeme⟩

theorem reads_literal : Reads Literal.scan Literal.Spelled := by
  intro text value rest runs
  rcases literal_eq_ok.mp runs with runs | runs
  · obtain ⟨front, blanks, whole, blank, -, spells⟩ := reads_string runs
    exact ⟨front, blanks, whole, blank, spells⟩
  · rcases number_eq_ok.mp runs with ⟨radix, runs⟩ | ⟨digits, middle, rfl, run, -, rfl⟩
    · obtain ⟨front, blanks, whole, blank, -, spells⟩ := reads_sized radix runs
      exact ⟨front, blanks, whole, blank, spells⟩
    · obtain ⟨seen, digit, -⟩ := digits_eq_ok.mp run
      obtain ⟨front, rfl, lexeme⟩ := Text.lexeme_after seen
      refine ⟨front, middle.takeWhile Text.isBlank, ?_, Text.blanks_takeWhile middle,
        .unsized digit lexeme⟩
      rw [List.takeWhile_append_dropWhile]

theorem bound_of_taken {value : UInt32} {text rest : Text} (taken : Bound.Taken value text rest) :
    ∃ front, text = front ++ rest ∧ Bound value front := by
  obtain ⟨digits, run, fits⟩ := taken
  obtain ⟨seen, run, -⟩ := digits_eq_ok.mp run
  obtain ⟨front, whole, lexeme⟩ := Text.lexeme_after seen
  exact ⟨front, whole, digits, run, run.decimal_value_eq.symm.trans fits, lexeme⟩

theorem reads_bounds : Reads Bounds.scan Bounds.Spelled := by
  refine .of_exact fun text bounds rest runs => ?_
  obtain ⟨first, second⟩ := bounds
  obtain ⟨opened, middle, seen, taken, closing⟩ := bounds_eq_ok.mp runs
  obtain ⟨front, rfl, lexeme⟩ := @Text.lexeme_after _ ['['] _ seen
  obtain ⟨digits, rfl, bound⟩ := bound_of_taken taken
  rcases closing with ⟨seen', same⟩ | ⟨colon, last, seen', taken', seen''⟩
  · obtain rfl : second = first := same
    obtain ⟨back, rfl, lexeme'⟩ := @Text.lexeme_after _ [']'] _ seen'
    exact ⟨_, by simp only [List.append_assoc], .index lexeme bound lexeme'⟩
  · obtain ⟨mid, rfl, lexeme'⟩ := @Text.lexeme_after _ [':'] _ seen'
    obtain ⟨digits', rfl, bound'⟩ := bound_of_taken taken'
    obtain ⟨back, rfl, lexeme''⟩ := @Text.lexeme_after _ [']'] _ seen''
    exact ⟨_, by simp only [List.append_assoc], .range lexeme bound lexeme' bound' lexeme''⟩

theorem reads_selection : Reads Selection.scan Selection.Spelled := by
  intro text selection rest runs
  obtain ⟨name, middle, run, runs⟩ := bind_eq_ok.mp runs
  obtain ⟨found, left, run', runs⟩ := bind_eq_ok.mp runs
  cases runs
  obtain ⟨front, blanks, rfl, blank, named⟩ := reads_name run
  cases found with
  | none =>
    obtain ⟨rfl, -⟩ := optionally_eq_none.mp run'
    exact ⟨front, blanks, rfl, blank, .whole named⟩
  | some bounds =>
    obtain ⟨front', blanks', rfl, blank', spells⟩ := reads_bounds (optionally_eq_some.mp run')
    exact ⟨front ++ (blanks ++ front'), blanks', by simp only [List.append_assoc], blank',
      .part named (padded_bounds blank spells)⟩

theorem reads_items {α : Type} {item : Scan Text α} {spelled : α → Text → Prop}
    (reads : Reads item spelled) {limit : Nat} {value : α}
    {values : List α} {front blanks text rest : Text} (blank : Blanks blanks)
    (spells : spelled value front) (runs : collect limit (commaItem item) text = .ok values rest) :
    ∃ front' blanks', front ++ (blanks ++ text) = front' ++ (blanks' ++ rest) ∧ Blanks blanks' ∧
      Separated spelled (value :: values) front' := by
  induction limit generalizing value values front blanks text with
  | zero =>
    cases runs
    exact ⟨front, blanks, rfl, blank, .one spells⟩
  | succ limit ih =>
    obtain ⟨found, middle, run, runs⟩ := bind_eq_ok.mp runs
    simp only [commaItem, bind_facing, ite_eq_ok, bind_next, run_pure, EStateM.Result.ok.injEq,
      beq_iff_eq] at run
    rcases run with ⟨comma, run⟩ | ⟨-, rfl, rfl⟩
    · obtain ⟨next, left, run, same⟩ := bind_eq_ok.mp run
      cases same
      obtain ⟨others, last, run', same⟩ := bind_eq_ok.mp runs
      cases same
      obtain ⟨front₁, blanks₁, whole, blank₁, spells₁⟩ := reads run
      obtain ⟨front₂, blanks₂, whole', blank₂, spells₂⟩ := ih blank₁ spells₁ run'
      have seen : text.dropWhile Text.isBlank = [','] ++ (text.dropWhile Text.isBlank).tail :=
        List.eq_cons_of_mem_head? comma
      obtain ⟨front₃, same, lexeme⟩ := Text.lexeme_after seen
      refine ⟨front ++ (blanks ++ front₃) ++ front₂, blanks₂, ?_, blank₂,
        .more spells (lexeme.padded blank) spells₂⟩
      rw [same, whole, whole']
      simp only [List.append_assoc]
    · cases runs
      refine ⟨front, blanks ++ text.takeWhile Text.isBlank, ?_,
        blank.append (Text.blanks_takeWhile text), .one spells⟩
      rw [List.append_assoc, List.takeWhile_append_dropWhile]

theorem reads_commaListUpTo {α : Type} {item : Scan Text α} {spelled : α → Text → Prop}
    (reads : Reads item spelled) (limit : Nat) :
    Reads (commaListUpTo limit item) (Separated spelled) := by
  intro text values rest runs
  rw [commaListUpTo_eq] at runs
  obtain ⟨first, middle, run, runs⟩ := bind_eq_ok.mp runs
  obtain ⟨others, left, run', same⟩ := bind_eq_ok.mp runs
  cases same
  obtain ⟨front, blanks, rfl, blank, spells⟩ := reads run
  exact reads_items reads blank spells run'

theorem reads_commaList {α : Type} {item : Scan Text α} {spelled : α → Text → Prop}
    (reads : Reads item spelled) : Reads (commaList item) (Separated spelled) :=
  fun _ _ _ runs => reads_commaListUpTo reads _ runs

theorem Delimiters.padded {c : Char} {count : Nat} {blanks text : Text} (blank : Blanks blanks)
    (delimiters : Delimiters c (count + 1) text) : Delimiters c (count + 1) (blanks ++ text) := by
  cases delimiters with
  | more lexeme others =>
    rw [← List.append_assoc]
    exact .more (lexeme.padded blank) others

theorem Opened.delimiters {c : Char} {count : Nat} {text rest : Text}
    (opened : Opened c count text rest) :
    ∃ front blanks, text = front ++ (blanks ++ rest) ∧ Blanks blanks ∧ Delimiters c count front := by
  induction opened with
  | @none text other =>
    refine ⟨[], text.takeWhile Text.isBlank, ?_, Text.blanks_takeWhile text, .none⟩
    exact List.takeWhile_append_dropWhile.symm
  | @more count text others rest seen opened ih =>
    obtain ⟨front, blanks, same, blank, delimiters⟩ := ih
    obtain ⟨first, whole, lexeme⟩ := @Text.lexeme_after _ [c] _ seen
    refine ⟨first ++ front, blanks, ?_, blank, .more lexeme delimiters⟩
    rw [whole, same, List.append_assoc]

theorem reads_enclosed {α : Type} {content : Scan Text α} {spelled : α → Text → Prop}
    {opening closing : Char} (reads : Reads content spelled) (padded : Padded spelled) :
    Reads (Enclosed.scan opening closing content) (Enclosed.Spelled opening closing spelled) := by
  intro text group rest runs
  obtain ⟨count, inner, value, middle, opened, run, ending⟩ := enclosed_eq_ok.mp runs
  rcases ending with ⟨closed, rfl⟩ | ⟨-, -, again, left, run', closed, rfl⟩
  · obtain ⟨front, blanks, rfl, blank, delimiters⟩ := opened.delimiters
    obtain ⟨spelling, blanks', rfl, blank', spells⟩ := reads run
    obtain ⟨back, rfl, delimiters'⟩ := Delimiters.of_closed? closed
    refine ⟨front ++ (blanks ++ spelling) ++ (blanks' ++ back), [], ?_, .nil, ?_⟩
    · simp only [List.append_assoc, List.nil_append]
    · exact .intro (Nat.succ_pos _) delimiters (padded blank spells) (delimiters'.padded blank')
  · cases opened with
    | @more _ _ others _ seen opened =>
      rw [seen, List.tail_cons] at run'
      obtain ⟨front, rfl, lexeme⟩ := @Text.lexeme_after _ [opening] _ seen
      obtain ⟨spelling, blanks', rfl, blank', spells⟩ := reads run'
      obtain ⟨back, rfl, delimiters'⟩ := Delimiters.of_closed? closed
      have delimiters : Delimiters opening 1 front := by
        rw [← List.append_nil front]
        exact .more lexeme .none
      refine ⟨front ++ spelling ++ (blanks' ++ back), [], ?_, .nil, ?_⟩
      · simp only [List.append_assoc, List.nil_append]
      · exact .intro Nat.one_pos delimiters spells (delimiters'.padded blank')

theorem reads_concatenation {item : Scan Text Operand} (reads : Reads item Operand.Spelled)
    (limit : Nat) : Reads (Operand.scanConcatenation limit item) fun items text =>
      Operand.Spelled (.concatenation items) text := by
  refine .phrase _ (.of_exact fun text items rest runs => ?_)
  obtain ⟨_, opened, run, runs⟩ := bind_eq_ok.mp runs
  obtain ⟨found, middle, run', runs⟩ := bind_eq_ok.mp runs
  obtain ⟨_, _, closed, same⟩ := bind_eq_ok.mp runs
  cases same
  obtain ⟨-, seen⟩ := symbol_eq_ok.mp run
  obtain ⟨front, rfl, lexeme⟩ := @Text.lexeme_after _ ['\x7b'] _ seen
  obtain ⟨spelling, blanks, rfl, blank, spells⟩ :=
    reads_commaListUpTo reads limit (phrase_eq_ok.mp run')
  obtain ⟨back, rfl, delimiters⟩ := Delimiters.of_closed? (close_eq_ok.mp closed)
  cases delimiters with
  | more lexeme' others =>
    cases others
    refine ⟨front ++ spelling ++ (blanks ++ _), ?_, .concatenation lexeme spells (lexeme'.padded blank)⟩
    simp only [List.append_assoc, List.nil_append]

theorem reads_operandUpTo (limit : Nat) : Reads (Operand.scanUpTo limit) Operand.Spelled := by
  -- By induction on the limit: what stands between the braces is read with a smaller one.
  induction limit with
  | zero =>
    intro text operand rest runs
    cases runs
  | succ limit ih =>
    refine .phrase _ fun text operand rest runs => ?_
    rw [bind_skipBlanks, bind_peek] at runs
    cases visible : (text.dropWhile Text.isBlank).head? with
    | none => rw [visible] at runs; cases runs
    | some c =>
      rw [visible] at runs
      refine padded_operand.reads_after ?_
      rcases ite_eq_ok.mp runs with ⟨-, runs⟩ | ⟨-, runs⟩
      · exact (reads_concatenation ih limit).map _ (fun _ _ spells => spells) runs
      · rcases ite_eq_ok.mp runs with ⟨-, runs⟩ | ⟨-, runs⟩
        · exact reads_literal.map _ (fun _ _ => .literal) runs
        · exact reads_selection.map _ (fun _ _ => .net) runs

theorem reads_operand : Reads Operand.scan Operand.Spelled :=
  fun _ _ _ runs => reads_operandUpTo _ runs

theorem reads_association {α : Type} {value : Scan Text α} {spelled : α → Text → Prop}
    (reads : Reads value spelled) (padded : Padded spelled) :
    Reads (Association.scan value) (Association.Spelled spelled) := by
  intro text association rest runs
  rw [Association.scan, bind_facing] at runs
  rcases ite_eq_ok.mp runs with ⟨point, runs⟩ | ⟨-, runs⟩
  · rw [bind_next] at runs
    obtain ⟨pin, middle, run, runs⟩ := bind_eq_ok.mp runs
    obtain ⟨target, _, run', same⟩ := bind_eq_ok.mp runs
    cases same
    have seen : text.dropWhile Text.isBlank = ['.'] ++ (text.dropWhile Text.isBlank).tail :=
      List.eq_cons_of_mem_head? (beq_iff_eq.mp point)
    obtain ⟨front, whole, lexeme⟩ := Text.lexeme_after seen
    obtain ⟨name, blanks, same, blank, named⟩ := reads_name run
    obtain ⟨group, blanks', rfl, blank', spells⟩ := reads_enclosed reads padded run'
    refine ⟨front ++ name ++ (blanks ++ group), blanks', ?_, blank',
      .named lexeme named (padded_enclosed blank spells)⟩
    rw [whole, same]
    simp only [List.append_assoc]
  · obtain ⟨found, _, run, same⟩ := bind_eq_ok.mp runs
    cases same
    obtain ⟨front, blanks, same, blank, spells⟩ := padded.reads_after (reads run)
    exact ⟨front, blanks, same, blank, .positional spells⟩

theorem reads_setting : Reads Setting.scan Setting.Spelled := by
  refine .phrase _ fun text setting rest runs => ?_
  rw [bind_skipBlanks, bind_peek] at runs
  cases visible : (text.dropWhile Text.isBlank).head? with
  | none => rw [visible] at runs; cases runs
  | some c =>
    rw [visible] at runs
    refine padded_setting.reads_after ?_
    rcases ite_eq_ok.mp runs with ⟨-, runs⟩ | ⟨-, runs⟩
    · exact reads_literal.map _ (fun _ _ => .literal) runs
    · exact reads_name.map _ (fun _ _ => .name) runs

theorem reads_connection :
    Reads Association.scanConnection (Association.Spelled Operand.Spelled) :=
  .phrase _ (reads_association reads_operand padded_operand)

theorem reads_parameter : Reads Association.scanParameter (Association.Spelled Setting.Spelled) :=
  .phrase _ (reads_association reads_setting padded_setting)

theorem reads_parameters :
    Reads Association.scanParameters (Separated (Association.Spelled Setting.Spelled)) :=
  .phrase _ (reads_commaList reads_parameter)

theorem reads_block : Reads ParameterBlock.scan ParameterBlock.Spelled := by
  refine .phrase _ fun text block rest runs => ?_
  obtain ⟨_, middle, run, run'⟩ := bind_eq_ok.mp runs
  obtain ⟨-, seen⟩ := symbol_eq_ok.mp run
  obtain ⟨front, rfl, lexeme⟩ := @Text.lexeme_after _ ['#'] _ seen
  obtain ⟨group, blanks, rfl, blank, spells⟩ :=
    reads_enclosed reads_parameters (padded_separated (padded_association padded_setting)) run'
  exact ⟨front ++ group, blanks, by simp only [List.append_assoc], blank, .intro lexeme spells⟩

theorem reads_phrase (phrase : Phrase) : Reads phrase.read phrase.Derives := by
  cases phrase with
  | identifier => exact reads_name.map _ fun _ _ => .identifier
  | simpleIdentifier =>
    exact reads_simple.map _ fun _ _ spells => .simpleIdentifier spells.1 spells.2
  | escapedIdentifier =>
    exact reads_escaped.map _ fun _ _ spells => .escapedIdentifier spells.1 spells.2
  | identifierList =>
    exact Reads.map _ (.phrase _ (reads_commaList reads_name)) fun _ _ => .identifierList
  | immediate => exact reads_literal.map _ fun _ _ => .immediate
  | unbasedImmediate =>
    exact reads_digits.map _ fun _ _ spells => .unbasedImmediate spells.1 spells.2
  | basedImmediate radix =>
    refine (reads_sized radix).map _ fun value text spells => ?_
    obtain ⟨⟨width, digits, rfl⟩, spells⟩ := spells
    exact .basedImmediate spells
  | stringLiteral =>
    refine reads_string.map _ fun value text spells => ?_
    obtain ⟨⟨body, rfl⟩, spells⟩ := spells
    exact .stringLiteral spells
  | bitRange => exact reads_bounds.map _ fun _ _ => .bitRange
  | connectedElement => exact reads_operand.map _ fun _ _ => .connectedElement
  | connectedElementList =>
    exact Reads.map _ (.phrase _ (reads_commaList reads_operand)) fun _ _ => .connectedElementList
  | connection => exact reads_connection.map _ fun _ _ => .connection
  | connectionList =>
    exact Reads.map _ (.phrase _ (reads_commaList reads_connection)) fun _ _ => .connectionList
  | parameterConnectedElement =>
    exact reads_setting.map _ fun _ _ => .parameterConnectedElement
  | parameterConnection => exact reads_parameter.map _ fun _ _ => .parameterConnection
  | parameterList => exact reads_parameters.map _ fun _ _ => .parameterList
  | moduleParameters => exact reads_block.map _ fun _ _ => .moduleParameters

end Netlist

end NetTrace
