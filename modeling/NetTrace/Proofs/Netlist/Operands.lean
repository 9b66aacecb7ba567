import NetTrace.Proofs.Netlist.Soundness

namespace NetTrace.Netlist

open Scan

variable {text rest : Text}

theorem passes_operandUpTo (limit : Nat) : Passes 0 (Operand.scanUpTo limit : Scan Text Operand) :=
  (reads_operandUpTo limit).passes fun _ _ _ => Nat.zero_le _

theorem passes_operand : Passes 0 (Operand.scan : Scan Text Operand) :=
  fun _ _ _ runs => passes_operandUpTo _ runs

theorem concatenation_congr {item other : Scan Text Operand} (passes : Passes 0 item)
    (same : ∀ rest, rest.length < text.length → item rest = other rest) {limit limit' : Nat}
    (above : text.length ≤ limit) (above' : text.length ≤ limit') :
    Operand.scanConcatenation limit item text = Operand.scanConcatenation limit' other text := by
  refine phrase_congr _ (bind_congr fun _ opened run => ?_)
  have shorter : opened.length < text.length := by
    have blanks := (List.dropWhile_sublist Text.isBlank (l := text)).length_le
    rw [(symbol_eq_ok.mp run).2, List.length_cons] at blanks
    omega
  have items : phrase "ConnectedElementList" (commaListUpTo limit item) opened =
      phrase "ConnectedElementList" (commaListUpTo limit' other) opened := by
    apply phrase_congr
    apply commaListUpTo_congr passes
    · intro rest short
      exact same rest (by omega)
    · omega
    · omega
  simp only [Bind.bind, EStateM.bind, items]

theorem operandUpTo_congr {limit limit' : Nat} (above : text.length < limit)
    (above' : text.length < limit') :
    (Operand.scanUpTo limit : Scan Text Operand) text = Operand.scanUpTo limit' text := by
  induction limit generalizing text limit' with
  | zero => omega
  | succ limit ih =>
    obtain ⟨limit', rfl⟩ : ∃ less, limit' = less + 1 := ⟨limit' - 1, by omega⟩
    apply phrase_congr
    rw [bind_skipBlanks, bind_skipBlanks, bind_peek, bind_peek]
    have blanks := (List.dropWhile_sublist Text.isBlank (l := text)).length_le
    cases (text.dropWhile Text.isBlank).head? with
    | none => rfl
    | some c =>
      dsimp only
      split
      · apply Scan.map_congr
        apply concatenation_congr (passes_operandUpTo limit)
        · intro rest short
          exact ih (by omega) (by omega)
        · omega
        · omega
      · rfl

theorem operand_eq {limit : Nat} (above : text.length < limit) :
    (Operand.scan : Scan Text Operand) text = Operand.scanUpTo limit text := by
  have bytes := Text.length_le_byteLength text
  exact operandUpTo_congr (show text.length < Text.byteLength text + 1 by omega) above

theorem digit_of_starts {c : Char} (starts : Name.starts c = true) : c.isDigit = false := by
  by_contra digit
  simp only [Bool.not_eq_false, Char.isDigit, Bool.and_eq_true, decide_eq_true_eq, ge_iff_le,
    UInt32.le_iff_toNat_le] at digit
  simp only [Name.starts, isAlpha_eq, isUpper_iff, isLower_iff, Bool.or_eq_true, Char.le_def,
    UInt32.le_iff_toNat_le, beq_iff_eq] at starts
  rcases starts with letter | rfl
  · simp at digit letter
    omega
  · revert digit
    decide

theorem visible_name {name : Text} (runs : Name.scan text = .ok name rest) :
    ∃ c, text.visible? = some c ∧ (Name.starts c = true ∨ c = '\\') := by
  rcases name_eq_ok.mp runs with ⟨seen, kind⟩
  rcases kind with ⟨⟨first, others, rfl, starts, -⟩, -⟩ | ⟨body, terminator, rfl, -⟩
  · exact ⟨first, Text.visible?_cons seen, .inl starts⟩
  · exact ⟨_, Text.visible?_cons seen, .inr rfl⟩

theorem visible_literal {value : Literal} (runs : Literal.scan text = .ok value rest) :
    ∃ c, text.visible? = some c ∧ (c.isDigit || c == '"') = true := by
  rcases literal_eq_ok.mp runs with runs | runs
  · exact ⟨_, visible_string runs, rfl⟩
  · rcases visible_number runs with ⟨c, visible, digit⟩
    exact ⟨c, visible, by rw [digit]; rfl⟩

theorem name_dropWhile {name : Text} :
    Name.scan (text.dropWhile Text.isBlank) = .ok name rest ↔ Name.scan text = .ok name rest := by
  rw [name_eq_ok, name_eq_ok, Text.dropWhile_dropWhile]

theorem literal_dropWhile {value : Literal} :
    Literal.scan (text.dropWhile Text.isBlank) = .ok value rest ↔
      Literal.scan text = .ok value rest := by
  simp only [literal_eq_ok, string_eq_ok, number_eq_ok, sized_eq_ok, digits_eq_ok,
    Text.dropWhile_dropWhile]

theorem selection_dropWhile {selection : Selection} :
    Selection.scan (text.dropWhile Text.isBlank) = .ok selection rest ↔
      Selection.scan text = .ok selection rest := by
  rw [Selection.scan, bind_eq_ok, bind_eq_ok]
  simp only [name_dropWhile]

/-- What starts like a name is no literal, so what is seen first decides between the two. -/
theorem literal_or_eq_ok {α β : Type} {c : Char} (visible : text.visible? = some c)
    {other : Scan Text α} {ofLiteral : Literal → β} {ofOther : α → β} {result : β}
    (again : ∀ value, other (text.dropWhile Text.isBlank) = .ok value rest ↔
      other text = .ok value rest)
    (named : ∀ value, other text = .ok value rest → Name.starts c = true ∨ c = '\\') :
    (if c.isDigit || c == '"' then ofLiteral <$> Literal.scan else ofOther <$> other)
        (text.dropWhile Text.isBlank) = .ok result rest ↔
      (∃ value, Literal.scan text = .ok value rest ∧ result = ofLiteral value) ∨
      ∃ value, other text = .ok value rest ∧ result = ofOther value := by
  simp only [ite_eq_ok, map_eq_ok, literal_dropWhile, again]
  constructor
  · intro runs
    rcases runs with ⟨-, value, run, rfl⟩ | ⟨-, value, run, rfl⟩
    · exact .inl ⟨value, run, rfl⟩
    · exact .inr ⟨value, run, rfl⟩
  · intro runs
    rcases runs with ⟨value, run, rfl⟩ | ⟨value, run, rfl⟩
    · rcases visible_literal run with ⟨d, visible', kind⟩
      obtain rfl : d = c := Option.some.inj (visible'.symm.trans visible)
      exact .inl ⟨kind, value, run, rfl⟩
    · refine .inr ⟨?_, value, run, rfl⟩
      rcases named value run with starts | rfl
      · rw [digit_of_starts starts, Bool.false_or, beq_iff_eq]
        intro quote
        rw [quote] at starts
        contradiction
      · decide

theorem setting_eq_ok {setting : Setting} :
    Setting.scan text = .ok setting rest ↔
      (∃ value, Literal.scan text = .ok value rest ∧ setting = .literal value) ∨
      ∃ name, Name.scan text = .ok name rest ∧ setting = .name name := by
  rw [Setting.scan, phrase_eq_ok, bind_skipBlanks, bind_peek]
  cases visible : text.visible? with
  | none =>
    rw [show (text.dropWhile Text.isBlank).head? = none from visible]
    constructor
    · intro runs
      cases runs
    · intro runs
      rcases runs with ⟨_, run, -⟩ | ⟨_, run, -⟩
      · rcases visible_literal run with ⟨c, visible', -⟩
        rw [visible'] at visible
        contradiction
      · rcases visible_name run with ⟨c, visible', -⟩
        rw [visible'] at visible
        contradiction
  | some c =>
    rw [show (text.dropWhile Text.isBlank).head? = some c from visible]
    refine literal_or_eq_ok visible (fun _ => name_dropWhile) fun name run => ?_
    rcases visible_name run with ⟨d, visible', kind⟩
    rwa [Option.some.inj (visible.symm.trans visible')]

theorem concatenation_eq_ok {limit : Nat} {item : Scan Text Operand} {items : List Operand} :
    Operand.scanConcatenation limit item text = .ok items rest ↔ ∃ opened middle,
      text.dropWhile Text.isBlank = '\x7b' :: opened ∧
      commaListUpTo limit item opened = .ok items middle ∧
      middle.dropWhile Text.isBlank = '\x7d' :: rest := by
  simp only [Operand.scanConcatenation, phrase_eq_ok, bind_eq_ok, symbol_eq_ok, close_eq_ok,
    Text.closed?_one, run_pure, EStateM.Result.ok.injEq]
  constructor
  · intro runs
    rcases runs with ⟨_, opened, ⟨-, seen⟩, _, middle, run, _, _, seen', rfl, rfl⟩
    exact ⟨opened, middle, seen, run, seen'⟩
  · intro runs
    rcases runs with ⟨opened, middle, seen, run, seen'⟩
    exact ⟨_, opened, ⟨rfl, seen⟩, items, middle, run, (), rest, seen', rfl, rfl⟩

theorem visible_selection {selection : Selection}
    (runs : Selection.scan text = .ok selection rest) :
    ∃ c, text.visible? = some c ∧ (Name.starts c = true ∨ c = '\\') := by
  rcases bind_eq_ok.mp runs with ⟨_, _, run, -⟩
  exact visible_name run

theorem not_brace_of_literal {value : Literal} (runs : Literal.scan text = .ok value rest) :
    text.visible? ≠ some '\x7b' := by
  intro brace
  rcases visible_literal runs with ⟨c, visible, kind⟩
  rw [← Option.some.inj (brace.symm.trans visible)] at kind
  contradiction

theorem not_brace_of_selection {selection : Selection}
    (runs : Selection.scan text = .ok selection rest) : text.visible? ≠ some '\x7b' := by
  intro brace
  rcases visible_selection runs with ⟨c, visible, kind⟩
  rw [← Option.some.inj (brace.symm.trans visible)] at kind
  exact absurd kind (by decide)

/-- The limit that is left after a brace is above the length of what follows it. -/
theorem operands_eq {opened : Text} (seen : text.dropWhile Text.isBlank = '\x7b' :: opened) :
    commaListUpTo text.length (Operand.scanUpTo text.length) opened =
      commaList Operand.scan opened := by
  have blanks := (List.dropWhile_sublist Text.isBlank (l := text)).length_le
  rw [seen, List.length_cons] at blanks
  rw [commaList_eq passes_operand (show opened.length < text.length by omega)]
  refine commaListUpTo_congr (passes_operandUpTo _) (fun rest short => ?_) (by omega) (by omega)
  exact (operand_eq (by omega)).symm

/-- The equation of the grammar: an operand is a list of operands in braces, a literal or a
    selection, and what is seen first decides which. -/
theorem operand_eq_ok {operand : Operand} :
    Operand.scan text = .ok operand rest ↔
      (∃ opened items middle, text.dropWhile Text.isBlank = '\x7b' :: opened ∧
        commaList Operand.scan opened = .ok items middle ∧
        middle.dropWhile Text.isBlank = '\x7d' :: rest ∧ operand = .concatenation items) ∨
      (∃ value, Literal.scan text = .ok value rest ∧ operand = .literal value) ∨
      ∃ selection, Selection.scan text = .ok selection rest ∧ operand = .net selection := by
  rw [operand_eq (Nat.lt_succ_self text.length), Operand.scanUpTo, phrase_eq_ok, bind_skipBlanks,
    bind_peek]
  cases visible : text.visible? with
  | none =>
    rw [show (text.dropWhile Text.isBlank).head? = none from visible]
    constructor
    · intro runs
      contradiction
    · intro runs
      rcases runs with ⟨_, _, _, seen, -⟩ | ⟨_, run, -⟩ | ⟨_, run, -⟩
      · rw [Text.visible?_cons seen] at visible
        contradiction
      · rcases visible_literal run with ⟨c, visible', -⟩
        rw [visible'] at visible
        contradiction
      · rcases visible_selection run with ⟨c, visible', -⟩
        rw [visible'] at visible
        contradiction
  | some c =>
    rw [show (text.dropWhile Text.isBlank).head? = some c from visible]
    by_cases brace : c = '\x7b'
    · subst brace
      simp only [if_true, map_eq_ok, concatenation_eq_ok, Text.dropWhile_dropWhile]
      constructor
      · intro runs
        rcases runs with ⟨items, ⟨opened, middle, seen, run, seen'⟩, rfl⟩
        rw [operands_eq seen] at run
        exact .inl ⟨opened, items, middle, seen, run, seen', rfl⟩
      · intro runs
        rcases runs with ⟨opened, items, middle, seen, run, seen', rfl⟩ | ⟨_, run, -⟩ | ⟨_, run, -⟩
        · rw [← operands_eq seen] at run
          exact ⟨items, ⟨opened, middle, seen, run, seen'⟩, rfl⟩
        · exact absurd visible (not_brace_of_literal run)
        · exact absurd visible (not_brace_of_selection run)
    · have other : ¬ ∃ opened items middle, text.dropWhile Text.isBlank = '\x7b' :: opened ∧
          commaList Operand.scan opened = .ok items middle ∧
          middle.dropWhile Text.isBlank = '\x7d' :: rest ∧ operand = .concatenation items := by
        intro runs
        rcases runs with ⟨opened, _, _, seen, -⟩
        exact brace (Option.some.inj (visible.symm.trans (Text.visible?_cons seen)))
      dsimp only
      rw [if_neg brace, or_iff_right other]
      refine literal_or_eq_ok visible (fun _ => selection_dropWhile) fun selection run => ?_
      rcases visible_selection run with ⟨d, visible', kind⟩
      rwa [Option.some.inj (visible.symm.trans visible')]

theorem operand_dropWhile {operand : Operand} :
    Operand.scan (text.dropWhile Text.isBlank) = .ok operand rest ↔
      Operand.scan text = .ok operand rest := by
  simp only [operand_eq_ok, literal_dropWhile, selection_dropWhile, Text.dropWhile_dropWhile]

theorem setting_dropWhile {setting : Setting} :
    Setting.scan (text.dropWhile Text.isBlank) = .ok setting rest ↔
      Setting.scan text = .ok setting rest := by
  simp only [setting_eq_ok, literal_dropWhile, name_dropWhile]

end NetTrace.Netlist
