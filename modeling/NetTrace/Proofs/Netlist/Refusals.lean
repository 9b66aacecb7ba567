import NetTrace.Proofs.Netlist.Operands
import NetTrace.Proofs.Scan.Causes

namespace NetTrace.Netlist

open Scan

variable {α : Type} {opening closing : Char} {text inner middle others : Text} {cause : Cause}

def unclosed (opening closing : Char) (opened closed : Nat) : Cause :=
  .unbalanced opening closing
    (Numeral.decimal opened ++ " opened, ".toList ++ Numeral.decimal closed ++
      " closed, then found ".toList ++ Text.describe none) []

theorem closeFrom_refuses {depth closed more : Nat} (visible : Text.isBlank closing = false)
    (seen : text.dropWhile Text.isBlank = List.replicate closed closing) :
    RefusesFor (Enclosed.closeFrom opening closing depth (closed + (more + 1))) text
      (unclosed opening closing depth (depth - (more + 1))) := by
  induction closed generalizing text with
  | zero =>
    rw [Nat.zero_add, Enclosed.closeFrom]
    refine .after (run_skipBlanks text) (.after (run_peek _) ?_)
    rw [seen]
    exact .refuse _ []
  | succ closed ih =>
    rw [show closed + 1 + (more + 1) = closed + (more + 1) + 1 by omega, Enclosed.closeFrom]
    refine .after (run_skipBlanks text) (.after (run_peek _) ?_)
    rw [seen, List.replicate_succ, List.head?_cons, if_pos rfl]
    exact .after (run_next _) (ih (Text.dropWhile_replicate visible closed))

theorem close_refuses {depth closed : Nat} (visible : Text.isBlank closing = false)
    (fewer : closed < depth)
    (seen : text.dropWhile Text.isBlank = List.replicate closed closing) :
    RefusesFor (Enclosed.close opening closing depth) text
      (unclosed opening closing depth closed) := by
  obtain ⟨more, rfl⟩ : ∃ more, depth = closed + (more + 1) := ⟨depth - closed - 1, by omega⟩
  have refuses : RefusesFor (Enclosed.close opening closing (closed + (more + 1))) text
      (unclosed opening closing (closed + (more + 1)) (closed + (more + 1) - (more + 1))) :=
    closeFrom_refuses visible seen
  rwa [Nat.add_sub_cancel] at refuses

/-- A group of which only the closing delimiters are missing is refused for them, unless its content
    can be read after the first opening delimiter alone. -/
theorem enclosed_refuses {content : Scan Text α} {count : Nat} {value : α}
    (opened : Opened opening (count + 1) text inner) (run : content inner = .ok value middle)
    (missing : RefusesFor (Enclosed.close opening closing (count + 1)) middle cause)
    (alone : 0 < count → ∀ again left,
      content (text.dropWhile Text.isBlank).tail ≠ .ok again left) :
    RefusesFor (Enclosed.scan opening closing content) text cause := by
  obtain ⟨found, same, openings⟩ := opened_iff.mp opened
  obtain ⟨failure, left, refused, rfl⟩ := missing
  refine .phrase _ (.after (run_skipBlanks text) (.after (run_mark _) (.after openings ?_)))
  rw [same]
  dsimp only
  rw [if_neg (Nat.succ_ne_zero count)]
  refine .after run (.after (outcome_error (rewinding_eq_error.mpr ⟨rfl, left, refused⟩)) ?_)
  dsimp only
  by_cases one : count + 1 = 1
  · rw [if_pos one]
    exact ⟨failure, middle, rfl, rfl⟩
  · rw [if_neg one]
    refine .after (run_rewind _ _) (.after (run_next _) ?_)
    cases again : content (text.dropWhile Text.isBlank).tail with
    | ok value left => exact absurd again (alone (by omega) value left)
    | error reason left =>
      have refused' : rewinding (do
          let value ← content
          Enclosed.close opening closing 1
          return (⟨1, value⟩ : Enclosed α)) (text.dropWhile Text.isBlank).tail =
            .error reason (text.dropWhile Text.isBlank).tail := by
        refine rewinding_eq_error.mpr ⟨rfl, left, ?_⟩
        simp only [Bind.bind, EStateM.bind, again]
      exact .after (outcome_error refused') ⟨failure, _, rfl, rfl⟩

/-- What stands after the brace of a concatenation, up to the brace that closes it. -/
def Operand.scanItems : Scan Text (List Operand) := do
  let items ← phrase "ConnectedElementList" (commaList Operand.scan)
  Enclosed.close '\x7b' '\x7d' 1
  return items

theorem operand_refuses (seen : text.dropWhile Text.isBlank = '\x7b' :: others)
    (refuses : RefusesFor Operand.scanItems others cause) : RefusesFor Operand.scan text cause := by
  have list : phrase "ConnectedElementList"
      (commaListUpTo text.length (Operand.scanUpTo text.length)) others =
        phrase "ConnectedElementList" (commaList Operand.scan) others :=
    phrase_congr _ (operands_eq seen)
  rw [RefusesFor, operand_eq (Nat.lt_succ_self text.length)]
  refine RefusesFor.phrase _ (.after (run_skipBlanks text) (.after (run_peek _) ?_))
  rw [seen, List.head?_cons]
  dsimp only
  rw [if_pos rfl]
  refine .map _ (.phrase _ (.after (symbol_eq_ok.mpr ⟨rfl, rfl⟩) ?_))
  simpa only [Operand.scanItems, Bind.bind, EStateM.bind, RefusesFor, list] using refuses

theorem operand_refuses_item (seen : text.dropWhile Text.isBlank = '\x7b' :: others)
    (refuses : RefusesFor Operand.scan others cause) : RefusesFor Operand.scan text cause :=
  operand_refuses seen (.bind (.phrase _ (.after (run_remaining others) (.bind refuses))))

theorem operand_refuses_end {operand : Operand}
    (seen : text.dropWhile Text.isBlank = '\x7b' :: others)
    (item : Operand.scan others = .ok operand middle) (absent : middle.visible? ≠ some ',')
    (missing : RefusesFor (Enclosed.close '\x7b' '\x7d' 1) (middle.dropWhile Text.isBlank) cause) :
    RefusesFor Operand.scan text cause := by
  have list : commaList Operand.scan others = .ok [operand] (middle.dropWhile Text.isBlank) :=
    (commaList_eq_ok passes_operand).mpr ⟨operand, [], middle, rfl, item, .inl ⟨absent, rfl, rfl⟩⟩
  exact operand_refuses seen (.after (phrase_eq_ok.mpr list) (.bind missing))

theorem Literal.spares_digits {kind : Cause → Prop}
    (missing : ∀ input, ¬ kind (.missing "a decimal digit" input))
    (ended : ¬ kind (.unexpectedEnd "a decimal digit")) :
    Spares kind (Literal.scanDigits : Scan Text Text) := by
  refine .phrase _ (.bind (.span _) fun _ => .bind (.span _) fun digits => .ite ?_ (.pure _))
  refine .bind .peek fun found => ?_
  cases found with
  | none => exact .refuseEnd ended
  | some c => exact .refuse missing

end NetTrace.Netlist
