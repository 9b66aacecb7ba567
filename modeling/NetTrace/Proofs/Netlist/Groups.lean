import NetTrace.Proofs.Netlist.Lexemes

namespace NetTrace

open Text (Blanks Lexeme Alike)

def Text.closed? (c : Char) : Nat → Text → Option Text
  | 0, text => some text
  | count + 1, text =>
    if text.visible? = some c then closed? c count (text.dropWhile isBlank).tail else none

namespace Text

variable {c : Char} {text rest : Text}

theorem seen_of_visible (visible : text.visible? = some c) :
    text.dropWhile isBlank = c :: (text.dropWhile isBlank).tail :=
  List.eq_cons_of_mem_head? visible

theorem closed?_succ (seen : text.dropWhile isBlank = c :: rest) (count : Nat) :
    closed? c (count + 1) text = closed? c count rest := by
  rw [closed?, if_pos (visible?_cons seen), seen, List.tail_cons]

theorem closed?_congr {left right : Text} (alike : Alike left right) (count : Nat) :
    closed? c (count + 1) left = closed? c (count + 1) right := by
  rw [closed?, closed?, alike.visible, show left.dropWhile isBlank = _ from alike]

theorem closed?_one : closed? c 1 text = some rest ↔ text.dropWhile isBlank = c :: rest := by
  constructor
  · intro closed
    rw [closed?, closed?, Option.ite_none_right_eq_some] at closed
    rcases closed with ⟨visible, same⟩
    rw [seen_of_visible visible, Option.some.inj same]
  · intro seen
    exact closed?_succ seen 0

theorem closed?_add (first second : Nat) (text : Text) :
    closed? c (first + second) text = (closed? c first text).bind (closed? c second) := by
  induction first generalizing text with
  | zero => rw [Nat.zero_add]; rfl
  | succ first ih =>
    rw [Nat.add_right_comm, closed?, closed?]
    split
    · exact ih _
    · rfl

end Text

namespace Netlist

open Scan

/-- The opening delimiters of a group, all of them, and what stands after them. -/
inductive Opened (c : Char) : Nat → Text → Text → Prop
  | none {text} : text.visible? ≠ some c → Opened c 0 text (text.dropWhile Text.isBlank)
  | more {count text others rest} : text.dropWhile Text.isBlank = c :: others →
      Opened c count others rest → Opened c (count + 1) text rest

variable {α : Type} {c opening closing : Char} {text rest : Text}

theorem Delimiters.of_closed? {count : Nat} (closed : Text.closed? c count text = some rest) :
    ∃ front, text = front ++ rest ∧ Delimiters c count front := by
  induction count generalizing text with
  | zero =>
    obtain rfl := Option.some.inj closed
    exact ⟨[], rfl, .none⟩
  | succ count ih =>
    rw [Text.closed?] at closed
    split at closed
    · rename_i visible
      have seen : text.dropWhile Text.isBlank = [c] ++ (text.dropWhile Text.isBlank).tail :=
        Text.seen_of_visible visible
      rcases Text.lexeme_after seen with ⟨front, whole, lexeme⟩
      rcases ih closed with ⟨others, whole', delimiters⟩
      refine ⟨front ++ others, ?_, .more lexeme delimiters⟩
      rw [List.append_assoc, ← whole', ← whole]
    · contradiction

theorem Delimiters.closed? {count : Nat} {front : Text} (delimiters : Delimiters c count front)
    (positive : 0 < count) (visible : Text.isBlank c = false) (alike : Alike text (front ++ rest)) :
    Text.closed? c count text = some rest := by
  induction delimiters generalizing text with
  | none => contradiction
  | @more count first others lexeme delimiters ih =>
    rw [List.append_assoc] at alike
    rw [Text.closed?_succ (lexeme.seen visible alike)]
    cases delimiters with
    | none => rfl
    | more lexeme' delimiters => exact ih (Nat.succ_pos _) (.refl _)

theorem closeFrom_eq_ok {depth missing : Nat} {found : Unit} :
    Enclosed.closeFrom opening closing depth missing text = .ok found rest ↔
      Text.closed? closing missing text = some rest := by
  induction missing generalizing text with
  | zero =>
    rw [Enclosed.closeFrom, run_pure, Text.closed?]
    simp only [EStateM.Result.ok.injEq, Option.some.injEq, true_and]
  | succ missing ih =>
    simp only [Enclosed.closeFrom, bind_skipBlanks, bind_peek, ite_eq_ok, bind_next, run_refuse,
      reduceCtorEq, and_false, or_false, ih, Text.closed?]
    rw [Option.ite_none_right_eq_some]
    rfl

theorem close_eq_ok {depth : Nat} {found : Unit} :
    Enclosed.close opening closing depth text = .ok found rest ↔
      Text.closed? closing depth text = some rest := closeFrom_eq_ok

theorem close_refused {depth : Nat} :
    (∃ failure left, Enclosed.close opening closing depth text = .error failure left) ↔
      Text.closed? closing depth text = none := by
  cases runs : Enclosed.close opening closing depth text with
  | ok found rest => simp [close_eq_ok.mp runs]
  | error failure rest =>
    refine ⟨fun _ => ?_, fun _ => ⟨failure, rest, rfl⟩⟩
    cases closed : Text.closed? closing depth text with
    | none => rfl
    | some left =>
      have success : Enclosed.close opening closing depth text = .ok () left :=
        close_eq_ok.mpr closed
      rw [success] at runs
      cases runs

theorem open?_eq_some {found : Char} :
    Enclosed.open? c text = .ok (some found) rest ↔
      found = c ∧ ∃ others, text = c :: others ∧ rest = others.dropWhile Text.isBlank := by
  simp only [Enclosed.open?, bind_peek, ite_eq_ok, bind_next, bind_skipBlanks, run_pure,
    EStateM.Result.ok.injEq, Option.some.injEq, reduceCtorEq, false_and, and_false, or_false]
  constructor
  · intro given
    rcases given with ⟨head, rfl, rfl⟩
    exact ⟨rfl, text.tail, List.eq_cons_of_mem_head? head, rfl⟩
  · intro given
    rcases given with ⟨rfl, others, rfl, rfl⟩
    exact ⟨rfl, rfl, rfl⟩

theorem open?_eq_none :
    Enclosed.open? c text = .ok none rest ↔ rest = text ∧ text.head? ≠ some c := by
  simp only [Enclosed.open?, bind_peek, ite_eq_ok, bind_next, bind_skipBlanks, run_pure,
    EStateM.Result.ok.injEq, reduceCtorEq, false_and, and_false, false_or, true_and]
  rw [and_comm, eq_comm]

theorem advances_open? : Advances (Enclosed.open? c : Scan Text (Option Char)) := by
  intro text found rest runs
  rcases open?_eq_some.mp runs with ⟨-, others, rfl, rfl⟩
  have blanks := (List.dropWhile_sublist Text.isBlank (l := others)).length_le
  rw [List.length_cons]
  omega

theorem opened_of_collect {limit : Nat} {found : List Char} (above : text.length < limit)
    (runs : collect limit (Enclosed.open? c) (text.dropWhile Text.isBlank) = .ok found rest) :
    Opened c found.length text rest := by
  induction limit generalizing text found with
  | zero => omega
  | succ limit ih =>
    rcases bind_eq_ok.mp runs with ⟨option, middle, run, runs⟩
    cases option with
    | none =>
      rcases open?_eq_none.mp run with ⟨rfl, other⟩
      cases runs
      exact .none other
    | some d =>
      rcases open?_eq_some.mp run with ⟨rfl, others, seen, rfl⟩
      rcases bind_eq_ok.mp runs with ⟨more, last, run', same⟩
      cases same
      have blanks := (List.dropWhile_sublist Text.isBlank (l := text)).length_le
      rw [seen, List.length_cons] at blanks
      exact .more seen (ih (by omega) run')

theorem Opened.collect {count limit : Nat} (opened : Opened c count text rest)
    (above : text.length < limit) :
    Scan.collect limit (Enclosed.open? c) (text.dropWhile Text.isBlank) =
      .ok (List.replicate count c) rest := by
  induction opened generalizing limit with
  | @none text other =>
    obtain ⟨less, rfl⟩ : ∃ less, limit = less + 1 := ⟨limit - 1, by omega⟩
    rw [Scan.collect, bind_ok _ (open?_eq_none.mpr ⟨rfl, other⟩)]
    rfl
  | @more count text others rest seen opened ih =>
    obtain ⟨less, rfl⟩ : ∃ less, limit = less + 1 := ⟨limit - 1, by omega⟩
    have blanks := (List.dropWhile_sublist Text.isBlank (l := text)).length_le
    rw [seen, List.length_cons] at blanks
    rw [Scan.collect, bind_ok _ (open?_eq_some.mpr ⟨rfl, others, seen, rfl⟩)]
    dsimp only
    rw [bind_ok _ (ih (by omega))]
    rfl

theorem opened_iff {count : Nat} :
    Opened c count text rest ↔ ∃ found, found.length = count ∧
      collectAll (Enclosed.open? c) (text.dropWhile Text.isBlank) = .ok found rest := by
  have blanks := (List.dropWhile_sublist Text.isBlank (l := text)).length_le
  rw [collectAll_eq advances_open? (show _ < text.length + 1 by omega)]
  constructor
  · intro opened
    exact ⟨_, List.length_replicate, opened.collect (by omega)⟩
  · intro given
    rcases given with ⟨found, rfl, runs⟩
    exact opened_of_collect (by omega) runs

theorem retry_eq_ok {content : Scan Text α} {first : Text} {failure : Failure} {group : Enclosed α} :
    (do
      rewind first
      let _ ← next
      let again ← outcome <| rewinding do
        let value ← content
        Enclosed.close opening closing 1
        return (⟨1, value⟩ : Enclosed α)
      match again with
      | .ok group => return group
      | .error _ => throw failure : Scan Text (Enclosed α)) text = .ok group rest ↔
    ∃ again left, content first.tail = .ok again left ∧ Text.closed? closing 1 left = some rest ∧
      group = ⟨1, again⟩ := by
  rw [bind_rewind, bind_next, bind_eq_ok]
  constructor
  · intro given
    rcases given with ⟨result, middle, run, runs⟩
    rcases outcome_eq_ok.mp run with ⟨found, success, rfl⟩ | ⟨_, -, rfl⟩
    · cases runs
      rcases bind_eq_ok.mp (rewinding_eq_ok.mp success) with ⟨again, left, content, success⟩
      rcases bind_eq_ok.mp success with ⟨_, _, closed, same⟩
      cases same
      exact ⟨again, left, content, close_eq_ok.mp closed, rfl⟩
    · cases runs
  · intro given
    rcases given with ⟨again, left, run, closed, rfl⟩
    have success : rewinding (do
        let value ← content
        Enclosed.close opening closing 1
        return (⟨1, value⟩ : Enclosed α)) first.tail = .ok ⟨1, again⟩ rest := by
      refine rewinding_eq_ok.mpr (bind_eq_ok.mpr ⟨again, left, run, ?_⟩)
      exact bind_eq_ok.mpr ⟨(), rest, close_eq_ok.mpr closed, rfl⟩
    exact ⟨_, rest, outcome_ok success, rfl⟩

/-- When a group is read, and as what. All opening delimiters are taken first; if the content is
    read and the closing ones are too few, the first delimiter is tried alone. -/
theorem enclosed_eq_ok {content : Scan Text α} {group : Enclosed α} :
    Enclosed.scan opening closing content text = .ok group rest ↔
      ∃ count inner value middle, Opened opening (count + 1) text inner ∧
        content inner = .ok value middle ∧
        (Text.closed? closing (count + 1) middle = some rest ∧ group = ⟨count + 1, value⟩ ∨
         Text.closed? closing (count + 1) middle = none ∧ 0 < count ∧
          ∃ again left, content (text.dropWhile Text.isBlank).tail = .ok again left ∧
            Text.closed? closing 1 left = some rest ∧ group = ⟨1, again⟩) := by
  simp only [Enclosed.scan, phrase_eq_ok, bind_skipBlanks, bind_mark]
  rw [bind_eq_ok]
  simp only [ite_eq_ok, bind_peek, run_refuse, reduceCtorEq, and_false, false_or]
  constructor
  · intro given
    rcases given with ⟨found, inner, run, nonempty, runs⟩
    rcases bind_eq_ok.mp runs with ⟨value, middle, run', runs⟩
    obtain ⟨count, same⟩ : ∃ count, found.length = count + 1 := ⟨found.length - 1, by omega⟩
    refine ⟨count, inner, value, middle, opened_iff.mpr ⟨found, same, run⟩, run', ?_⟩
    rw [same] at runs
    rcases bind_eq_ok.mp runs with ⟨result, left, closing, runs⟩
    rcases outcome_eq_ok.mp closing with ⟨_, closed, rfl⟩ | ⟨failure, refused, rfl⟩
    · cases runs
      exact .inl ⟨close_eq_ok.mp (rewinding_eq_ok.mp closed), rfl⟩
    · rcases rewinding_eq_error.mp refused with ⟨-, _, refused⟩
      rcases ite_eq_ok.mp runs with ⟨-, runs⟩ | ⟨deep, runs⟩
      · cases runs
      · exact .inr ⟨close_refused.mp ⟨_, _, refused⟩, by omega, retry_eq_ok.mp runs⟩
  · intro given
    rcases given with ⟨count, inner, value, middle, opened, run, ⟨closed, rfl⟩ | ⟨refused, deep, again⟩⟩
    · rcases opened_iff.mp opened with ⟨found, same, run'⟩
      refine ⟨found, inner, run', by omega, bind_eq_ok.mpr ⟨value, middle, run, ?_⟩⟩
      rw [same]
      have success : Enclosed.close opening closing (count + 1) middle = .ok () rest :=
        close_eq_ok.mpr closed
      exact bind_eq_ok.mpr ⟨_, rest, outcome_ok (rewinding_eq_ok.mpr success), rfl⟩
    · rcases opened_iff.mp opened with ⟨found, same, run'⟩
      refine ⟨found, inner, run', by omega, bind_eq_ok.mpr ⟨value, middle, run, ?_⟩⟩
      rw [same]
      have unclosed : ∃ failure left,
          Enclosed.close opening closing (count + 1) middle = .error failure left :=
        close_refused.mpr refused
      rcases unclosed with ⟨failure, left, failed⟩
      refine bind_eq_ok.mpr ⟨_, middle, outcome_error (rewinding_eq_error.mpr ⟨rfl, _, failed⟩), ?_⟩
      exact ite_eq_ok.mpr (.inr ⟨by omega, retry_eq_ok.mpr again⟩)

end Netlist

end NetTrace
