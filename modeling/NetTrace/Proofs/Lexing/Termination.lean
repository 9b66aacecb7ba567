import NetTrace.Proofs.Lexing.Progress
import NetTrace.Proofs.Netlist.Follows
import NetTrace.Proofs.Scan.Loop
import NetTrace.Proofs.Signal.Whitelist
import NetTrace.Vcd.Header

namespace NetTrace

open Scan View

def Text.view : View Text Text where
  Shows text shown := shown = text
  Stands _ mark place := place = mark

theorem Text.faithful_view : Text.view.Faithful where
  stands_mark := id
  head_peek shows := by rw [shows]; rfl
  after_peek shows := ⟨shows, id⟩
  head_next shows := by rw [shows]; rfl
  after_next shows := ⟨congrArg List.tail shows, id⟩
  front_span test shows := by rw [shows]; rfl
  after_span test shows := ⟨congrArg (List.dropWhile test) shows, id⟩
  after_rewind stands := ⟨stands, id⟩
  after_quote shows _ := ⟨shows, id⟩
  remaining shows := by rw [shows]; exact Text.length_le_byteLength _

variable {σ μ ι α : Type} {view : View σ μ}

def View.Measures (view : View σ μ) (input : σ) (size : Nat) : Prop :=
  ∃ text, view.Shows input text ∧ text.length = size

theorem View.Follows.measures {scan : Scan σ α} {onText : Scan Text α} {input later : σ} {size : Nat}
    {value : α} (follows : view.Follows [] scan onText)
    (shorter : ∀ {text rest}, onText text = .ok value rest → rest.length < text.length)
    (measured : view.Measures input size) (run : scan input = .ok value later) :
    ∃ less < size, view.Measures later less := by
  obtain ⟨text, shows, rfl⟩ := measured
  have agrees := follows input text shows fun _ member => nomatch member
  rw [run] at agrees
  generalize given : onText text = expected at agrees
  cases agrees with
  | ok passed => exact ⟨_, shorter given, _, passed.shows, rfl⟩

theorem View.shrinks_turn {step : Scan σ (Option α)} {stepOnText : Scan Text (Option α)}
    (follows : view.Follows [] step stepOnText) (advances : Advances stepOnText) :
    Loop.Shrinks (Scan.turn step) view.Measures where
  again := fun measured came => follows.measures (advances ·) measured (turn_eq_again.mp came)
  last := fun _ came => absurd came turn_ne_last

variable [Input σ μ] {input : σ} {text : Text}

/-- The loops that repeat a step until it gives nothing: over what follows a comma in the lists, over
    opening delimiters, over the value changes of a block, and over the commands of a dump. -/
inductive Repetition
  | names
  | operands
  | nested (depth : Nat)
  | connections
  | parameters
  | openings (opening : Char)
  | changes
  | declarations
  | commands

namespace Repetition

open Netlist Vcd

def Item : Repetition → Type
  | names => Text
  | operands => Operand
  | nested _ => Operand
  | connections => Association Operand
  | parameters => Association Setting
  | openings _ => Char
  | changes => ValueChange
  | declarations => Text
  | commands => Text

def step : (loop : Repetition) → Scan σ (Option loop.Item)
  | names => commaItem Name.scan
  | operands => commaItem Operand.scan
  | nested depth => commaItem (Operand.scanUpTo depth)
  | connections => commaItem Association.scanConnection
  | parameters => commaItem Association.scanParameter
  | openings opening => Enclosed.open? opening
  | changes => optionally ValueChange.scan
  | declarations => optionally Command.scanDeclaration
  | commands => optionally Command.scanSimulation

theorem follows_commaItem (faithful : view.Faithful) {item : Scan σ α} {itemOnText : Scan Text α}
    (follows : view.Follows [] item itemOnText) :
    view.Follows [] (commaItem item) (commaItem itemOnText) :=
  .bind (follows_facing faithful ',') fun _ => .ite
    (fun _ => .bind (follows_next faithful) fun _ => .bind follows fun _ => .pure _) fun _ => .pure _

theorem follows_step (faithful : view.Faithful) (loop : Repetition) :
    view.Follows [] loop.step loop.step := by
  cases loop with
  | names => exact follows_commaItem faithful (follows_name faithful)
  | operands => exact follows_commaItem faithful (follows_operand faithful)
  | nested depth => exact follows_commaItem faithful (follows_operandUpTo faithful depth)
  | connections => exact follows_commaItem faithful (follows_connection faithful)
  | parameters => exact follows_commaItem faithful (follows_parameter faithful)
  | openings opening => exact follows_open? faithful opening
  | changes => exact follows_optionally faithful (follows_change faithful)
  | declarations => exact follows_optionally faithful (follows_declaration faithful)
  | commands => exact follows_optionally faithful (follows_simulation faithful)

theorem advances_step (loop : Repetition) : Advances loop.step := by
  cases loop with
  | names => exact advances_commaItem (reads_name.passes fun _ _ _ => Nat.zero_le _)
  | operands => exact advances_commaItem passes_operand
  | nested depth => exact advances_commaItem (passes_operandUpTo depth)
  | connections => exact advances_commaItem (reads_connection.passes fun _ _ _ => Nat.zero_le _)
  | parameters => exact advances_commaItem (reads_parameter.passes fun _ _ _ => Nat.zero_le _)
  | openings opening => exact advances_open?
  | changes => exact advances_optionally passes_change
  | declarations => exact advances_optionally passes_declaration
  | commands => exact advances_optionally passes_simulation

theorem settles (faithful : view.Faithful) (loop : Repetition) (shows : view.Shows input text) :
    ∃ items result, Loop.Settles (Scan.turn loop.step) (fun limit => collect limit loop.step) gather
      input text.length items result :=
  (shrinks_turn (follows_step faithful loop) (advances_step loop)).settles (limits_collect _)
    ⟨text, shows, rfl⟩

end Repetition

namespace Vcd

def Word.turn (input : σ) : Loop.Turn σ Text (EStateM.Result Failure σ Unit) :=
  match Word.scan input with
  | .ok word rest => if word = Word.endTag then .last word (.ok () rest) else .again word rest
  | .error failure rest => .stop (.error failure rest)

theorem Word.turn_eq_again {word : Text} {rest : σ} :
    Word.turn input = .again word rest ↔ Word.scan input = .ok word rest ∧ word ≠ Word.endTag := by
  unfold Word.turn
  cases Word.scan input with
  | ok found later => grind
  | error failure later => simp

theorem Word.turn_eq_last {word : Text} {result : EStateM.Result Failure σ Unit} :
    Word.turn input = .last word result ↔
      ∃ rest, Word.scan input = .ok word rest ∧ word = Word.endTag ∧ result = .ok () rest := by
  unfold Word.turn
  cases Word.scan input with
  | ok found later => grind
  | error failure later => simp

theorem Word.turn_eq_stop {result : EStateM.Result Failure σ Unit} :
    Word.turn input = .stop result ↔
      ∃ failure rest, Word.scan input = .error failure rest ∧ result = .error failure rest := by
  unfold Word.turn
  cases Word.scan input with
  | ok found later => grind
  | error failure later => simp [eq_comm]

theorem Word.shrinks_turn (faithful : view.Faithful) :
    Loop.Shrinks (Word.turn : σ → _) view.Measures := by
  have passed : ∀ {input rest : σ} {size : Nat} {word : Text}, view.Measures input size →
      Word.scan input = .ok word rest → ∃ less < size, view.Measures rest less :=
    (follows_word faithful).measures fun given => passes_word.length given
  constructor
  case again =>
    intro input size word rest measured came
    exact passed measured (turn_eq_again.mp came).1
  case last =>
    intro input size word result measured came
    obtain ⟨rest, run, -⟩ := turn_eq_last.mp came
    obtain ⟨less, below, -⟩ := passed measured run
    omega

theorem Word.limits_turn :
    Loop.Limits (Word.turn : σ → _) Word.scanToEndUpTo gather := by
  constructor
  case stop =>
    intro input result limit stopped
    obtain ⟨failure, rest, run, rfl⟩ := turn_eq_stop.mp stopped
    simp only [scanToEndUpTo, Bind.bind, EStateM.bind, run, gather]
  case last =>
    intro input word result limit ended
    obtain ⟨rest, run, rfl, rfl⟩ := turn_eq_last.mp ended
    simp only [scanToEndUpTo, Bind.bind, EStateM.bind, run, if_true]
    rfl
  case again =>
    intro limit input word next words result goes others
    obtain ⟨run, inside⟩ := turn_eq_again.mp goes
    simp only [scanToEndUpTo, Bind.bind, EStateM.bind, run, if_neg inside, others]
    cases result <;> rfl

theorem Word.settles_turn (faithful : view.Faithful) (shows : view.Shows input text) :
    ∃ words result, Loop.Settles Word.turn Word.scanToEndUpTo gather input text.length words result :=
  (Word.shrinks_turn faithful).settles Word.limits_turn ⟨text, shows, rfl⟩

end Vcd

section Streams

open Utf8 (decode)

theorem Stream.following_isExhausted (stream : Stream) :
    stream.isExhausted.2.following = stream.following := Stream.following_peek stream

-- The equations of the loops leave their calls closed.
attribute [local irreducible] Stream.lex Stream.isExhausted

def Stream.Measures (stream : Stream) (size : Nat) : Prop := (decode stream.following).length = size

theorem Stream.Progressed.measures {stream later : Stream} {size : Nat}
    (progressed : stream.Progressed later) (measured : stream.Measures size) :
    ∃ less < size, later.Measures less := by
  obtain ⟨front, some, split⟩ := progressed.passed
  have positive := List.length_pos_iff.mpr some
  refine ⟨_, ?_, rfl⟩
  rw [← measured, split, List.length_append]
  omega

def unlessFailed {ι : Type} (items : List ι) (result : Except Failure Unit) :
    Except Failure (List ι) := do
  result
  return items

namespace Signal

def keysTurn (stream : Stream) : Loop.Turn Stream Text (Except Failure Unit) :=
  match stream.isExhausted with
  | (true, rest) => .stop rest.checkFailure.1
  | (false, rest) =>
    match rest.lex .signalKey with
    | (.ok key, later) => .again key later
    | (.error failure, later) => .stop (do
      later.checkFailure.1
      throw failure)

variable {stream later : Stream} {key : Text} {result : Except Failure Unit}

theorem keysTurn_eq_again (came : keysTurn stream = .again key later) :
    ∃ seen, stream.isExhausted = (false, seen) ∧ seen.lex .signalKey = (.ok key, later) := by
  unfold keysTurn at came
  grind

theorem keysTurn_ne_last : keysTurn stream ≠ .last key result := by
  unfold keysTurn
  grind

theorem keysUpTo_succ (limit : Nat) (stream : Stream) : keysUpTo (limit + 1) stream =
    match keysTurn stream with
    | .again key later => do return key :: (← keysUpTo limit later)
    | .last key result => unlessFailed [key] result
    | .stop result => unlessFailed [] result := by
  unfold keysTurn
  cases ended : stream.isExhausted with
  | mk exhausted seen =>
    cases exhausted with
    | true => exact keysUpTo_ended limit ended
    | false =>
      cases lexed : seen.lex .signalKey with
      | mk found later =>
        cases found with
        | ok key =>
          rw [keysUpTo_ok limit ended lexed]
          simp only [lexed]
        | error failure =>
          rw [keysUpTo_error limit ended lexed]
          simp only [lexed]
          cases later.checkFailure.1 <;> rfl

theorem shrinks_keysTurn : Loop.Shrinks keysTurn Stream.Measures where
  again := by
    intro stream size key later measured came
    obtain ⟨seen, ended, lexed⟩ := keysTurn_eq_again came
    have same := Stream.following_isExhausted stream
    rw [ended] at same
    refine (Stream.progressed_lex (by decide) (by decide) lexed).measures ?_
    rw [Stream.Measures, same]
    exact measured
  last := fun _ came => absurd came keysTurn_ne_last

theorem limits_keysTurn : Loop.Limits keysTurn keysUpTo unlessFailed := by
  constructor
  case stop =>
    intro stream result limit stopped
    rw [keysUpTo_succ, stopped]
  case last =>
    intro stream key result limit ended
    rw [keysUpTo_succ, ended]
  case again =>
    intro limit stream key later keys result goes others
    rw [keysUpTo_succ, goes]
    simp only [others]
    cases result <;> rfl

end Signal

namespace Vcd.Header

def turn (stream : Stream) : Loop.Turn Stream (Option Variable) (Except Failure Unit) :=
  match stream.lex (.vcd .declarationCommand) with
  | (.error _, rest) => .stop rest.checkFailure.1
  | (.ok command, rest) =>
    if "$var ".toList.isPrefixOf command then
      match Token.declaration command with
      | .ok declared => .again (some declared) rest
      | .error failure => .last none (.error failure)
    else if "$enddefinitions".toList.isPrefixOf command then .last none (.ok ())
    else .again none rest

variable {stream later : Stream} {found : Option Variable} {result : Except Failure Unit}

theorem turn_eq_again (came : turn stream = .again found later) :
    ∃ command, stream.lex (.vcd .declarationCommand) = (.ok command, later) := by
  unfold turn at came
  split at came
  case h_1 => contradiction
  case h_2 command rest lexed =>
    have same : rest = later := by
      repeat' split at came
      all_goals first | contradiction | exact (Loop.Turn.again.inj came).2
    exact ⟨command, same ▸ lexed⟩

theorem turn_eq_last (came : turn stream = .last found result) :
    ∃ command later, stream.lex (.vcd .declarationCommand) = (.ok command, later) := by
  unfold turn at came
  split at came
  case h_1 => contradiction
  case h_2 command rest lexed => exact ⟨command, rest, lexed⟩

theorem scanUpTo_succ (limit : Nat) (stream : Stream) : scanUpTo (limit + 1) stream =
    match turn stream with
    | .again found later => do return found.toList ++ (← scanUpTo limit later)
    | .last found result => unlessFailed found.toList result
    | .stop result => unlessFailed [] result := by
  cases lexed : stream.lex (.vcd .declarationCommand) with
  | mk outcome later =>
    cases outcome with
    | error failure =>
      rw [turn, lexed]
      exact scanUpTo_error lexed
    | ok command =>
      simp only [turn, lexed, scanUpTo_ok lexed]
      split
      · cases Token.declaration command <;> rfl
      · split
        · rfl
        · show scanUpTo limit later = (do return [] ++ (← scanUpTo limit later))
          cases scanUpTo limit later <;> rfl

theorem shrinks_turn : Loop.Shrinks turn Stream.Measures := by
  have progressed : ∀ {stream later : Stream} {command : Text},
      stream.lex (.vcd .declarationCommand) = (.ok command, later) → stream.Progressed later :=
    Stream.progressed_lex (by decide) (by decide)
  constructor
  case again =>
    intro stream size found later measured came
    obtain ⟨command, lexed⟩ := turn_eq_again came
    exact (progressed lexed).measures measured
  case last =>
    intro stream size found result measured came
    obtain ⟨command, later, lexed⟩ := turn_eq_last came
    obtain ⟨less, below, -⟩ := (progressed lexed).measures measured
    omega

theorem limits_turn :
    Loop.Limits turn scanUpTo fun items result => unlessFailed (items.filterMap id) result := by
  constructor
  case stop =>
    intro stream result limit stopped
    rw [scanUpTo_succ, stopped]
    rfl
  case last =>
    intro stream found result limit ended
    rw [scanUpTo_succ, ended]
    cases found <;> rfl
  case again =>
    intro limit stream found later items result goes others
    rw [scanUpTo_succ, goes]
    simp only [others]
    cases found <;> cases result <;> rfl

end Vcd.Header

end Streams

open Utf8 (decode)

theorem Source.length_decode_le (source : Source) : (decode source.bytes).length ≤ source.size := by
  rw [Source.size_eq_length_bytes]
  exact Utf8.length_decode_le source.bytes

theorem Signal.settles_keys (source : Source) : ∃ keys result,
    Loop.Settles keysTurn keysUpTo unlessFailed (Stream.ofSource source).skipBlanks.2
      (decode source.bytes).length keys result ∧ Signal.keys source = unlessFailed keys result := by
  have ahead := (shows_keys source).reads
  have fewer := (List.dropWhile_sublist Text.isBlank (l := decode source.bytes)).length_le
  rw [ahead] at fewer
  have measured : (Stream.ofSource source).skipBlanks.2.Measures _ := rfl
  obtain ⟨keys, result, settles⟩ := shrinks_keysTurn.settles limits_keysTurn measured
  have settles := settles.mono fewer
  exact ⟨keys, result, settles, settles.limited (Nat.lt_succ_of_le source.length_decode_le)⟩

theorem Vcd.Header.settles_scan (source : Source) : ∃ items result,
    Loop.Settles turn scanUpTo (fun items result => unlessFailed (items.filterMap id) result)
      (Stream.ofSource source) (decode source.bytes).length items result ∧
        Header.scan source = unlessFailed (items.filterMap id) result := by
  have measured : (Stream.ofSource source).Measures (decode source.bytes).length := rfl
  obtain ⟨items, result, settles⟩ := shrinks_turn.settles limits_turn measured
  exact ⟨items, result, settles, settles.limited (Nat.lt_succ_of_le source.length_decode_le)⟩

/-- A rule that gives a token moves forward and stops at the end or in front of what is no blank, unless
    it is one of the two that may pass nothing. Every loop therefore ends, after no more turns than
    there are characters ahead, and the limits that keep the loops finite are never reached. -/
theorem progress_and_termination :
    (∀ rule : Rule, rule ≠ .vcd (.exactString []) → rule ≠ .vcd .vcdDefinitions →
      (∀ text token rest : Text, rule.token text = .ok token rest → Text.Progressed text rest) ∧
      (∀ (stream : Stream) token later, rule.token stream = .ok token later →
        stream.Progressed later) ∧
      ∀ (stream : Stream) token later, stream.lex rule = (.ok token, later) →
        stream.Progressed later) ∧
    (∀ loop : Repetition,
      (∀ text : Text, ∃ items result, Loop.Settles (Scan.turn loop.step)
        (fun limit => collect limit loop.step) gather text text.length items result) ∧
      ∀ stream : Stream, ∃ items result, Loop.Settles (Scan.turn loop.step)
        (fun limit => collect limit loop.step) gather stream (decode stream.following).length
          items result) ∧
    ((∀ text : Text, ∃ words result, Loop.Settles Vcd.Word.turn Vcd.Word.scanToEndUpTo gather text
        text.length words result) ∧
      ∀ stream : Stream, ∃ words result, Loop.Settles Vcd.Word.turn Vcd.Word.scanToEndUpTo gather
        stream (decode stream.following).length words result) ∧
    ((∀ text : Text, text.length ≤ Input.remaining text) ∧
      ∀ stream : Stream, (decode stream.following).length ≤ Input.remaining stream) ∧
    (∀ source, ∃ keys result, Loop.Settles Signal.keysTurn Signal.keysUpTo unlessFailed
      (Stream.ofSource source).skipBlanks.2 (decode source.bytes).length keys result ∧
        Signal.keys source = unlessFailed keys result) ∧
    ∀ source, ∃ items result, Loop.Settles Vcd.Header.turn Vcd.Header.scanUpTo
      (fun items result => unlessFailed (items.filterMap id) result) (Stream.ofSource source)
        (decode source.bytes).length items result ∧
          Vcd.Header.scan source = unlessFailed (items.filterMap id) result := by
  refine ⟨?_, ?_, ?_, ?_, Signal.settles_keys, Vcd.Header.settles_scan⟩
  · intro rule named single
    exact ⟨fun text token rest run => Rule.progressed_token named single run,
      fun stream token later run => Stream.progressed_token named single run,
      fun stream token later lexed => Stream.progressed_lex named single lexed⟩
  · intro loop
    exact ⟨fun text => loop.settles Text.faithful_view rfl,
      fun stream => loop.settles (Stream.faithful_view _ _) (Stream.placed_self stream)⟩
  · exact ⟨fun text => Vcd.Word.settles_turn Text.faithful_view rfl,
      fun stream => Vcd.Word.settles_turn (Stream.faithful_view _ _) (Stream.placed_self stream)⟩
  · exact ⟨fun text => Text.faithful_view.remaining rfl,
      fun stream => (Stream.faithful_view _ _).remaining (Stream.placed_self stream)⟩

theorem progress_and_termination_word :
    let rule : Rule := .vcd .nonWhitespace
    let stream := Stream.ofSource [.chunk "#12 ".toUTF8.data, .chunk "\n1!".toUTF8.data]
    let names : Text := ", b, c;".toList
    let file : Source := [.chunk "a b".toUTF8.data, .interrupted, .chunk "[3]".toUTF8.data]
    (rule ≠ .vcd (.exactString []) ∧ rule ≠ .vcd .vcdDefinitions ∧
      (stream.lex rule).1 = .ok "#12".toList ∧
      decode (stream.lex rule).2.following = "1!".toList) ∧
    stream.Progressed (stream.lex rule).2 ∧
    (∀ limit, 7 < limit → collect limit (commaItem Netlist.Name.scan) names =
      .ok ["b".toList, "c".toList] ";".toList) ∧
    ∀ limit, 6 < limit → Signal.keysUpTo limit (Stream.ofSource file).skipBlanks.2 =
      .ok ["a".toList, "b[3]".toList] := by
  intro rule stream names file
  have given : (stream.lex rule).1 = .ok "#12".toList := by decide +kernel
  have left : decode (stream.lex rule).2.following = "1!".toList := by decide +kernel
  obtain ⟨progress, loops, -, -, keys, -⟩ := progress_and_termination
  refine ⟨⟨by decide, by decide, given, left⟩, ?_, ?_, ?_⟩
  · cases lexed : stream.lex rule with
    | mk found later =>
      rw [lexed] at given
      cases given
      exact (progress rule (by decide) (by decide)).2.2 stream _ _ lexed
  · obtain ⟨items, result, settles⟩ := (loops .names).1 names
    have found := settles.limited (show 7 < 8 by decide)
    intro limit above
    exact (settles.limited above).trans (found.symm.trans rfl)
  · obtain ⟨items, result, settles, -⟩ := keys file
    have size : (decode file.bytes).length = 6 := by decide +kernel
    rw [size] at settles
    have found := settles.limited (show 6 < 7 by decide)
    have seven : Signal.keysUpTo 7 (Stream.ofSource file).skipBlanks.2 =
        .ok ["a".toList, "b[3]".toList] := by decide +kernel
    intro limit above
    rw [settles.limited above, ← found, seven]

end NetTrace
