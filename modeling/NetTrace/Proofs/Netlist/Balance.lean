import NetTrace.Proofs.Lexing.Rules
import NetTrace.Proofs.Netlist.Braces
import NetTrace.Proofs.Netlist.Refusals
import NetTrace.Proofs.Netlist.RoundTrip

namespace NetTrace

open Text (Blanks Lexeme Stops Alike)

def Text.between (opening closing : Char) (opened closed : Nat) (text : Text) : Text :=
  List.replicate opened opening ++ text ++ List.replicate closed closing

namespace Text

variable {c : Char} {text : Text}

theorem between_succ (opening closing : Char) (opened closed : Nat) (text : Text) :
    between opening closing (opened + 1) closed text =
      opening :: between opening closing opened closed text := by
  simp only [between, List.replicate_succ, List.cons_append]

theorem visible_replicate_ne {d : Char} (visible : isBlank c = false) (other : c ≠ d)
    (count : Nat) : visible? (List.replicate count c) ≠ some d := by
  rw [visible?, dropWhile_replicate visible]
  intro head
  exact other (List.mem_replicate.mp (List.mem_of_mem_head? head)).2.symm

theorem closed?_replicate (visible : isBlank c = false) (count more : Nat) :
    closed? c count (List.replicate (count + more) c) = some (List.replicate more c) := by
  induction count with
  | zero => rw [Nat.zero_add]; rfl
  | succ count ih =>
    rw [Nat.add_right_comm, closed?_succ (dropWhile_replicate visible _)]
    exact ih

end Text

namespace Scan

variable {α : Type} {text rest : Text}

theorem Takes.before {scan : Scan Text α} {spelled : α → Text → Prop} {follow : Text → Prop}
    (takes : Takes scan spelled follow) (reads : Reads scan spelled) {value : α} {left : Text}
    (run : scan text = .ok value left) (ended : Blanks left)
    (follows : ∀ blanks, Blanks blanks → follow (blanks ++ rest)) :
    ∃ last, scan (text ++ rest) = .ok value last ∧ Alike last rest := by
  obtain ⟨front, blanks, rfl, blank, spells⟩ := reads run
  have alike : Alike (front ++ (blanks ++ left) ++ rest) (front ++ (blanks ++ left ++ rest)) := by
    rw [List.append_assoc]
    exact .refl _
  obtain ⟨last, run', same⟩ := takes spells (follows _ (blank.append ended)) alike
  exact ⟨last, run', same.alike.trans ((blank.append ended).alike rest)⟩

end Scan

namespace Netlist

open Scan

variable {text front rest left middle name item : Text} {pin : Text} {operand : Operand}
  {opened closed : Nat}

section Follow

theorem ends_replicate {c : Char} (breaks : Breaks c) (count : Nat) :
    Ends (List.replicate count c) := by
  obtain ⟨other, visible, tick, bracket⟩ := breaks
  exact ⟨Text.stops_replicate other count, Text.visible_replicate_ne visible tick count,
    Text.visible_replicate_ne visible bracket count⟩

theorem operand_before {c : Char} (breaks : Breaks c) (run : Operand.scan item = .ok operand left)
    (ended : Blanks left) (count : Nat) :
    ∃ last, Operand.scan (item ++ List.replicate count c) = .ok operand last ∧
      last.dropWhile Text.isBlank = List.replicate count c := by
  obtain ⟨last, run', alike⟩ := takes_operand.before reads_operand run ended
    fun _ blank => (ends_replicate breaks count).padded blank
  exact ⟨last, run', Eq.trans alike (Text.dropWhile_replicate breaks.2.1 count)⟩

theorem visible_operand (run : Operand.scan text = .ok operand left) (rest : Text) :
    (text ++ rest).visible? ≠ some '(' := by
  obtain ⟨front, blanks, rfl, -, spells⟩ := reads_operand run
  rw [List.append_assoc]
  exact spells.leads.ne (by decide) _

end Follow

section Braces

theorem operand_between (run : Operand.scan item = .ok operand left) (ended : Blanks left)
    (enough : opened ≤ closed) :
    ∃ last, Operand.scan (Text.between '\x7b' '\x7d' opened closed item) =
        .ok (.nested opened operand) last ∧
      last.dropWhile Text.isBlank = List.replicate (closed - opened) '\x7d' := by
  induction opened with
  | zero => exact operand_before (by decide) run ended closed
  | succ opened ih =>
    obtain ⟨last, inner, after⟩ := ih (by omega)
    rw [show closed - opened = closed - (opened + 1) + 1 by omega, List.replicate_succ] at after
    refine ⟨List.replicate (closed - (opened + 1)) '\x7d', ?_,
      Text.dropWhile_replicate (by decide) _⟩
    rw [Text.between_succ]
    exact operand_of_item rfl inner after

/-- If too few braces close, the innermost concatenation without one stops them all. -/
theorem operand_between_refuses (run : Operand.scan item = .ok operand left) (ended : Blanks left)
    (fewer : closed < opened) :
    RefusesFor Operand.scan (Text.between '\x7b' '\x7d' opened closed item)
      (unclosed '\x7b' '\x7d' 1 0) := by
  induction opened with
  | zero => omega
  | succ opened ih =>
    rw [Text.between_succ]
    by_cases last : closed = opened
    · subst last
      obtain ⟨left, inner, after⟩ := operand_between run ended (Nat.le_refl closed)
      rw [Nat.sub_self, List.replicate_zero] at after
      have absent : left.visible? ≠ some ',' := by
        rw [Text.visible?, after]
        decide
      refine operand_refuses_end rfl inner absent (close_refuses (by decide) Nat.one_pos ?_)
      rw [Text.dropWhile_dropWhile, after]
      rfl
    · exact operand_refuses_item rfl (ih (by omega))

end Braces

section Parentheses

theorem content_between (run : Operand.scan item = .ok operand left) (ended : Blanks left)
    (deep : 0 < opened) (alike : Alike text (Text.between '(' ')' opened closed item)) :
    ∃ inner last, Opened '(' opened text inner ∧ Operand.scan inner = .ok operand last ∧
      last.dropWhile Text.isBlank = List.replicate closed ')' := by
  obtain ⟨count, rfl⟩ : ∃ count, opened = count + 1 := ⟨opened - 1, by omega⟩
  rw [Text.between, List.append_assoc] at alike
  have delimiters := delimiters_replicate '(' (count + 1)
  obtain ⟨last, run', after⟩ := operand_before (c := ')') (by decide) run ended closed
  exact ⟨_, last, delimiters.opened (by decide) (visible_operand run _) alike,
    operand_dropWhile.mpr run', after⟩

theorem target_between (run : Operand.scan item = .ok operand left) (ended : Blanks left)
    (deep : 0 < opened) (enough : opened ≤ closed)
    (alike : Alike text (Text.between '(' ')' opened closed item)) :
    Enclosed.scan '(' ')' Operand.scan text =
      .ok ⟨opened, operand⟩ (List.replicate (closed - opened) ')') := by
  obtain ⟨inner, last, start, run', after⟩ := content_between run ended deep alike
  obtain ⟨count, rfl⟩ : ∃ count, opened = count + 1 := ⟨opened - 1, by omega⟩
  have ending : Text.closed? ')' (count + 1) last =
      some (List.replicate (closed - (count + 1)) ')') := by
    have alike : Alike last (List.replicate closed ')') :=
      Eq.trans after (Text.dropWhile_replicate (by decide) closed).symm
    have whole := Text.closed?_replicate (c := ')') (by decide) (count + 1) (closed - (count + 1))
    rw [Nat.add_sub_cancel' enough] at whole
    rw [Text.closed?_congr alike, whole]
  exact enclosed_eq_ok.mpr ⟨count, inner, operand, last, start, run', .inl ⟨ending, rfl⟩⟩

theorem target_between_refuses (run : Operand.scan item = .ok operand left) (ended : Blanks left)
    (fewer : closed < opened)
    (alike : Alike text (Text.between '(' ')' opened closed item)) :
    RefusesFor (Enclosed.scan '(' ')' Operand.scan) text (unclosed '(' ')' opened closed) := by
  obtain ⟨inner, last, start, run', after⟩ := content_between run ended (by omega) alike
  obtain ⟨count, rfl⟩ : ∃ count, opened = count + 1 := ⟨opened - 1, by omega⟩
  refine enclosed_refuses start run' (close_refuses (by decide) fewer after)
    fun more again left found => ?_
  -- No operand starts with the parenthesis that the second attempt would have to start with.
  have visible := visible_operand found []
  rw [List.append_nil] at visible
  exact visible (start.second more)

end Parentheses

section Pins

/-- What follows a name may go on with it; then the characters that do are part of the name. -/
theorem name_before {found : Text} (named : Name.Spelled pin front)
    (run : Name.scan (front ++ rest) = .ok found middle) :
    middle = rest ∨ middle = rest.dropWhile Name.continues := by
  have seen := seen_name named (.refl (front ++ rest))
  rcases named.1 with simple | escaped
  · obtain ⟨first, others, rfl, starts, all⟩ := simple
    have all' : ∀ c ∈ others ++ rest.takeWhile Name.continues, Name.continues c = true := by
      intro c member
      rcases List.mem_append.mp member with member | member
      · exact all c member
      · exact List.mem_takeWhile_imp member
    have run' : Name.scan (front ++ rest) =
        .ok (first :: (others ++ rest.takeWhile Name.continues)) (rest.dropWhile Name.continues) := by
      refine name_eq_ok.mpr ⟨?_, .inl ⟨⟨first, _, rfl, starts, all'⟩, Text.stops_dropWhile _ _⟩⟩
      rw [seen, List.cons_append, List.cons_append, List.append_assoc,
        List.takeWhile_append_dropWhile]
    exact .inr (EStateM.Result.ok.inj (run.symm.trans run')).2
  · have run' : Name.scan (front ++ rest) = .ok pin rest := name_eq_ok.mpr ⟨seen, .inr escaped⟩
    exact .inl (EStateM.Result.ok.inj (run.symm.trans run')).2

def Apart (text : Text) : Prop := Text.visible? (text.dropWhile Name.continues) ≠ some '('

theorem apart_of_stops (stops : Stops Name.continues text) (other : text.visible? ≠ some '(') :
    Apart text := by
  have same : text.dropWhile Name.continues = text :=
    Text.dropWhile_of_stops (List.forall_mem_nil _) stops
  rw [Apart, same]
  exact other

theorem apart_of_run {word : Text} (lexeme : Lexeme word front)
    (all : ∀ c ∈ word, Name.continues c = true) (stops : Stops Name.continues rest)
    (here : (front ++ rest).visible? ≠ some '(') (other : rest.visible? ≠ some '(') :
    Apart (front ++ rest) := by
  obtain ⟨blanks, blank, rfl⟩ := lexeme
  cases blanks with
  | nil =>
    rw [List.nil_append, Apart, Text.dropWhile_of_stops all stops]
    exact other
  | cons b blanks => exact apart_of_stops (stops_blank (blank b (List.mem_cons_self ..)) _) here

theorem apart_name (named : Name.Spelled name front) (stops : Stops Name.continues rest)
    (other : rest.visible? ≠ some '(') : Apart (front ++ rest) := by
  have here := named.leads.ne (c := '(') (by decide) rest
  obtain ⟨⟨first, others, rfl, starts, all⟩ | ⟨body, terminator, rfl, -⟩, lexeme⟩ := named
  · refine apart_of_run lexeme (List.forall_mem_cons.mpr ⟨continues_of_starts starts, all⟩) stops
      here other
  · exact apart_of_stops (stops_lexeme lexeme (by decide) rest) here

theorem apart_literal {value : Literal} (spells : Literal.Spelled value front)
    (stops : Stops Name.continues rest) (other : rest.visible? ≠ some '(') :
    Apart (front ++ rest) := by
  have here := spells.leads.ne (c := '(') (by decide) rest
  cases spells with
  | unsized run lexeme =>
    exact apart_of_run lexeme (fun c member => continues_of_isDigit (run.2 c member)) stops here other
  | sized run lexeme run' tick =>
    rw [List.append_assoc] at here ⊢
    refine apart_of_run lexeme (fun c member => continues_of_isDigit (run.2 c member))
      (stops_lexeme tick (by decide) rest) here ?_
    rw [visible_lexeme tick (by decide)]
    decide
  | string all lexeme => exact apart_of_stops (stops_lexeme lexeme (by decide) rest) here

theorem apart_operand (spells : Operand.Spelled operand front) (stops : Stops Name.continues rest)
    (other : rest.visible? ≠ some '(') : Apart (front ++ rest) := by
  have here := spells.leads.ne (c := '(') (by decide) rest
  cases spells with
  | literal spells => exact apart_literal spells stops other
  | net spells =>
    cases spells with
    | whole named => exact apart_name named stops other
    | @part name bounds front back named spells =>
      rw [List.append_assoc]
      exact apart_name named (spells.stops rest) (spells.leads.ne (by decide) rest)
  | concatenation lexeme items lexeme' =>
    rw [List.append_assoc, List.append_assoc] at here ⊢
    exact apart_of_stops (stops_lexeme lexeme (by decide) _) here

theorem scan_point {α : Type} (value : Scan Text α) (text : Text) :
    Association.scan value ('.' :: text) = (do
      let pin ← Name.scan
      return .named pin (← Enclosed.scan '(' ')' value) : Scan Text (Association α)) text := rfl

theorem name_between (run : Name.scan name = .ok pin left) (ended : Blanks left)
    (deep : 0 < opened) :
    ∃ last, Name.scan (name ++ Text.between '(' ')' opened closed item) = .ok pin last ∧
      Alike last (Text.between '(' ')' opened closed item) := by
  refine takes_name.before reads_name run ended fun blanks blank => stops_padded blank ?_
  obtain ⟨count, rfl⟩ : ∃ count, opened = count + 1 := ⟨opened - 1, by omega⟩
  rw [Text.between_succ]
  exact Text.stops_cons.mpr (by decide)

theorem parenthesis_of_point {association : Association Operand}
    (connected : Association.scanConnection ('.' :: text) = .ok association rest) :
    ∃ found last, Name.scan text = .ok found last ∧ last.visible? = some '(' := by
  have connected := phrase_eq_ok.mp connected
  rw [scan_point] at connected
  obtain ⟨found, last, named, runs⟩ := bind_eq_ok.mp connected
  obtain ⟨target, _, enclosed, -⟩ := bind_eq_ok.mp runs
  obtain ⟨count, inner, _, _, opened, -⟩ := enclosed_eq_ok.mp enclosed
  cases opened with
  | more seen _ => exact ⟨found, last, named, Text.visible?_cons seen⟩

theorem connection_bare {association : Association Operand} {middle : Text}
    (run : Name.scan name = .ok pin left) (ended : Blanks left)
    (run' : Operand.scan item = .ok operand middle) (ended' : Blanks middle) :
    Association.scanConnection ('.' :: (name ++ (item ++ List.replicate closed ')'))) ≠
      .ok association rest := by
  intro connected
  obtain ⟨found, last, named, parenthesis⟩ := parenthesis_of_point connected
  obtain ⟨front, blanks, rfl, blank, spells⟩ := reads_name run
  obtain ⟨front', blanks', rfl, blank', spells'⟩ := reads_operand run'
  -- The blanks after the name count as blanks before the operand.
  have spelled : Operand.Spelled operand (blanks ++ left ++ front') :=
    padded_operand (blank.append ended) spells'
  have stops : Stops Name.continues (blanks' ++ middle ++ List.replicate closed ')') :=
    stops_padded (blank'.append ended') (Text.stops_replicate (by decide) closed)
  have other : (blanks' ++ middle ++ List.replicate closed ')').visible? ≠ some '(' := by
    rw [((blank'.append ended').alike _).visible]
    exact Text.visible_replicate_ne (by decide) (by decide) closed
  have same : front ++ (blanks ++ left) ++ (front' ++ (blanks' ++ middle) ++
      List.replicate closed ')') = front ++ (blanks ++ left ++ front' ++
        (blanks' ++ middle ++ List.replicate closed ')')) := by
    simp only [List.append_assoc]
  rw [same] at named
  rcases name_before spells named with rfl | rfl
  · exact spelled.leads.ne (by decide) _ parenthesis
  · exact apart_operand spelled stops other parenthesis

theorem connection_between {middle : Text} (run : Name.scan name = .ok pin left)
    (ended : Blanks left) (run' : Operand.scan item = .ok operand middle) (ended' : Blanks middle)
    (deep : 0 < opened) (enough : opened ≤ closed) :
    Association.scanConnection ('.' :: (name ++ Text.between '(' ')' opened closed item)) =
      .ok (.named pin ⟨opened, operand⟩) (List.replicate (closed - opened) ')') := by
  obtain ⟨last, named, alike⟩ := name_between run ended deep
  refine phrase_eq_ok.mpr ?_
  rw [scan_point]
  exact bind_eq_ok.mpr ⟨pin, last, named,
    bind_eq_ok.mpr ⟨_, _, target_between run' ended' deep enough alike, rfl⟩⟩

theorem connection_between_refuses {middle : Text} (run : Name.scan name = .ok pin left)
    (ended : Blanks left) (run' : Operand.scan item = .ok operand middle) (ended' : Blanks middle)
    (fewer : closed < opened) :
    RefusesFor Association.scanConnection
      ('.' :: (name ++ Text.between '(' ')' opened closed item)) (unclosed '(' ')' opened closed) := by
  obtain ⟨last, named, alike⟩ := name_between run ended (show 0 < opened by omega)
  refine .phrase _ ?_
  rw [RefusesFor, scan_point]
  exact RefusesFor.after named (.bind (target_between_refuses run' ended' fewer alike))

end Pins

section Lexing

theorem lex_connection_between {middle : Text} (run : Name.scan name = .ok pin left)
    (ended : Blanks left) (run' : Operand.scan item = .ok operand middle) (ended' : Blanks middle) :
    (∃ rest token, (Rule.netlist .connection).lex
      ('.' :: (name ++ Text.between '(' ')' opened closed item)) = .ok (rest, token)) ↔
        0 < opened ∧ opened ≤ closed := by
  constructor
  · intro lexed
    obtain ⟨rest, token, lexed⟩ := lexed
    obtain ⟨left, read, -⟩ := Rule.lex_iff_read.mp lexed
    obtain ⟨reading, read, -⟩ := map_eq_ok.mp read
    obtain ⟨association, connected, -⟩ := map_eq_ok.mp read
    constructor
    · by_contra none
      obtain rfl : opened = 0 := by omega
      exact connection_bare run ended run' ended' connected
    · by_contra fewer
      exact (connection_between_refuses run ended run' ended' (by omega)).not_ok connected
  · intro given
    exact ⟨_, _, lex_of_read (map_ok _ (connection_between run ended run' ended' given.1 given.2)) rfl⟩

theorem lex_operand_between {middle : Text} (run : Operand.scan item = .ok operand middle)
    (ended : Blanks middle) :
    (∃ rest token, (Rule.netlist .connectedElement).lex
      (Text.between '\x7b' '\x7d' opened closed item) = .ok (rest, token)) ↔ opened ≤ closed := by
  constructor
  · intro lexed
    obtain ⟨rest, token, lexed⟩ := lexed
    obtain ⟨left, read, -⟩ := Rule.lex_iff_read.mp lexed
    obtain ⟨reading, read, -⟩ := map_eq_ok.mp read
    obtain ⟨operand, read, -⟩ := map_eq_ok.mp read
    by_contra fewer
    exact (operand_between_refuses run ended (by omega)).not_ok read
  · intro enough
    obtain ⟨last, read, after⟩ := operand_between run ended enough
    exact ⟨_, _, lex_of_read (map_ok _ read) after⟩

end Lexing

theorem render_named (count : Nat) (pin : Text) (operand : Operand) :
    (Association.named pin ⟨count, operand⟩).render Operand.render =
      '.' :: (pin ++ Text.between '(' ')' count count operand.render) := rfl

/-- A pin is connected to an operand in at least one parenthesis if at least as many close as were
    opened. The token keeps those that balance, the others are left, and the parts of the token do
    not tell how many there were; if too few close, the connection is refused for them. The same holds
    of an operand in braces, the leaves of which do not tell how many there were. -/
theorem delimiters_balance {name pin item element : Text}
    (named : (Rule.netlist .identifier).lex name = .ok ([], pin))
    (read : (Rule.netlist .connectedElement).lex item = .ok ([], element)) :
    ∃ leaves, Token.leaves element = .ok leaves ∧ ∀ opened closed,
      let connection := '.' :: (name ++ Text.between '(' ')' opened closed item)
      let braced := Text.between '\x7b' '\x7d' opened closed item
      ((∃ rest token, (Rule.netlist .connection).lex connection = .ok (rest, token)) ↔
        0 < opened ∧ opened ≤ closed) ∧
      (0 < opened → opened ≤ closed →
        let token := '.' :: (pin ++ Text.between '(' ')' opened opened element)
        (Rule.netlist .connection).lex connection =
          .ok (List.replicate (closed - opened) ')', token) ∧
        Token.connection token = .ok { pin := some pin, element }) ∧
      (closed < opened → ∃ failure, (Rule.netlist .connection).lex connection = .error failure ∧
        failure.cause = unclosed '(' ')' opened closed) ∧
      ((∃ rest token, (Rule.netlist .connectedElement).lex braced = .ok (rest, token)) ↔
        opened ≤ closed) ∧
      (opened ≤ closed →
        let token := Text.between '\x7b' '\x7d' opened opened element
        (Rule.netlist .connectedElement).lex braced =
          .ok (List.replicate (closed - opened) '\x7d', token) ∧
        Token.leaves token = .ok leaves) ∧
      (closed < opened → ∃ failure, (Rule.netlist .connectedElement).lex braced = .error failure ∧
        failure.cause = unclosed '\x7b' '\x7d' 1 0) := by
  obtain ⟨word, left, found, ended, rfl⟩ := exists_read named
  obtain ⟨pin, run, rfl⟩ := map_eq_ok.mp found
  obtain ⟨value, middle, found', ended', rfl⟩ := exists_read read
  obtain ⟨operand, run', rfl⟩ := map_eq_ok.mp found'
  obtain ⟨front, blanks, -, -, spells⟩ := reads_operand run'
  refine ⟨_, leaves_render spells, fun opened closed => ?_⟩
  refine ⟨lex_connection_between run ended run' ended', fun deep enough => ?_, fun fewer => ?_,
    lex_operand_between run' ended', fun enough => ?_, fun fewer => ?_⟩
  · have connected := connection_between run ended run' ended' deep enough
    obtain ⟨_, _, -, -, spells⟩ := reads_connection connected
    refine ⟨?_, connection_render spells⟩
    rw [lex_of_read (map_ok _ connected) (Text.dropWhile_replicate (c := ')') (by decide) _)]
    exact congrArg (fun token => Except.ok (_, token)) (render_named opened pin operand)
  · exact Rule.lex_refuses.mpr (.map _ (.map _ (connection_between_refuses run ended run' ended' fewer)))
  · obtain ⟨last, braced, after⟩ := operand_between run' ended' enough
    obtain ⟨_, _, -, -, spells⟩ := reads_operand braced
    have written := Operand.render_nested opened operand
    have leaves := leaves_render spells
    rw [Operand.leaves_nested, written] at leaves
    refine ⟨?_, leaves⟩
    rw [lex_of_read (map_ok _ braced) after]
    exact congrArg (fun token => Except.ok (_, token)) written
  · exact Rule.lex_refuses.mpr (.map _ (.map _ (operand_between_refuses run' ended' fewer)))

theorem delimiters_balance_two :
    (Rule.netlist .identifier).lex " A".toList = .ok ([], "A".toList) ∧
      (Rule.netlist .connectedElement).lex "b [3 : 3] ".toList = .ok ([], "b[3]".toList) ∧
      (Rule.netlist .connection).lex (". A((b [3 : 3] )))".toList) =
        .ok ([')'], ".A((b[3]))".toList) ∧
      Token.connection ".A((b[3]))".toList =
        .ok { pin := some "A".toList, element := "b[3]".toList } ∧
      (∃ failure, (Rule.netlist .connection).lex ". A((b [3 : 3] )".toList = .error failure ∧
        failure.cause = unclosed '(' ')' 2 1) ∧
      (Rule.netlist .connectedElement).lex "\x7b\x7bb [3 : 3] \x7d\x7d\x7d".toList =
        .ok (['\x7d'], "\x7b\x7bb[3]\x7d\x7d".toList) ∧
      Token.leaves "\x7b\x7bb[3]\x7d\x7d".toList = .ok ["b[3]".toList] := by
  have named : (Rule.netlist .identifier).lex " A".toList = .ok ([], "A".toList) := by rfl
  have read : (Rule.netlist .connectedElement).lex "b [3 : 3] ".toList =
      .ok ([], "b[3]".toList) := by rfl
  have only : Token.leaves "b[3]".toList = .ok ["b[3]".toList] := by rfl
  obtain ⟨leaves, found, balance⟩ := delimiters_balance named read
  obtain rfl : leaves = ["b[3]".toList] := Except.ok.inj (found.symm.trans only)
  obtain ⟨-, kept, -, -, kept', -⟩ := balance 2 3
  obtain ⟨-, -, refused, -⟩ := balance 2 1
  obtain ⟨lexed, parts⟩ := kept (by decide) (by decide)
  obtain ⟨lexed', parts'⟩ := kept' (by decide)
  exact ⟨named, read, lexed, parts, refused (by decide), lexed', parts'⟩

end Netlist

end NetTrace
