import Mathlib.Data.List.Forall2
import NetTrace.Proofs.Lexing.Quotations

namespace NetTrace

open Scan Text Account

variable {α β : Type} {scan : Scan Text α} {name : String} {text start here : Text} {places : List Text}
  {failure reason : Failure}

def Inwards (places : List Text) : Prop := places.IsChain fun outer inner => inner <:+ outer

theorem inwards_cons {place : Text} :
    Inwards (start :: place :: places) ↔ place <:+ start ∧ Inwards (place :: places) :=
  List.isChain_cons_cons

theorem Inwards.earlier (inwards : Inwards (here :: places)) (ending : here <:+ start) :
    Inwards (start :: places) := by
  cases places with
  | nil => exact .singleton _
  | cons place places =>
    obtain ⟨first, others⟩ := inwards_cons.mp inwards
    exact inwards_cons.mpr ⟨first.trans ending, others⟩

/-- On the way from a text are its endings. What is quoted are the beginnings of such endings, each
    within the one before, and the cause is in the text. -/
def Account.trail : Account Text where
  Reaches start here := here <:+ start
  Tells start failure := failure.cause.isUnavailable = false ∧
    ∃ places, failure.quotes = places.map excerpt ∧ Inwards (start :: places)

theorem Account.lawful_trail : trail.Lawful where
  refl _ := List.suffix_rfl
  trans first second := second.trans first
  peek _ := List.suffix_rfl
  next _ := List.tail_suffix _
  span _ _ := List.dropWhile_suffix _
  quote _ _ := List.suffix_rfl
  rewind marked _ := marked
  earlier reached told := by
    obtain ⟨available, places, quoted, inwards⟩ := told
    exact ⟨available, places, quoted, inwards.earlier reached⟩
  quoting place _ quoting := by
    refine ⟨Cause.available_of_quoting (quoting _), [place], ?_, ?_⟩
    · rw [Failure.quotes, quoting]
      rfl
    · exact inwards_cons.mpr ⟨List.suffix_rfl, .singleton _⟩
  silent _ none available := by
    refine ⟨available, [], ?_, .singleton _⟩
    rw [Failure.quotes, none]
    rfl
  within name _ told := by
    obtain ⟨available, places, quoted, inwards⟩ := told
    refine ⟨available, _ :: places, ?_, inwards_cons.mpr ⟨List.suffix_rfl, inwards⟩⟩
    exact congrArg _ quoted

theorem trail_of_within (told : trail.Tells text (reason.within name text.excerpt)) :
    trail.Tells text reason := by
  obtain ⟨available, places, quoted, inwards⟩ := told
  cases places with
  | nil => contradiction
  | cons place places =>
    obtain ⟨first, others⟩ := inwards_cons.mp inwards
    exact ⟨available, places, (List.cons.inj quoted).2, others.earlier first⟩

section Entered

def Enters (name : String) (scan : Scan Text α) : Prop :=
  ∀ ⦃text failure rest⦄, scan text = .error failure rest →
    ∃ reason, failure = Failure.within reason name text.excerpt

theorem enters_phrase (name : String) (scan : Scan Text α) : Enters name (Scan.phrase name scan) := by
  intro text failure rest refused
  obtain ⟨-, reason, _, -, same⟩ := phrase_eq_error.mp refused
  exact ⟨reason, same⟩

theorem Enters.map (enters : Enters name scan) (f : α → β) : Enters name (f <$> scan) :=
  fun _ _ _ refused => enters (map_eq_error.mp refused)

theorem Netlist.enters_phrase (phrase : Netlist.Phrase) :
    Enters phrase.name (phrase.read : Scan Text Netlist.Reading) := by
  have operand : Enters "ConnectedElement" (Netlist.Operand.scan : Scan Text Netlist.Operand) :=
    fun _ _ _ refused => NetTrace.enters_phrase _ _ refused
  cases phrase with
  | connectedElement => exact operand.map _
  | _ => exact (NetTrace.enters_phrase _ _).map _

theorem Vcd.enters_phrase (phrase : Vcd.Phrase) :
    Enters phrase.name (phrase.read : Scan Text Text) := by
  cases phrase with
  | value => exact (NetTrace.enters_phrase _ _).map _
  | scalarValueChange => exact (NetTrace.enters_phrase _ _).map _
  | binaryVectorValueChange => exact (NetTrace.enters_phrase _ _).map _
  | realVectorValueChange => exact (NetTrace.enters_phrase _ _).map _
  | valueChange => exact (NetTrace.enters_phrase _ _).map _
  | var => exact (NetTrace.enters_phrase _ _).map _
  | _ => exact NetTrace.enters_phrase _ _

def Rule.isPhrase : Rule → Bool
  | netlist _ => true
  | character _ => false
  | wrapped .. => true
  | vcd _ => true
  | signalKey => false

theorem Rule.enters_read {rule : Rule} (isPhrase : rule.isPhrase = true) :
    Enters rule.name (rule.read : Scan Text Text) := by
  cases rule with
  | netlist phrase => exact (Netlist.enters_phrase phrase).map _
  | character c => contradiction
  | wrapped inner opening closing => exact (NetTrace.enters_phrase _ _).map _
  | vcd phrase => exact Vcd.enters_phrase phrase
  | signalKey => contradiction

theorem Rule.enters_token {rule : Rule} (isPhrase : rule.isPhrase = true) :
    Enters rule.name (rule.token : Scan Text Text) := by
  intro text failure rest refused
  rcases bind_eq_error.mp refused with refused | ⟨_, _, -, ended⟩
  · exact Rule.enters_read isPhrase refused
  · cases ended

end Entered

theorem shown_map_excerpt (places : List Text) : List.Forall₂ Shown places (places.map excerpt) :=
  List.forall₂_map_right_iff.mpr (List.forall₂_same.mpr fun _ _ => shown_iff.mpr rfl)

theorem message_eq (failure : Failure) : failure.message = failure.cause.message ++
    String.join (failure.contexts.reverse.map Context.line) := by
  obtain ⟨cause, contexts⟩ := failure
  induction contexts with
  | nil => simp [Failure.message]
  | cons context contexts ih =>
    have outer : Failure.message ⟨cause, context :: contexts⟩ =
        Failure.message ⟨cause, contexts⟩ ++ context.line := rfl
    rw [outer, ih]
    simp [String.join_append, String.append_assoc]

structure Failure.Traced (failure : Failure) (name : String) (text : Text) : Prop where
  outermost : failure.contexts.head? = some ⟨name, text.excerpt⟩
  available : failure.cause.isUnavailable = false
  message : failure.message = failure.cause.message ++
    String.join (failure.contexts.reverse.map fun context =>
      "\nFailed to parse " ++ context.phrase ++ " from: " ++ String.ofList context.input)
  trail : failure.trail.reverse = failure.contexts.reverse.map Context.phrase
  oneLine : ∀ context ∈ failure.contexts, '\n' ∉ context.input
  quotes : ∃ places, failure.quotes = (text :: places).map excerpt ∧
    List.Forall₂ Shown (text :: places) failure.quotes ∧ Inwards (text :: places)

/-- A phrase of a netlist or a dump, or one in delimiters, that refuses a text is the outermost that
    the failure tells of, with the text itself. The message tells the cause, which lies in the text,
    and then a line for each phrase from the innermost outwards. From the outermost inwards what is
    quoted starts nowhere before what was quoted earlier, and shows the line that starts there. -/
theorem failures_tell_their_trail (rule : Rule) (isPhrase : rule.isPhrase = true) (text : Text)
    (failure : Failure) (refused : rule.lex text = .error failure) :
    failure.Traced rule.name text := by
  have clipped := Rule.clipped_lex refused
  obtain ⟨rest, run⟩ := Rule.lex_eq_error.mp refused
  obtain ⟨reason, rfl⟩ := Rule.enters_token isPhrase run
  have told : trail.Tells text (reason.within rule.name text.excerpt) := by
    have holds := rule.covers_token lawful_trail text List.suffix_rfl
    rw [run] at holds
    cases holds with
    | error _ told => exact told
  obtain ⟨available, places, quoted, inwards⟩ := trail_of_within told
  have quoted' : (reason.within rule.name text.excerpt).quotes = (text :: places).map excerpt :=
    congrArg _ quoted
  exact {
    outermost := rfl
    available
    message := message_eq _
    trail := List.map_reverse.symm
    oneLine := fun context member =>
      (clipped _ (List.mem_append_left _ (List.mem_map_of_mem member))).oneLine
    quotes := ⟨places, quoted', quoted' ▸ shown_map_excerpt _, inwards⟩ }

theorem failures_tell_their_trail_nested :
    (∃ failure, Rule.lex (.netlist .connection) ".a(\x7bb, [3]\x7d)".toList = .error failure ∧
      failure.Traced "Connection" ".a(\x7bb, [3]\x7d)".toList ∧
      failure.trail = ["Connection", "WrappedElement", "ConnectedElement", "Concatenation",
        "ConnectedElementList", "ConnectedElement", "Identifier", "SimpleIdentifier"]) ∧
    (∃ failure, Rule.lex (.wrapped .connectedElement '(' ')') " ((a)".toList = .error failure ∧
      failure.Traced "WrappedElement" " ((a)".toList ∧ failure.trail = ["WrappedElement"]) ∧
    ∃ failure, Rule.lex (.vcd .binaryVectorValueChange) "b01".toList = .error failure ∧
      failure.Traced "BinaryVectorValueChange" "b01".toList := by
  have item : ∃ failure, Rule.lex (.netlist .connection) ".a(\x7bb, [3]\x7d)".toList = .error failure ∧
      failure.trail = ["Connection", "WrappedElement", "ConnectedElement", "Concatenation",
        "ConnectedElementList", "ConnectedElement", "Identifier", "SimpleIdentifier"] := ⟨_, rfl, rfl⟩
  have group : ∃ failure, Rule.lex (.wrapped .connectedElement '(' ')') " ((a)".toList = .error failure ∧
      failure.trail = ["WrappedElement"] := ⟨_, rfl, rfl⟩
  have vector : ∃ failure, Rule.lex (.vcd .binaryVectorValueChange) "b01".toList = .error failure :=
    ⟨_, rfl⟩
  obtain ⟨failure, refused, trail⟩ := item
  obtain ⟨failure', refused', trail'⟩ := group
  obtain ⟨failure'', refused''⟩ := vector
  exact ⟨⟨failure, refused, failures_tell_their_trail _ rfl _ _ refused, trail⟩,
    ⟨failure', refused', failures_tell_their_trail _ rfl _ _ refused', trail'⟩,
    failure'', refused'', failures_tell_their_trail _ rfl _ _ refused''⟩

end NetTrace
