import NetTrace.Proofs.Netlist.Lexemes
import NetTrace.Proofs.Text.Numeral

namespace NetTrace

open Text (Blanks Lexeme)

namespace Text

theorem commaJoin_singleton (item : Text) : commaJoin [item] = item := by
  simp [commaJoin, List.intercalate]

theorem commaJoin_cons (item next : Text) (others : List Text) :
    commaJoin (item :: next :: others) = item ++ [','] ++ ([' '] ++ commaJoin (next :: others)) := by
  simp [commaJoin, List.intercalate]

end Text

namespace Netlist

variable {α : Type}

theorem run_decimal (n : Nat) : DigitRun Char.isDigit (Numeral.decimal n) :=
  ⟨Numeral.decimal_ne_nil n, fun _ => Numeral.isDigit_of_mem_decimal⟩

theorem bound_decimal (value : UInt32) : Bound value (Numeral.decimal value.toNat) :=
  ⟨_, run_decimal _, (run_decimal _).decimal_value_eq.symm.trans (Numeral.value_decimal _), .self _⟩

theorem Name.Spelled.canonical {name text : Text} (spells : Name.Spelled name text) :
    Name.Spelled name name := ⟨spells.1, .self _⟩

theorem Literal.Spelled.canonical {value : Literal} {text : Text}
    (spells : Literal.Spelled value text) : Literal.Spelled value value.render := by
  cases spells with
  | unsized run lexeme => exact .unsized run (.self _)
  | sized run lexeme run' lexeme' => exact .sized run (.self _) run' (.self _)
  | string all lexeme => exact .string all (.self _)

theorem spelled_bounds (bounds : Bounds) : Bounds.Spelled bounds bounds.render := by
  rcases bounds with ⟨first, second⟩
  by_cases same : first = second
  · subst same
    rw [Bounds.render, if_pos rfl]
    exact .index (.self _) (bound_decimal first) (.self _)
  · rw [Bounds.render, if_neg same, List.append_assoc]
    have spells : Bounds.Spelled ⟨first, second⟩ (['['] ++ Numeral.decimal first.toNat ++ [':'] ++
        Numeral.decimal second.toNat ++ [']']) :=
      .range (.self _) (bound_decimal first) (.self _) (bound_decimal second) (.self _)
    simpa only [List.append_assoc, List.cons_append, List.nil_append] using spells

theorem Selection.Spelled.canonical {selection : Selection} {text : Text}
    (spells : Selection.Spelled selection text) : Selection.Spelled selection selection.render := by
  cases spells with
  | whole named => exact .whole named.canonical
  | part named bounds => exact .part named.canonical (spelled_bounds _)

/-- The comma of the written form is the separator, and the space after it stands before the next
    item. -/
theorem Separated.canonical {item item' : α → Text → Prop} {render : α → Text}
    (canonical : ∀ value text, item value text → item' value (render value))
    (padded : Padded item') {values : List α} {text : Text} (spells : Separated item values text) :
    Separated item' values (Text.commaJoin (values.map render)) := by
  induction spells with
  | one spells =>
    rw [List.map_singleton, Text.commaJoin_singleton]
    exact .one (canonical _ _ spells)
  | @more value values text comma rest spells lexeme others ih =>
    obtain ⟨next, values, rfl⟩ : ∃ next more, values = next :: more := by
      cases others <;> exact ⟨_, _, rfl⟩
    have space : Blanks [' '] := by decide
    rw [List.map_cons, List.map_cons, Text.commaJoin_cons]
    exact .more (canonical _ _ spells) (.self _) (padded_separated padded space ih)

theorem Operand.Spelled.canonical {operand : Operand} {text : Text}
    (spells : Operand.Spelled operand text) : Operand.Spelled operand operand.render := by
  refine spells.induct (motive := fun operand _ => Operand.Spelled operand operand.render) ?_ ?_ ?_
  · intro value text spells
    exact .literal spells.canonical
  · intro selection text spells
    exact .net spells.canonical
  · intro items opened text closed lexeme ih lexeme'
    rw [Operand.render, Operand.renderItems_eq_commaJoin]
    exact .concatenation (.self _) (ih.canonical (fun _ _ spells => spells) padded_operand) (.self _)

theorem Separated.canonicalItems {operands : List Operand} {text : Text}
    (spells : Separated Operand.Spelled operands text) :
    Separated Operand.Spelled operands (Operand.renderItems operands) := by
  rw [Operand.renderItems_eq_commaJoin]
  exact spells.canonical (fun _ _ spells => spells.canonical) padded_operand

theorem delimiters_replicate (c : Char) (count : Nat) :
    Delimiters c count (List.replicate count c) := by
  induction count with
  | zero => exact .none
  | succ count ih => exact .more (.self [c]) ih

theorem Enclosed.Spelled.canonical {opening closing : Char} {content : α → Text → Prop}
    {render : α → Text} (canonical : ∀ value text, content value text → content value (render value))
    {group : Enclosed α} {text : Text} (spells : Enclosed.Spelled opening closing content group text) :
    Enclosed.Spelled opening closing content group (group.render opening closing render) := by
  cases spells with
  | intro positive opened spells closed =>
    exact .intro positive (delimiters_replicate _ _) (canonical _ _ spells)
      (delimiters_replicate _ _)

theorem Association.Spelled.canonical {spelled : α → Text → Prop} {render : α → Text}
    (canonical : ∀ value text, spelled value text → spelled value (render value))
    {association : Association α} {text : Text} (spells : Association.Spelled spelled association text) :
    Association.Spelled spelled association (association.render render) := by
  cases spells with
  | positional spells => exact .positional (canonical _ _ spells)
  | @named pin target point text rest lexeme named group =>
    have spells : Association.Spelled spelled (.named pin target)
        (['.'] ++ pin ++ target.render '(' ')' render) :=
      .named (.self _) named.canonical (group.canonical canonical)
    exact spells

theorem Setting.Spelled.canonical {setting : Setting} {text : Text}
    (spells : Setting.Spelled setting text) : Setting.Spelled setting setting.render := by
  cases spells with
  | literal spells => exact .literal spells.canonical
  | name named => exact .name named.canonical

theorem Separated.canonicalConnections {associations : List (Association Operand)} {text : Text}
    (spells : Separated (Association.Spelled Operand.Spelled) associations text) :
    Separated (Association.Spelled Operand.Spelled) associations
      (Association.renderOperands associations) :=
  spells.canonical (fun _ _ spells => spells.canonical fun _ _ spells => spells.canonical)
    (padded_association padded_operand)

theorem Separated.canonicalParameters {associations : List (Association Setting)} {text : Text}
    (spells : Separated (Association.Spelled Setting.Spelled) associations text) :
    Separated (Association.Spelled Setting.Spelled) associations
      (Association.renderSettings associations) :=
  spells.canonical (fun _ _ spells => spells.canonical fun _ _ spells => spells.canonical)
    (padded_association padded_setting)

theorem Phrase.Derives.canonical {phrase : Phrase} {reading : Reading} {text : Text}
    (derives : phrase.Derives reading text) : phrase.Derives reading reading.render := by
  cases derives with
  | identifier named => exact .identifier named.canonical
  | simpleIdentifier simple lexeme => exact .simpleIdentifier simple (.self _)
  | escapedIdentifier escaped lexeme => exact .escapedIdentifier escaped (.self _)
  | identifierList names =>
    have spells := names.canonical (fun _ _ named => named.canonical) padded_name
    rw [List.map_id'] at spells
    exact .identifierList spells
  | immediate spells => exact .immediate spells.canonical
  | unbasedImmediate run lexeme => exact .unbasedImmediate run (.self _)
  | basedImmediate spells => exact .basedImmediate spells.canonical
  | stringLiteral spells => exact .stringLiteral spells.canonical
  | bitRange spells => exact .bitRange (spelled_bounds _)
  | connectedElement spells => exact .connectedElement spells.canonical
  | connectedElementList spells => exact .connectedElementList spells.canonicalItems
  | connection spells => exact .connection (spells.canonical fun _ _ spells => spells.canonical)
  | connectionList spells => exact .connectionList spells.canonicalConnections
  | parameterConnectedElement spells => exact .parameterConnectedElement spells.canonical
  | parameterConnection spells =>
    exact .parameterConnection (spells.canonical fun _ _ spells => spells.canonical)
  | parameterList spells => exact .parameterList spells.canonicalParameters
  | moduleParameters spells =>
    cases spells with
    | intro lexeme group =>
      exact .moduleParameters (.intro (.self ['#'])
        (group.canonical fun _ _ spells => spells.canonicalParameters))

section Canonical

theorem Literal.canonical_render (value : Literal) : value.Canonical value.render := by
  cases value with
  | unsized digits => exact .unsized
  | sized width radix digits =>
    simpa only [render, radix.letter_eq, List.append_assoc, List.cons_append, List.nil_append] using
      @Canonical.sized width radix digits
  | string body => exact .string

theorem Bounds.canonical_render (bounds : Bounds) : bounds.Canonical bounds.render := by
  rcases bounds with ⟨first, second⟩
  by_cases same : first = second
  · subst same
    rw [render, if_pos rfl]
    exact .index
  · rw [render, if_neg same]
    simpa only [Numeral.decimal, List.append_assoc, List.cons_append, List.nil_append] using
      Canonical.range same

theorem Selection.canonical_render (selection : Selection) : selection.Canonical selection.render := by
  rcases selection with ⟨name, _ | bounds⟩
  · exact .whole
  · exact .part bounds.canonical_render

mutual

theorem Operand.canonical_render : (operand : Operand) → operand.Canonical operand.render
  | .literal value => .literal value.canonical_render
  | .net selection => .net selection.canonical_render
  | .concatenation items => by
    rw [Operand.render, Operand.renderItems_eq_commaJoin]
    exact .concatenation (Operand.canonical_items items)

theorem Operand.canonical_items : (items : List Operand) →
    List.Forall₂ Operand.Canonical items (items.map Operand.render)
  | [] => .nil
  | item :: items => .cons item.canonical_render (Operand.canonical_items items)

end

theorem Setting.canonical_render (setting : Setting) : setting.Canonical setting.render := by
  cases setting with
  | literal value => exact .literal value.canonical_render
  | name name => exact .name

variable {canonical : α → Text → Prop} {render : α → Text}
  (each : ∀ value, canonical value (render value))

include each

theorem joined_render (values : List α) :
    Joined canonical values (Text.commaJoin (values.map render)) :=
  ⟨values.map render, List.forall₂_map_right_iff.mpr (List.forall₂_same.mpr fun value _ => each value), rfl⟩

theorem Enclosed.canonical_render (group : Enclosed α) :
    group.Canonical canonical (group.render '(' ')' render) := .intro (each _)

theorem Association.canonical_render (association : Association α) :
    association.Canonical canonical (association.render render) := by
  cases association with
  | positional value => exact .positional (each value)
  | named pin target => exact .named (target.canonical_render each)

end Canonical

theorem Reading.canonical_render (reading : Reading) : reading.Canonical reading.render := by
  have connection := Association.canonical_render Operand.canonical_render
  have parameter := Association.canonical_render Setting.canonical_render
  cases reading with
  | word text => exact .word
  | words texts => exact .words
  | literal value => exact .literal value.canonical_render
  | bounds value => exact .bounds value.canonical_render
  | operand value => exact .operand value.canonical_render
  | operands values =>
    rw [Reading.render, Operand.renderItems_eq_commaJoin]
    exact .operands (joined_render Operand.canonical_render values)
  | connection value => exact .connection (connection value)
  | connections values => exact .connections (joined_render connection values)
  | setting value => exact .setting value.canonical_render
  | parameter value => exact .parameter (parameter value)
  | parameters values => exact .parameters (joined_render parameter values)
  | block value => exact .block (value.canonical_render (joined_render parameter))

def Leads (admits : Char → Bool) (word text : Text) : Prop :=
  ∃ c, word.head? = some c ∧ admits c = true ∧ ∀ rest, (text ++ rest).visible? = some c

def Name.begins (c : Char) : Bool := Name.starts c || c == '\\'

def Literal.begins (c : Char) : Bool := c.isDigit || c == '"'

def Setting.begins (c : Char) : Bool := Name.begins c || Literal.begins c

def Operand.begins (c : Char) : Bool := Setting.begins c || c == '\x7b'

/-- What a phrase may start with. Only operands and lists of them start with a brace, and nothing
    starts with a parenthesis. -/
def Phrase.begins (phrase : Phrase) (c : Char) : Bool :=
  match phrase with
  | connectedElement | connectedElementList | connection | connectionList =>
    Operand.begins c || c == '.'
  | _ => Setting.begins c || c == '.' || c == '[' || c == '#'

namespace Leads

variable {admits admits' : Char → Bool} {word text : Text}

theorem mono (leads : Leads admits word text) (wider : ∀ c, admits c = true → admits' c = true) :
    Leads admits' word text := by
  rcases leads with ⟨c, head, admitted, visible⟩
  exact ⟨c, head, wider c admitted, visible⟩

theorem length_pos (leads : Leads admits word text) : 0 < text.length := by
  obtain ⟨c, -, -, visible⟩ := leads
  cases text with
  | nil =>
    have absent := visible []
    contradiction
  | cons c rest => exact Nat.succ_pos _

theorem append (leads : Leads admits word text) (more back : Text) :
    Leads admits (word ++ more) (text ++ back) := by
  rcases leads with ⟨c, head, admitted, visible⟩
  refine ⟨c, by rw [List.head?_append, head]; rfl, admitted, fun rest => ?_⟩
  rw [List.append_assoc]
  exact visible _

theorem of_lexeme {c : Char} {others : Text} (lexeme : Lexeme (c :: others) text)
    (visible : Text.isBlank c = false) (admitted : admits c = true) :
    Leads admits (c :: others) text :=
  ⟨c, rfl, admitted, fun _ => Text.visible?_cons (lexeme.seen visible (.refl _))⟩

theorem visible (leads : Leads admits word text) (rest : Text) :
    (text ++ rest).visible? = word.head? := by
  rcases leads with ⟨c, head, -, visible⟩
  rw [visible, head]

theorem ne (leads : Leads admits word text) {c : Char} (refused : admits c = false) (rest : Text) :
    (text ++ rest).visible? ≠ some c := by
  rcases leads with ⟨d, -, admitted, visible⟩
  intro same
  rw [visible, Option.some.injEq] at same
  rw [← same, admitted] at refused
  contradiction

theorem separated {item : α → Text → Prop} {render : α → Text}
    (leads : ∀ value text, item value text → Leads admits (render value) text) {values : List α}
    (spells : Separated item values text) :
    Leads admits (Text.commaJoin (values.map render)) text := by
  cases spells with
  | one spells =>
    rw [List.map_singleton, Text.commaJoin_singleton]
    exact leads _ _ spells
  | @more value values text comma rest spells lexeme others =>
    obtain ⟨next, values, rfl⟩ : ∃ next more, values = next :: more := by
      cases others <;> exact ⟨_, _, rfl⟩
    rw [List.map_cons, List.map_cons, Text.commaJoin_cons, List.append_assoc, List.append_assoc]
    exact (leads _ _ spells).append _ _

end Leads

theorem Name.Spelled.leads {name text : Text} (spells : Name.Spelled name text) :
    Leads Name.begins name text := by
  rcases spells with ⟨⟨first, others, rfl, starts, -⟩ | ⟨body, terminator, rfl, -⟩, lexeme⟩
  · have starts : Name.starts first = true := starts
    have visible := visible_of_continues (continues_of_starts starts)
    exact .of_lexeme lexeme visible (by rw [Name.begins, starts]; rfl)
  · exact .of_lexeme lexeme (by decide) rfl

theorem leads_digits {digits text : Text} (run : DigitRun Char.isDigit digits)
    (lexeme : Lexeme digits text) : Leads Literal.begins digits text := by
  rcases run.exists_cons with ⟨first, others, rfl, digit⟩
  have visible := visible_of_continues (continues_of_isDigit digit)
  exact .of_lexeme lexeme visible (by rw [Literal.begins, digit]; rfl)

theorem Literal.Spelled.leads {value : Literal} {text : Text} (spells : Literal.Spelled value text) :
    Leads Literal.begins value.render text := by
  cases spells with
  | unsized run lexeme => exact leads_digits run lexeme
  | sized run lexeme run' lexeme' => exact (leads_digits run lexeme).append _ _
  | string all lexeme => exact .of_lexeme lexeme (by decide) rfl

theorem Bounds.Spelled.leads {bounds : Bounds} {text : Text} (spells : Bounds.Spelled bounds text) :
    Leads (· == '[') bounds.render text := by
  have head : bounds.render.head? = some '[' := by
    rw [Bounds.render]
    split <;> rfl
  cases spells with
  | index lexeme bound lexeme' =>
    refine ⟨'[', head, rfl, fun rest => ?_⟩
    rw [List.append_assoc, List.append_assoc]
    exact Text.visible?_cons (lexeme.seen (by decide) (.refl _))
  | range lexeme bound colon bound' lexeme' =>
    refine ⟨'[', head, rfl, fun rest => ?_⟩
    simp only [List.append_assoc]
    exact Text.visible?_cons (lexeme.seen (by decide) (.refl _))

theorem Selection.Spelled.leads {selection : Selection} {text : Text}
    (spells : Selection.Spelled selection text) : Leads Name.begins selection.render text := by
  cases spells with
  | whole named => exact named.leads
  | part named bounds => exact named.leads.append _ _

theorem Operand.Spelled.leads {operand : Operand} {text : Text}
    (spells : Operand.Spelled operand text) : Leads Operand.begins operand.render text := by
  cases spells with
  | literal spells =>
    exact spells.leads.mono fun c begins => by simp [Operand.begins, Setting.begins, begins]
  | net spells =>
    exact spells.leads.mono fun c begins => by simp [Operand.begins, Setting.begins, begins]
  | concatenation lexeme items lexeme' =>
    have leads : Leads Operand.begins ['\x7b'] _ := .of_lexeme lexeme (by decide) rfl
    rw [List.append_assoc]
    exact leads.append _ _

theorem Setting.Spelled.leads {setting : Setting} {text : Text}
    (spells : Setting.Spelled setting text) : Leads Setting.begins setting.render text := by
  cases spells with
  | literal spells => exact spells.leads.mono fun c begins => by simp [Setting.begins, begins]
  | name named => exact named.leads.mono fun c begins => by simp [Setting.begins, begins]

theorem Association.Spelled.leads {spelled : α → Text → Prop} {render : α → Text}
    {admits : Char → Bool} (leads : ∀ value text, spelled value text → Leads admits (render value) text)
    {association : Association α} {text : Text} (spells : Association.Spelled spelled association text) :
    Leads (fun c => admits c || c == '.') (association.render render) text := by
  cases spells with
  | positional spells => exact (leads _ _ spells).mono fun c begins => by simp [begins]
  | named lexeme pin target =>
    have point : Leads (fun c => admits c || c == '.') ['.'] _ :=
      .of_lexeme lexeme (by decide) (by simp)
    rw [List.append_assoc]
    exact point.append _ _

theorem Phrase.Derives.leads {phrase : Phrase} {reading : Reading} {text : Text}
    (derives : phrase.Derives reading text) : Leads phrase.begins reading.render text := by
  have names : ∀ c, Name.begins c = true →
      (Setting.begins c || c == '.' || c == '[' || c == '#') = true :=
    fun c begins => by simp [Setting.begins, begins]
  have literals : ∀ c, Literal.begins c = true →
      (Setting.begins c || c == '.' || c == '[' || c == '#') = true :=
    fun c begins => by simp [Setting.begins, begins]
  have operands : ∀ c, Operand.begins c = true → (Operand.begins c || c == '.') = true :=
    fun c begins => by simp [begins]
  have settings : ∀ c, (Setting.begins c || c == '.') = true →
      (Setting.begins c || c == '.' || c == '[' || c == '#') = true :=
    fun c begins => by rw [begins]; rfl
  cases derives with
  | identifier named => exact named.leads.mono names
  | simpleIdentifier simple lexeme => exact (Name.Spelled.leads ⟨.inl simple, lexeme⟩).mono names
  | escapedIdentifier escaped lexeme => exact (Name.Spelled.leads ⟨.inr escaped, lexeme⟩).mono names
  | identifierList spells =>
    have leads := Leads.separated (fun _ _ named => Name.Spelled.leads named) spells
    rw [List.map_id'] at leads
    exact leads.mono names
  | immediate spells => exact spells.leads.mono literals
  | unbasedImmediate run lexeme => exact (leads_digits run lexeme).mono literals
  | basedImmediate spells => exact spells.leads.mono literals
  | stringLiteral spells => exact spells.leads.mono literals
  | bitRange spells =>
    exact spells.leads.mono fun c begins => by simp [Phrase.begins, beq_iff_eq.mp begins]
  | connectedElement spells => exact spells.leads.mono operands
  | connectedElementList spells =>
    rw [Reading.render, Operand.renderItems_eq_commaJoin]
    exact (Leads.separated (fun _ _ spells => Operand.Spelled.leads spells) spells).mono operands
  | connection spells => exact spells.leads fun _ _ spells => spells.leads
  | connectionList spells =>
    exact Leads.separated (fun _ _ spells => spells.leads fun _ _ spells => spells.leads) spells
  | parameterConnectedElement spells =>
    exact spells.leads.mono fun c begins => settings c (by simp [begins])
  | parameterConnection spells => exact (spells.leads fun _ _ spells => spells.leads).mono settings
  | parameterList spells =>
    have leads := Leads.separated
      (fun _ _ spells => Association.Spelled.leads (fun _ _ spells => spells.leads) spells) spells
    exact leads.mono settings
  | moduleParameters spells =>
    cases spells with
    | intro lexeme group =>
      have mark : Leads (Phrase.begins .moduleParameters) ['#'] _ :=
        .of_lexeme lexeme (by decide) (by simp [Phrase.begins])
      exact mark.append _ _

end Netlist

end NetTrace
