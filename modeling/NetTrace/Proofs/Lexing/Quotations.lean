import NetTrace.Proofs.Lexing.Rules
import NetTrace.Proofs.Signal.Whitelist
import NetTrace.Proofs.Text.Excerpt
import NetTrace.Proofs.Vcd.Accounts
import NetTrace.Proofs.Vcd.Decoding
import NetTrace.Proofs.Vcd.Header

namespace NetTrace

open Scan Text Account

namespace Rule

variable {σ μ : Type} [Input σ μ] {account : Account σ} {start : σ}

theorem covers_read (lawful : account.Lawful) (rule : Rule) : account.Covers start rule.read := by
  cases rule with
  | netlist phrase => exact .map _ (Netlist.covers_netlist lawful phrase)
  | character c => exact .map _ (covers_symbol lawful c)
  | wrapped inner opening closing =>
    exact .map _ (Netlist.covers_enclosed lawful _ _ fun _ => Netlist.covers_netlist lawful inner)
  | vcd phrase => exact Vcd.covers_vcd lawful phrase
  | signalKey => exact .map _ (Netlist.covers_selection lawful)

theorem covers_token (lawful : account.Lawful) (rule : Rule) : account.Covers start rule.token :=
  .bind (rule.covers_read lawful) fun _ => .bind (covers_skipBlanks lawful) fun _ => .pure _

end Rule

def Failure.Clipped (failure : Failure) : Prop := ∀ quoted ∈ failure.quotes, quoted.Clipped

namespace Account

def clipped (σ : Type) : Account σ where
  Reaches _ _ := True
  Tells _ failure := failure.Clipped

variable {σ μ α : Type} [Input σ μ] {scan : Scan σ α} {here rest : σ} {failure : Failure}

theorem lawful_clipped (clips : ∀ mark (here : σ), (Input.quote mark here).1.Clipped) :
    (clipped σ).Lawful where
  refl _ := trivial
  trans _ _ := trivial
  peek _ := trivial
  next _ := trivial
  span _ _ := trivial
  quote _ _ := trivial
  rewind _ _ := trivial
  earlier _ told := told
  quoting place here quoting := by
    intro quoted member
    rw [Failure.quotes, quoting] at member
    obtain rfl : quoted = (Input.quote (Input.mark place) here).1 := by simpa using member
    exact clips _ _
  silent _ none _ := by
    intro quoted member
    simp [Failure.quotes, none] at member
  within _ here told := by
    intro quoted member
    rcases List.mem_cons.mp member with rfl | inner
    · exact clips _ _
    · exact told quoted inner

theorem lawful_onText : (clipped Text).Lawful := lawful_clipped fun _ _ => clipped_clip _

theorem lawful_onStream : (clipped Stream).Lawful := lawful_clipped fun _ _ => clipped_clip _

theorem clipped_of_covers (covers : (clipped σ).Covers here scan)
    (refused : scan here = .error failure rest) : failure.Clipped := by
  have holds := covers here trivial
  rw [refused] at holds
  cases holds with
  | error _ told => exact told

end Account

section Operations

variable {rule : Rule} {text : Text} {stream : Stream} {failure : Failure} {source : Source}

theorem Rule.clipped_lex (refused : rule.lex text = .error failure) : failure.Clipped := by
  obtain ⟨rest, run⟩ := Rule.lex_eq_error.mp refused
  exact clipped_of_covers (rule.covers_token lawful_onText) run

theorem Stream.clipped_lex (refused : (stream.lex rule).1 = .error failure) : failure.Clipped := by
  unfold Stream.lex at refused
  cases run : rule.token stream with
  | ok token rest =>
    rw [run] at refused
    contradiction
  | error reason rest =>
    rw [run] at refused
    obtain rfl : reason = failure := Except.error.inj refused
    exact clipped_of_covers (rule.covers_token lawful_onStream) run

theorem Stream.clipped_checkFailure (failed : stream.checkFailure.1 = .error failure) :
    failure.Clipped := by
  unfold Stream.checkFailure Stream.takeFailure at failed
  cases pending : stream.failure with
  | none =>
    simp only [pending] at failed
    contradiction
  | some reason =>
    simp only [pending, Except.error.injEq] at failed
    subst failed
    exact List.forall_mem_nil _

theorem except_bind_eq_error {α β : Type} {first : Except Failure α} {next : α → Except Failure β} :
    (first >>= next) = .error failure ↔
      first = .error failure ∨ ∃ value, first = .ok value ∧ next value = .error failure := by
  cases first <;> simp [Bind.bind, Except.bind]

theorem except_bind_eq_ok {α β : Type} {first : Except Failure α} {next : α → Except Failure β}
    {result : β} : (first >>= next) = .ok result ↔
      ∃ value, first = .ok value ∧ next value = .ok result := by
  cases first <;> simp [Bind.bind, Except.bind]

theorem Signal.clipped_keysUpTo {limit : Nat} (failed : keysUpTo limit stream = .error failure) :
    failure.Clipped := by
  induction limit generalizing stream with
  | zero => contradiction
  | succ limit ih =>
    rcases keysUpTo_step limit stream with ⟨seen, step⟩ | ⟨seen, key, later, -, step⟩ |
      ⟨seen, refusal, later, lexed, step⟩
    · rw [step, except_bind_eq_error] at failed
      obtain unread | ⟨_, -, done⟩ := failed
      · exact Stream.clipped_checkFailure unread
      · contradiction
    · rw [step, except_bind_eq_error] at failed
      obtain unread | ⟨_, -, done⟩ := failed
      · exact ih unread
      · contradiction
    · rw [step, except_bind_eq_error] at failed
      obtain unread | ⟨_, -, same⟩ := failed
      · exact Stream.clipped_checkFailure unread
      · cases same
        exact Stream.clipped_lex (congrArg Prod.fst lexed)

end Operations

namespace Vcd

variable {text word command : Text} {failure : Failure}

def UnknownType (text : Text) (failure : Failure) : Prop :=
  ∃ word others, text.words = "$var".toList :: word :: others ∧
    VariableType.ofKeyword? word = none ∧
    failure = { cause := .missing "a VCD variable type" word
                contexts := [⟨"VarDeclaration", text.excerpt⟩] }

def Trailing (text : Text) (failure : Failure) : Prop :=
  ∃ declared rest, Variable.scanDeclaration text = .ok declared rest ∧
    rest.dropWhile isBlank ≠ [] ∧
    failure = { cause := .missing "end of declaration" (rest.dropWhile isBlank) }

theorem clipped_within (name : String) (clipped : failure.Clipped) :
    (failure.within name text.excerpt).Clipped :=
  lawful_onText.within name text clipped

theorem byWords_var : ByWords (Word.scanTag "var".toList) (Exactly "$var".toList) :=
  byWords_tag (by decide)

theorem declaration_refused {rest : Text}
    (refused : Variable.scanDeclaration text = .error failure rest) :
    failure.Clipped ∨ UnknownType text failure := by
  obtain ⟨-, reason, left, body, rfl⟩ := phrase_eq_error.mp refused
  rcases bind_eq_error.mp body with tag | ⟨_, middle, tag, body⟩
  · exact .inl (clipped_within _ (clipped_of_covers (covers_tag lawful_onText _) tag))
  rcases bind_eq_error.mp body with typed | ⟨word, after, typed, body⟩
  · exact .inl (clipped_within _ (clipped_of_covers (covers_word lawful_onText) typed))
  cases known : VariableType.ofKeyword? word with
  | none =>
    rw [known] at body
    cases body
    obtain ⟨first, -⟩ := byWords_var.words tag
    have second := byWords_word.words typed
    exact .inr ⟨word, _, by rw [first, second], known, rfl⟩
  | some type =>
    rw [known] at body
    refine .inl (clipped_within _ (clipped_of_covers ?_ body))
    refine .bind (covers_width lawful_onText) fun width => ?_
    refine .bind (covers_code lawful_onText) fun code => ?_
    refine .bind (covers_word lawful_onText) fun name => ?_
    refine .bind (covers_optionally lawful_onText (covers_tag lawful_onText _)) fun ended => ?_
    cases ended with
    | some _ => exact .pure _
    | none =>
      exact .bind (covers_word lawful_onText) fun _ => .bind (covers_tag lawful_onText _) fun _ =>
        .pure _

theorem declaration_of_unknown (unknown : UnknownType text failure) :
    Token.declaration text = .error failure := by
  obtain ⟨word, others, split, none, rfl⟩ := unknown
  obtain ⟨middle, tag, after⟩ := (byWords_var text _ (word :: others)).mpr ⟨split, rfl⟩
  obtain ⟨rest, typed, -⟩ := (byWords_word middle word others).mpr after
  have body : Variable.scanDeclaration text =
      .error { cause := .missing "a VCD variable type" word
               contexts := [⟨"VarDeclaration", text.excerpt⟩] } text := by
    refine phrase_eq_error.mpr ⟨rfl, { cause := .missing "a VCD variable type" word }, rest, ?_, rfl⟩
    refine bind_eq_error.mpr (.inr ⟨_, middle, tag, ?_⟩)
    refine bind_eq_error.mpr (.inr ⟨word, rest, typed, ?_⟩)
    rw [none]
    rfl
  rw [Token.declaration, body]

theorem declaration_of_trailing (trailing : Trailing text failure) :
    Token.declaration text = .error failure := by
  obtain ⟨declared, rest, run, some, rfl⟩ := trailing
  simp only [Token.declaration, run, if_neg some]

theorem declaration_cases (failed : Token.declaration text = .error failure) :
    failure.Clipped ∨ UnknownType text failure ∨ Trailing text failure := by
  unfold Token.declaration at failed
  cases run : (Variable.scanDeclaration text : EStateM.Result Failure Text Variable) with
  | error reason rest =>
    simp only [run, Except.error.injEq] at failed
    subst failed
    exact (declaration_refused run).imp_right .inl
  | ok declared rest =>
    simp only [run] at failed
    by_cases blank : rest.dropWhile isBlank = []
    · rw [if_pos blank] at failed
      contradiction
    · rw [if_neg blank] at failed
      cases failed
      exact .inr (.inr ⟨declared, rest, run, blank, rfl⟩)

theorem Declared.ends {words others : List Text} {declared : Variable}
    (all : ∀ word ∈ words, IsWord word) (reads : Declared words declared others) :
    ∃ front, words = "$var".toList :: front ++ Word.endTag :: others := by
  obtain ⟨middle, digits, first, ending, rfl, holds, -, ends⟩ := reads
  obtain ⟨front, rfl⟩ := holds.after_code fun word member =>
    all word (List.mem_cons_of_mem _ (List.mem_cons_of_mem _ member))
  rcases ends with ⟨rfl, -⟩ | ⟨range, -, rfl, -⟩
  · exact ⟨declared.type.keyword :: front ++ [first], by simp⟩
  · exact ⟨declared.type.keyword :: front ++ [first, range], by simp⟩

theorem eq_nil_of_closes {front others : List Text} (closes : Closes (front ++ Word.endTag :: others)) :
    others = [] := by
  obtain ⟨before, same, absent⟩ := closes
  rcases List.eq_nil_or_concat others with none | ⟨init, last, rfl⟩
  · exact none
  · have joined : (front ++ Word.endTag :: init) ++ [last] = before ++ [Word.endTag] := by
      simpa using same
    obtain ⟨fronts, -⟩ := List.append_inj' joined rfl
    have member : Word.endTag ∈ before := by
      rw [← fronts]
      simp
    contradiction

/-- A command that was read ends with its first `$end`, so that nothing in it follows the
    declaration. -/
theorem not_trailing {keyword : Text} {body : List Text} (closes : Closes body)
    (all : ∀ word ∈ keyword :: body, IsWord word) :
    ¬ Trailing (List.intercalate [' '] (keyword :: body)) failure := by
  intro trailing
  obtain ⟨declared, rest, run, some, -⟩ := trailing
  have reads := byWords_declared.words run
  rw [words_joined all] at reads
  obtain ⟨front, split⟩ := reads.ends all
  obtain ⟨-, rfl⟩ := List.cons.inj split
  exact some (words_eq_nil.mp (eq_nil_of_closes closes))

variable {stream later : Stream}

theorem not_trailing_of_lex (lexed : stream.lex (.vcd .declarationCommand) = (.ok command, later)) :
    ¬ Trailing command failure := by
  rcases Stream.lex_cases (.vcd .declarationCommand) (Stream.placed_self stream) with
    ⟨token, _, rest, given, expected, -⟩ | ⟨_, _, _, given, -⟩
  · rw [lexed] at given
    cases given
    rcases Header.lex_declaration _ with ⟨keyword, body, left, found, -, closes, split, -⟩ | ⟨⟨_, refused⟩, -⟩
    · rw [expected] at found
      obtain ⟨-, rfl⟩ := Prod.mk.inj (Except.ok.inj found)
      refine not_trailing closes fun word member => ?_
      have among : word ∈ keyword :: body ++ left.words := List.mem_append_left _ member
      rw [← split] at among
      exact isWord_of_mem_words among
    · rw [expected] at refused
      contradiction
  · rw [lexed] at given
    cases given

theorem Header.clipped_scanUpTo {limit : Nat} (failed : scanUpTo limit stream = .error failure) :
    failure.Clipped ∨ ∃ command, UnknownType command failure := by
  induction limit generalizing stream with
  | zero => contradiction
  | succ limit ih =>
    cases lexed : stream.lex (.vcd .declarationCommand) with
    | mk result later =>
      cases result with
      | error refusal =>
        rw [scanUpTo_error lexed, except_bind_eq_error] at failed
        obtain unread | ⟨_, -, done⟩ := failed
        · exact .inl (Stream.clipped_checkFailure unread)
        · contradiction
      | ok command =>
        rw [scanUpTo_ok lexed] at failed
        split at failed
        · rw [except_bind_eq_error] at failed
          obtain undeclared | ⟨_, -, others⟩ := failed
          · rcases declaration_cases undeclared with clipped | unknown | trailing
            · exact .inl clipped
            · exact .inr ⟨command, unknown⟩
            · exact (not_trailing_of_lex lexed trailing).elim
          · obtain refused | ⟨_, -, done⟩ := except_bind_eq_error.mp others
            · exact ih refused
            · contradiction
        · split at failed
          · contradiction
          · exact ih failed

end Vcd

/-- Whatever a rule refuses, on a text or on a stream in any state, and whatever ends a whitelist,
    all that the failure quotes is clipped. A declaration that is taken apart is refused with more
    than that in two cases, where its second word is no type and where something follows it, and a
    header only in the first of them. -/
theorem quotations_are_clipped (rule : Rule) (text : Text) (stream : Stream) (source : Source)
    (failure : Failure) :
    (rule.lex text = .error failure → failure.Clipped) ∧
    ((stream.lex rule).1 = .error failure ∨ stream.checkFailure.1 = .error failure →
      failure.Clipped) ∧
    (Signal.keys source = .error failure → failure.Clipped) ∧
    (Vcd.Token.declaration text = .error failure →
      failure.Clipped ∨ Vcd.UnknownType text failure ∨ Vcd.Trailing text failure) ∧
    (Vcd.UnknownType text failure ∨ Vcd.Trailing text failure →
      Vcd.Token.declaration text = .error failure) ∧
    (Vcd.Header.scan source = .error failure →
      failure.Clipped ∨ ∃ command, Vcd.UnknownType command failure) := by
  refine ⟨Rule.clipped_lex, fun failed => ?_, Signal.clipped_keysUpTo, Vcd.declaration_cases,
    fun exceptional => ?_, Vcd.Header.clipped_scanUpTo⟩
  · rcases failed with refused | unread
    · exact Stream.clipped_lex refused
    · exact Stream.clipped_checkFailure unread
  · rcases exceptional with unknown | trailing
    · exact Vcd.declaration_of_unknown unknown
    · exact Vcd.declaration_of_trailing trailing

theorem quotations_are_clipped_logic :
    let long := ".a(".toList ++ List.replicate 81 'b'
    let lines : Source := [.chunk "a\nb".toUTF8.data]
    let declaration := "$var logic 1 ! a $end".toList
    (∃ failure, Rule.lex (.netlist .connection) long = .error failure ∧ failure.Clipped ∧
      (".a(".toList ++ List.replicate 77 'b' ++ "...".toList) ∈ failure.quotes) ∧
    (∃ failure, ((Stream.ofSource lines).lex (.character '0')).1 = .error failure ∧
      failure.Clipped ∧ "a...".toList ∈ failure.quotes) ∧
    (∃ failure, Signal.keys [.chunk #[0x31]] = .error failure ∧ failure.Clipped) ∧
    ∃ failure, Vcd.UnknownType declaration failure ∧
      Vcd.Token.declaration declaration = .error failure := by
  intro long lines declaration
  have open' : ∃ failure, Rule.lex (.netlist .connection) long = .error failure ∧
      (".a(".toList ++ List.replicate 77 'b' ++ "...".toList) ∈ failure.quotes := ⟨_, rfl, by decide +kernel⟩
  have letter : ∃ failure, ((Stream.ofSource lines).lex (.character '0')).1 = .error failure ∧
      "a...".toList ∈ failure.quotes := ⟨_, rfl, by decide +kernel⟩
  have digit : ∃ failure, Signal.keys [.chunk #[0x31]] = .error failure := ⟨_, rfl⟩
  have unknown : ∃ failure, Vcd.UnknownType declaration failure := by
    refine ⟨_, "logic".toList, ["1".toList, "!".toList, "a".toList, "$end".toList], ?_, ?_, rfl⟩
    · decide +kernel
    · decide +kernel
  obtain ⟨failure, refused, shown⟩ := open'
  obtain ⟨failure', refused', shown'⟩ := letter
  obtain ⟨failure'', refused''⟩ := digit
  obtain ⟨reason, unknown⟩ := unknown
  obtain ⟨onText, -⟩ := quotations_are_clipped (.netlist .connection) long
    (Stream.ofSource []) [] failure
  obtain ⟨-, onStream, -⟩ := quotations_are_clipped (.character '0') []
    (Stream.ofSource lines) [] failure'
  obtain ⟨-, -, onKeys, -⟩ := quotations_are_clipped (.character '0') [] (Stream.ofSource [])
    [.chunk #[0x31]] failure''
  obtain ⟨-, -, -, -, declared, -⟩ := quotations_are_clipped (.character '0') declaration
    (Stream.ofSource []) [] reason
  exact ⟨⟨failure, refused, onText refused, shown⟩,
    ⟨failure', refused', onStream (.inl refused'), shown'⟩,
    ⟨failure'', refused'', onKeys refused''⟩, reason, unknown, declared (.inl unknown)⟩

/-- Two lines after a declaration, and a type word of 84 characters. -/
theorem declaration_unclipped :
    (∃ failure, Vcd.Token.declaration "$var wire 1 ! a $end x\ny".toList = .error failure ∧
      ¬ failure.Clipped) ∧
    ∃ failure, Vcd.Token.declaration ("$var ".toList ++ List.replicate 84 'x') = .error failure ∧
      ¬ failure.Clipped := by
  have trailing : Vcd.Token.declaration "$var wire 1 ! a $end x\ny".toList =
      .error { cause := .missing "end of declaration" "x\ny".toList } := by decide +kernel
  have typed : Vcd.Token.declaration ("$var ".toList ++ List.replicate 84 'x') =
      .error { cause := .missing "a VCD variable type" (List.replicate 84 'x')
               contexts := [⟨"VarDeclaration", excerpt ("$var ".toList ++ List.replicate 84 'x')⟩] } := by
    decide +kernel
  refine ⟨⟨_, trailing, fun clipped => ?_⟩, _, typed, fun clipped => ?_⟩
  · have oneLine := (clipped "x\ny".toList (List.mem_cons_self ..)).oneLine
    exact oneLine (by decide)
  · have short := (clipped (List.replicate 84 'x') (by simp [Failure.quotes, Cause.input?])).short
    rcases short with whole | ⟨shown, short, same⟩
    · rw [List.length_replicate] at whole
      omega
    · have lengths := congrArg List.length same
      rw [List.length_replicate, List.length_append] at lengths
      have dots : "...".toList.length = 3 := rfl
      omega

end NetTrace
