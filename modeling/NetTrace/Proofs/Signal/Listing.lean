import NetTrace.Proofs.Signal.Whitelist
import NetTrace.Proofs.Text.Order

namespace NetTrace.Signal

inductive Lists : Text → List Text → Prop
  | done : Lists [] []
  | key {text rest key keys} : Rule.lex .signalKey text = .ok (rest, key) → Lists rest keys →
      Lists text (key :: keys)

inductive Refuses : Text → Failure → Prop
  | here {text reason} : text ≠ [] → Rule.lex .signalKey text = .error reason → Refuses text reason
  | later {text rest key reason} : Rule.lex .signalKey text = .ok (rest, key) →
      Refuses rest reason → Refuses text reason

variable {bytes : List UInt8} {total limit : Nat} {text rest key : Text} {stream : Stream}
  {found : List Text} {reason failure : Failure} {source : Source}

section Reference

theorem ne_nil_of_lex (lexed : Rule.lex .signalKey text = .ok (rest, key)) : text ≠ [] := by
  rintro rfl
  have shorter := passes_key.length (Rule.lex_eq_ok.mp lexed)
  simp only [List.length_nil] at shorter
  omega

theorem Lists.unique {other : List Text} (lists : Lists text found) (lists' : Lists text other) :
    found = other := by
  induction lists generalizing other with
  | done =>
    cases lists' with
    | done => rfl
    | key lexed _ => exact (ne_nil_of_lex lexed rfl).elim
  | key lexed _ ih =>
    cases lists' with
    | done => exact (ne_nil_of_lex lexed rfl).elim
    | key lexed' others =>
      rw [lexed] at lexed'
      obtain ⟨rfl, rfl⟩ := Prod.mk.inj (Except.ok.inj lexed')
      rw [ih others]

theorem Lists.not_refuses (lists : Lists text found) : ¬ Refuses text reason := by
  induction lists with
  | done =>
    intro refuses
    cases refuses with
    | here some _ => exact some rfl
    | later lexed _ => exact ne_nil_of_lex lexed rfl
  | key lexed _ ih =>
    intro refuses
    cases refuses with
    | here _ refused =>
      rw [lexed] at refused
      contradiction
    | later lexed' refuses =>
      rw [lexed] at lexed'
      obtain ⟨rfl, rfl⟩ := Prod.mk.inj (Except.ok.inj lexed')
      exact ih refuses

end Reference

section Streams

theorem keysUpTo_cases (shows : (Stream.view bytes total).Shows stream text)
    (plain : stream.Under (Stream.Awaits none)) (above : text.length < limit) :
    (∃ found, keysUpTo limit stream = .ok found ∧ Lists text found) ∨
      ∃ failure reason, keysUpTo limit stream = .error failure ∧ Refuses text reason ∧
        failure.unquoted = reason.unquoted := by
  -- By induction on the limit: a key that is read leaves less of the text.
  induction limit generalizing stream text with
  | zero => omega
  | succ limit ih =>
    by_cases ended : text = []
    · subst ended
      have kept := plain.peek (Stream.lasting_awaits none)
      have unread : stream.peek.2.failure = none := kept.elim And.right And.right
      refine .inl ⟨[], ?_, .done⟩
      rw [keysUpTo_nil limit shows, Stream.checkFailure, Stream.takeFailure, unread]
      rfl
    · rcases keysUpTo_some shows ended with ⟨key, left, later, lexed, after, kept, given⟩ |
        ⟨reason, failure, lexed, same, given⟩
      · have shorter := passes_key.length (Rule.lex_eq_ok.mp lexed)
        rw [given]
        rcases ih after (kept (Stream.lasting_awaits none) plain) (by omega) with
          ⟨keys, run, lists⟩ | ⟨failure, reason, run, refuses, same⟩
        · exact .inl ⟨key :: keys, by rw [run]; rfl, .key lexed lists⟩
        · exact .inr ⟨failure, reason, by rw [run]; rfl, .later lexed refuses, same⟩
      · exact .inr ⟨failure, reason, given limit, .here ended lexed, same plain⟩

theorem keysUpTo_congr {limit' : Nat} (shows : (Stream.view bytes total).Shows stream text)
    (above : text.length < limit) (above' : text.length < limit') :
    keysUpTo limit stream = keysUpTo limit' stream := by
  induction limit generalizing stream text limit' with
  | zero => omega
  | succ limit ih =>
    obtain ⟨less, rfl⟩ : ∃ less, limit' = less + 1 := ⟨limit' - 1, by omega⟩
    by_cases ended : text = []
    · subst ended
      rw [keysUpTo_nil limit shows, keysUpTo_nil less shows]
    · rcases keysUpTo_some shows ended with ⟨key, left, later, lexed, after, -, given⟩ |
        ⟨reason, failure, -, -, given⟩
      · have shorter := passes_key.length (Rule.lex_eq_ok.mp lexed)
        have same := ih after (by omega) (show left.length < less by omega)
        rw [given, given, same]
      · rw [given, given]

end Streams

section Sources

theorem keys_cases (lasting : source.failure? = none) (encoded : source.bytes = Utf8.encode text) :
    (∃ found, keys source = .ok found ∧ Lists (text.dropWhile Text.isBlank) found) ∨
      ∃ failure reason, keys source = .error failure ∧
        Refuses (text.dropWhile Text.isBlank) reason ∧ failure.unquoted = reason.unquoted := by
  have shows := shows_keys source
  have above := length_keys source
  have plain : (Stream.ofSource source).skipBlanks.2.Under (Stream.Awaits none) :=
    Stream.Under.span (Stream.lasting_awaits none) (.inl ⟨lasting, rfl⟩) Text.isBlank
  rw [encoded, Utf8.decode_encode] at above
  rw [encoded, Utf8.decode_encode, Utf8.length_encode] at shows
  exact keysUpTo_cases shows plain above

theorem keys_eq_ok_iff (lasting : source.failure? = none)
    (encoded : source.bytes = Utf8.encode text) :
    keys source = .ok found ↔ Lists (text.dropWhile Text.isBlank) found := by
  rcases keys_cases lasting encoded with ⟨keys', run, lists⟩ | ⟨failure, reason, run, refuses, -⟩
  · rw [run, Except.ok.injEq]
    constructor
    · rintro rfl
      exact lists
    · exact fun lists' => lists.unique lists'
  · rw [run]
    refine ⟨fun same => ?_, fun lists => (lists.not_refuses refuses).elim⟩
    contradiction

theorem refused_of_keys (lasting : source.failure? = none)
    (encoded : source.bytes = Utf8.encode text) (run : keys source = .error failure) :
    ∃ reason, Refuses (text.dropWhile Text.isBlank) reason ∧
      failure.unquoted = reason.unquoted := by
  rcases keys_cases lasting encoded with ⟨keys', run', -⟩ | ⟨failure', reason, run', refuses, same⟩
  · rw [run] at run'
    contradiction
  · rw [run] at run'
    cases run'
    exact ⟨reason, refuses, same⟩

end Sources

section Sets

theorem mem_dropRepeats {items : List Text} : key ∈ dropRepeats items ↔ key ∈ items := by
  fun_induction dropRepeats items with
  | case1 => rfl
  | case2 => rfl
  | case3 item others ih => rw [ih]; simp
  | case4 item next others _ ih => rw [List.mem_cons, ih, ← List.mem_cons]

theorem nodup_dropRepeats {items : List Text}
    (sorted : items.Pairwise fun left right => Text.precedes left right = true) :
    (dropRepeats items).Nodup := by
  fun_induction dropRepeats items with
  | case1 => exact List.nodup_nil
  | case2 => exact List.nodup_cons.mpr ⟨List.not_mem_nil, List.nodup_nil⟩
  | case3 item others ih => exact ih sorted.of_cons
  | case4 item next others differ ih =>
    refine List.nodup_cons.mpr ⟨fun member => ?_, ih sorted.of_cons⟩
    -- An item that comes again stands before the next one and after it.
    obtain ⟨first, sorted⟩ := List.pairwise_cons.mp sorted
    rcases List.mem_cons.mp (mem_dropRepeats.mp member) with same | later
    · exact differ same
    · have before := first next (List.mem_cons_self ..)
      have after := (List.pairwise_cons.mp sorted).1 item later
      exact differ (Text.precedes_antisymm before after)

theorem whitelist_eq (path : Text) (source : Source) :
    whitelist path (.ok source) = (keys source).map fun found =>
      dropRepeats (found.mergeSort Text.precedes) := by
  show (keys source >>= _) = _
  cases keys source <;> rfl

theorem nodup_sorted (found : List Text) : (dropRepeats (found.mergeSort Text.precedes)).Nodup := by
  apply nodup_dropRepeats
  exact List.pairwise_mergeSort Text.precedes_trans Text.precedes_total found

theorem mem_sorted : key ∈ dropRepeats (found.mergeSort Text.precedes) ↔ key ∈ found :=
  mem_dropRepeats.trans List.mem_mergeSort

end Sets

/-- However the bytes of a text arrive, the keys of a source are those that are read from the text
    one after the other, in their order and as often as they stand there; otherwise the failure is
    that of the first key that is refused. The bound on the number of keys is never reached. As a set
    the file has the same keys, or the same failure. -/
theorem keys_eq_listed (lasting : source.failure? = none)
    (encoded : source.bytes = Utf8.encode text) :
    let start := text.dropWhile Text.isBlank
    (∀ found, keys source = .ok found ↔ Lists start found) ∧
    (∀ failure, keys source = .error failure →
      ∃ reason, Refuses start reason ∧ failure.unquoted = reason.unquoted) ∧
    (∀ limit, source.size < limit →
      keysUpTo limit (Stream.ofSource source).skipBlanks.2 = keys source) ∧
    ∀ path, (∀ found, Lists start found → ∃ set, whitelist path (.ok source) = .ok set ∧
        set.Nodup ∧ ∀ key, key ∈ set ↔ key ∈ found) ∧
      ∀ failure, whitelist path (.ok source) = .error failure ↔ keys source = .error failure := by
  intro start
  refine ⟨fun found => keys_eq_ok_iff lasting encoded,
    fun failure run => refused_of_keys lasting encoded run, fun limit enough => ?bound,
    fun path => ⟨fun found lists => ?set, fun failure => ?failed⟩⟩
  case bound =>
    have above := length_keys source
    exact keysUpTo_congr (shows_keys source) (by omega) above
  case set =>
    refine ⟨_, ?_, nodup_sorted found, fun key => mem_sorted⟩
    rw [whitelist_eq, (keys_eq_ok_iff lasting encoded).mpr lists]
    rfl
  case failed =>
    rw [whitelist_eq]
    cases keys source <;> simp [Except.map]

/-- A range is split between two chunks, an escaped name keeps the line feed after it, and a key
    stands there twice. -/
theorem keys_eq_listed_split :
    let text := "\n a [3\t:00] \\u.v\n0a".toList
    let listed := "\n a [3\t:00] \\u.v\na[3:0]".toList
    let source : Source := [.chunk "\n a [3\t".toUTF8.data, .interrupted,
      .chunk ":00] \\u.v\na[3:0]".toUTF8.data]
    let refused : Source := [.chunk "\n a [3\t:00] \\u.v".toUTF8.data, .chunk "\n0a".toUTF8.data]
    let found := ["a[3:0]".toList, "\\u.v\n".toList, "a[3:0]".toList]
    (source.failure? = none ∧ source.bytes = Utf8.encode listed) ∧
      (refused.failure? = none ∧ refused.bytes = Utf8.encode text) ∧
      Lists (listed.dropWhile Text.isBlank) found ∧
      (∃ set, whitelist [] (.ok source) = .ok set ∧ set.Nodup ∧ ∀ key, key ∈ set ↔ key ∈ found) ∧
      ∃ reason, Refuses (text.dropWhile Text.isBlank) reason ∧
        reason.trail = ["Identifier", "SimpleIdentifier"] := by
  intro text listed source refused found
  have lasting : source.failure? = none := by decide
  have lasting' : refused.failure? = none := by decide
  have encoded : source.bytes = Utf8.encode listed := by decide +kernel
  have encoded' : refused.bytes = Utf8.encode text := by decide +kernel
  have run : keys source = .ok found := by decide +kernel
  have run' : keys refused = .error { cause := .missing "a letter or '_'" "0a".toList
                                      contexts := [⟨"Identifier", "0a".toList⟩,
                                        ⟨"SimpleIdentifier", "0a".toList⟩] } := by
    decide +kernel
  obtain ⟨ok, -, -, set⟩ := keys_eq_listed lasting encoded
  obtain ⟨-, error, -⟩ := keys_eq_listed lasting' encoded'
  have lists := (ok found).mp run
  obtain ⟨reason, refuses, same⟩ := error _ run'
  have trail := congrArg Failure.trail same
  rw [Failure.trail_unquoted, Failure.trail_unquoted] at trail
  exact ⟨⟨lasting, encoded⟩, ⟨lasting', encoded'⟩, lists, (set []).1 found lists, reason, refuses,
    trail.symm⟩

end NetTrace.Signal
