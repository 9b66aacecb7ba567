import NetTrace.Proofs.Netlist.Language
import NetTrace.Proofs.Signal.Listing
import NetTrace.Proofs.Vcd.Wire

namespace NetTrace

open Text Scan

variable {text other rest front : Text}

theorem Text.Relaid.passed {α : Type} {scan : Scan Text α} {value value' : α} {rest' : Text}
    (relaid : Relaid text other) (passes : Passes 0 scan) (run : scan text = .ok value rest)
    (run' : scan other = .ok value' rest') (same : rest'.words = rest.words) : Relaid rest rest' := by
  obtain ⟨front, rfl, -⟩ := passes run
  obtain ⟨front', rfl, -⟩ := passes run'
  exact relaid.after same

namespace Signal

open Netlist

variable {key key' name : Text} {found : List Text} {bounds : Bounds}

section Scans

theorem byWords_simple : ByWords Name.simple
    (Vcd.Front (fun value front => value = front ∧ SimpleName front) Name.continues) := by
  refine Vcd.byWords_front ?_ ?_ visible_of_continues
  · intro text rest value
    rw [simple_eq_ok]
    constructor
    · rintro ⟨split, simple, stops⟩
      exact ⟨value, split, ⟨rfl, simple⟩, stops⟩
    · rintro ⟨_, split, ⟨rfl, simple⟩, stops⟩
      exact ⟨split, simple, stops⟩
  · rintro value _ ⟨rfl, simple⟩
    exact Vcd.SimpleName.isWord simple

theorem byWords_symbol {c : Char} (visible : isBlank c = false) : ByWords (symbol c)
    (Vcd.Front (fun value front => value = c ∧ front = [c]) fun _ => false) := by
  refine Vcd.byWords_front ?_ ?_ fun holds => by contradiction
  · intro text rest value
    rw [symbol_eq_ok]
    constructor
    · rintro ⟨rfl, split⟩
      exact ⟨[value], split, ⟨rfl, rfl⟩, fun _ _ => rfl⟩
    · rintro ⟨_, split, ⟨rfl, rfl⟩, -⟩
      exact ⟨rfl, split⟩
  · rintro value _ ⟨rfl, rfl⟩
    exact ⟨List.cons_ne_nil _ _, fun d member => List.mem_singleton.mp member ▸ visible⟩

theorem symbol_transfers {c : Char} (visible : isBlank c = false) (same : text.words = other.words)
    (seen : text.dropWhile isBlank = c :: rest) :
    ∃ left : Text, other.dropWhile isBlank = c :: left ∧ left.words = rest.words := by
  obtain ⟨left, run, words⟩ := (byWords_symbol visible).transfers same (symbol_eq_ok.mpr ⟨rfl, seen⟩)
  exact ⟨left, (symbol_eq_ok.mp run).2, words⟩

theorem bound_transfers {value : UInt32} (same : text.words = other.words)
    (taken : Bound.Taken value text rest) :
    ∃ left, Bound.Taken value other left ∧ left.words = rest.words := by
  obtain ⟨digits, run, fits⟩ := taken
  obtain ⟨left, run', words⟩ := Vcd.byWords_digits.transfers same run
  exact ⟨left, ⟨digits, run', fits⟩, words⟩

theorem bounds_transfers (same : text.words = other.words)
    (run : Bounds.scan text = .ok bounds rest) :
    ∃ left, Bounds.scan other = .ok bounds left ∧ left.words = rest.words := by
  obtain ⟨opened, middle, seen, first, ending⟩ := bounds_eq_ok.mp run
  obtain ⟨opened', seen', same⟩ := symbol_transfers (by decide) same seen
  obtain ⟨middle', first', same⟩ := bound_transfers same.symm first
  rcases ending with ⟨closed, index⟩ | ⟨colon, last, seen, second, closed⟩
  · obtain ⟨left, closed', same⟩ := symbol_transfers (by decide) same.symm closed
    exact ⟨left, bounds_eq_ok.mpr ⟨opened', middle', seen', first', .inl ⟨closed', index⟩⟩, same⟩
  · obtain ⟨colon', marked, same⟩ := symbol_transfers (by decide) same.symm seen
    obtain ⟨last', second', same⟩ := bound_transfers same.symm second
    obtain ⟨left, closed', same⟩ := symbol_transfers (by decide) same.symm closed
    exact ⟨left, bounds_eq_ok.mpr ⟨opened', middle', seen', first',
      .inr ⟨colon', last', marked, second', closed'⟩⟩, same⟩

theorem range_transfers {range : Option Bounds} (same : text.words = other.words)
    (run : optionally Bounds.scan text = .ok range rest) :
    ∃ left, optionally Bounds.scan other = .ok range left ∧ left.words = rest.words := by
  cases range with
  | some bounds =>
    obtain ⟨left, run', words⟩ := bounds_transfers same (optionally_eq_some.mp run)
    exact ⟨left, optionally_eq_some.mpr run', words⟩
  | none =>
    obtain ⟨rfl, failure, left, refused⟩ := optionally_eq_none.mp run
    refine ⟨other, optionally_eq_none.mpr ⟨rfl, ?_⟩, same.symm⟩
    cases run' : (Bounds.scan other : EStateM.Result _ _ _) with
    | error failure' left' => exact ⟨failure', left', rfl⟩
    | ok bounds left' =>
      obtain ⟨_, run, -⟩ := bounds_transfers same.symm run'
      rw [refused] at run
      contradiction

end Scans

/-- The same name or key, but for the blank that ends an escaped name. -/
inductive SameKey : Text → Text → Prop
  | same (key : Text) : SameKey key key
  | escaped {body blank blank' range} : (∀ c ∈ body, isBlank c = false) → isBlank blank = true →
      isBlank blank' = true → SameKey ('\\' :: body ++ blank :: range) ('\\' :: body ++ blank' :: range)

theorem SameKey.append (same : SameKey key key') (range : Text) :
    SameKey (key ++ range) (key' ++ range) := by
  cases same with
  | same => exact .same _
  | @escaped body blank blank' tail visible blanks blanks' =>
    rw [List.append_assoc, List.append_assoc]
    exact .escaped visible blanks blanks'

section Names

theorem escaped_transfers {body : Text} {blank : Char} (relaid : Relaid text other)
    (visible : ∀ c ∈ body, isBlank c = false) (isEnd : isBlank blank = true)
    (split : text.dropWhile isBlank = '\\' :: body ++ blank :: rest) :
    ∃ (blank' : Char) (left : Text), other.dropWhile isBlank = '\\' :: body ++ blank' :: left ∧
      isBlank blank' = true ∧ left.words = rest.words := by
  have isWord : IsWord ('\\' :: body) := isWord_cons rfl visible
  have words : text.words = ('\\' :: body) :: rest.words := by
    rw [← words_dropWhile, split, words_append_blank isEnd, isWord.words]
    rfl
  have settled := relaid.dropWhile
  rcases other.words_cases with ⟨-, none⟩ | ⟨first, tail, isWord', parts, split', words'⟩
  · rw [← relaid.words, words] at none
    contradiction
  · rw [← relaid.words, words] at words'
    obtain ⟨rfl, same⟩ := List.cons.inj words'
    cases tail with
    | cons blank' left =>
      have isEnd' : isBlank blank' = true := by simpa using stops_cons.mp parts
      rw [words_cons_blank isEnd'] at same
      exact ⟨blank', left, split', isEnd', same.symm⟩
    | nil =>
      -- Nothing but blanks is left, and the other text would end with the name itself.
      have blanks : Blanks (blank :: rest) := .cons isEnd (words_eq_nil_iff_blanks.mp same)
      have ends := settled.ends (by rw [words_dropWhile, words]; exact List.cons_ne_nil _ _)
      rw [split, split', List.append_nil, endsBlank_append (List.cons_ne_nil _ _), isWord'.endsBlank,
        endsBlank_of_blanks (List.cons_ne_nil _ _) blanks] at ends
      contradiction

theorem name_transfers (relaid : Relaid text other) (run : Name.scan text = .ok name rest) :
    ∃ name' left, Name.scan other = .ok name' left ∧ SameKey name name' ∧ left.words = rest.words := by
  obtain ⟨split, named⟩ := name_eq_ok.mp run
  rcases named with ⟨simple, stops⟩ | ⟨body, blank, rfl, visible, isEnd⟩
  · obtain ⟨left, run', words⟩ :=
      byWords_simple.transfers relaid.words (simple_eq_ok.mpr ⟨split, simple, stops⟩)
    obtain ⟨split', simple', stops'⟩ := simple_eq_ok.mp run'
    exact ⟨name, left, name_eq_ok.mpr ⟨split', .inl ⟨simple', stops'⟩⟩, .same _, words⟩
  · rw [List.append_assoc, List.singleton_append] at split
    obtain ⟨blank', left, split', isEnd', words⟩ := escaped_transfers relaid visible isEnd split
    refine ⟨_, left, name_eq_ok.mpr ⟨?_, .inr ⟨body, blank', rfl, visible, isEnd'⟩⟩,
      .escaped visible isEnd isEnd', words⟩
    rw [split', List.append_assoc]
    rfl

end Names

section Keys

theorem render_eq (selection : Selection) :
    selection.render = selection.name ++ (selection.bounds.map Bounds.render).getD [] := by
  rcases selection with ⟨name, _ | bounds⟩
  · exact (List.append_nil name).symm
  · rfl

theorem lex_key_eq_ok : Rule.lex .signalKey text = .ok (rest, key) ↔
    ∃ name middle range left, Name.scan text = .ok name middle ∧
      optionally Bounds.scan middle = .ok range left ∧
      key = name ++ (range.map Bounds.render).getD [] ∧ rest = left.dropWhile isBlank := by
  rw [Rule.lex_iff_read]
  constructor
  · rintro ⟨left, run, rfl⟩
    obtain ⟨selection, scanned, rfl⟩ := map_eq_ok.mp run
    obtain ⟨name, middle, named, scanned⟩ := bind_eq_ok.mp scanned
    obtain ⟨range, left, ranged, scanned⟩ := bind_eq_ok.mp scanned
    cases scanned
    exact ⟨name, middle, range, left, named, ranged, render_eq _, rfl⟩
  · rintro ⟨name, middle, range, left, named, ranged, rfl, rfl⟩
    refine ⟨left, map_eq_ok.mpr ⟨⟨name, range⟩, ?_, render_eq _⟩, rfl⟩
    exact bind_eq_ok.mpr ⟨name, middle, named, bind_eq_ok.mpr ⟨range, left, ranged, rfl⟩⟩

theorem lex_transfers (relaid : Relaid text other) (lexed : Rule.lex .signalKey text = .ok (rest, key)) :
    ∃ left key', Rule.lex .signalKey other = .ok (left, key') ∧ SameKey key key' ∧ Relaid rest left := by
  have passes : Passes 0 Name.scan := reads_name.passes fun _ _ _ => Nat.zero_le _
  have passes' : Passes 0 (optionally Bounds.scan) :=
    .optionally (reads_bounds.passes fun _ _ _ => Nat.zero_le _)
  obtain ⟨name, middle, range, last, named, ranged, rfl, rfl⟩ := lex_key_eq_ok.mp lexed
  obtain ⟨name', middle', named', same, words⟩ := name_transfers relaid named
  have relaid := relaid.passed passes named named' words
  obtain ⟨last', ranged', words⟩ := range_transfers relaid.words ranged
  have relaid := relaid.passed passes' ranged ranged' words
  exact ⟨_, _, lex_key_eq_ok.mpr ⟨name', middle', range, last', named', ranged', rfl, rfl⟩,
    same.append _, relaid.dropWhile⟩

end Keys

/-- A signal as it is named, the character after it, and its key. An escaped name by itself takes the
    blank after it into the key; the others are keys whatever follows. -/
inductive Keyed : Text → Option Char → Text → Prop
  | simple {name next} : SimpleName name → Keyed name next name
  | escaped {body blank} : (∀ c ∈ body, isBlank c = false) → isBlank blank = true →
      Keyed ('\\' :: body) (some blank) ('\\' :: body ++ [blank])
  | ranged {name bounds range next} : SimpleName name ∨ EscapedName name → Bounds.Spelled bounds range →
      Keyed (name ++ range) next (name ++ bounds.render)

def Bare (name : Text) : Prop :=
  SimpleName name ∨ ∃ body, name = '\\' :: body ∧ ∀ c ∈ body, isBlank c = false

inductive Listing : Text → List (Text × Text) → Prop
  | done : Listing [] []
  | entry {name blanks rest key pairs} : Keyed name blanks.head? key → Blanks blanks →
      (blanks = [] → rest = []) → Listing rest pairs →
      Listing (name ++ (blanks ++ rest)) ((name, key) :: pairs)

section Listings

variable {next : Option Char} {after data : Text}

theorem begins_of_named (named : SimpleName name ∨ EscapedName name) :
    ∃ c, name.head? = some c ∧ Name.begins c = true := by
  have spells : Name.Spelled name name := ⟨named, .self name⟩
  obtain ⟨c, head, begins, -⟩ := spells.leads
  exact ⟨c, head, begins⟩

theorem Keyed.begins (keyed : Keyed name next key) :
    ∃ c, name.head? = some c ∧ Name.begins c = true := by
  cases keyed with
  | simple simple => exact begins_of_named (.inl simple)
  | escaped => exact ⟨'\\', rfl, by decide⟩
  | ranged named =>
    obtain ⟨c, head, begins⟩ := begins_of_named named
    exact ⟨c, by rw [List.head?_append, head]; rfl, begins⟩

theorem bounds_congr (alike : Alike text other) (run : Bounds.scan text = .ok bounds rest) :
    Bounds.scan other = .ok bounds rest := by
  obtain ⟨opened, middle, seen, others⟩ := bounds_eq_ok.mp run
  exact bounds_eq_ok.mpr ⟨opened, middle, alike ▸ seen, others⟩

theorem lex_named (run : Name.scan text = .ok name rest)
    (free : ∀ bounds left, Bounds.scan rest ≠ .ok bounds left) :
    Rule.lex .signalKey text = .ok (rest.dropWhile isBlank, name) :=
  Rule.lex_iff_read.mpr ⟨rest, map_ok _ (selection_alone run free), rfl⟩

theorem lex_ranged (named : SimpleName name ∨ EscapedName name) (spells : Bounds.Spelled bounds front) :
    Rule.lex .signalKey (name ++ front ++ after) =
      .ok (after.dropWhile isBlank, name ++ bounds.render) := by
  have spelled : Name.Spelled name name := ⟨named, .self name⟩
  obtain ⟨middle, run, same⟩ := takes_name spelled (spells.stops after) (.refl _)
  obtain ⟨left, run', same'⟩ := takes_bounds spells trivial same.alike
  rw [List.append_assoc]
  exact lex_key_eq_ok.mpr ⟨name, middle, some bounds, left, run, optionally_eq_some.mpr run', rfl,
    same'.alike.symm⟩

theorem Keyed.lexed (keyed : Keyed name after.head? key) (parts : Parts after)
    (free : Bare name → ∀ bounds rest, Bounds.scan after ≠ .ok bounds rest) :
    Rule.lex .signalKey (name ++ after) = .ok (after.dropWhile isBlank, key) := by
  generalize head : after.head? = next at keyed
  cases keyed with
  | simple simple =>
    have stops := parts.stops fun c holds => visible_of_continues (c := c) holds
    have seen := seen_name ⟨.inl simple, .self _⟩ (.refl (_ ++ after))
    exact lex_named (name_eq_ok.mpr ⟨seen, .inl ⟨simple, stops⟩⟩) (free (.inl simple))
  | @escaped body blank visible isEnd =>
    obtain ⟨others, rfl⟩ : ∃ others, after = blank :: others :=
      ⟨after.tail, List.eq_cons_of_mem_head? head⟩
    have escaped : EscapedName ('\\' :: body ++ [blank]) := ⟨body, blank, rfl, visible, isEnd⟩
    have seen := seen_name ⟨.inr escaped, .self _⟩ (.refl ('\\' :: body ++ [blank] ++ others))
    rw [List.append_cons, List.dropWhile_cons_of_pos isEnd]
    refine lex_named (name_eq_ok.mpr ⟨seen, .inr escaped⟩) fun bounds left run => ?_
    have alike : Alike others (blank :: others) := (List.dropWhile_cons_of_pos isEnd).symm
    exact free (.inr ⟨body, rfl, visible⟩) bounds left (bounds_congr alike run)
  | ranged named spells => exact lex_ranged named spells

theorem Listing.begins {pairs : List (Text × Text)} (listing : Listing text pairs) {c : Char}
    (head : text.head? = some c) : Name.begins c = true := by
  cases listing with
  | done => contradiction
  | entry keyed =>
    obtain ⟨first, head', begins⟩ := keyed.begins
    rw [List.head?_append, head'] at head
    obtain rfl : first = c := Option.some.inj head
    exact begins

theorem Listing.dropWhile {pairs : List (Text × Text)} (listing : Listing text pairs) {blanks : Text}
    (blank : Blanks blanks) : (blanks ++ text).dropWhile isBlank = text := by
  refine dropWhile_of_stops blank fun c head => ?_
  have visible : Name.begins c = true → isBlank c = false := visible_of_test (by decide)
  exact visible (listing.begins head)

theorem Listing.refuses {pairs : List (Text × Text)} (listing : Listing text pairs) {blanks : Text}
    (blank : Blanks blanks) (bounds : Bounds) (rest : Text) :
    Bounds.scan (blanks ++ text) ≠ .ok bounds rest := by
  intro run
  obtain ⟨opened, _, seen, -⟩ := bounds_eq_ok.mp run
  rw [listing.dropWhile blank] at seen
  have begins := listing.begins (c := '[') (by rw [seen]; rfl)
  contradiction

theorem Listing.lists {pairs : List (Text × Text)} (listing : Listing text pairs) :
    Lists text (pairs.map Prod.snd) := by
  induction listing with
  | done => exact .done
  | @entry name blanks rest key pairs keyed blank ended listing ih =>
    have head : (blanks ++ rest).head? = blanks.head? := by
      cases blanks with
      | nil => rw [ended rfl]; rfl
      | cons => rfl
    have parts : Parts (blanks ++ rest) := by
      intro c first
      rw [head] at first
      simp [blank c (List.mem_of_mem_head? first)]
    rw [← head] at keyed
    have lexed := keyed.lexed parts fun _ => listing.refuses blank
    rw [listing.dropWhile blank] at lexed
    exact .key lexed ih

theorem Listing.keyed {pairs : List (Text × Text)} (listing : Listing text pairs)
    (member : (name, key) ∈ pairs) : ∃ next, Keyed name next key := by
  induction listing with
  | done => contradiction
  | entry keyed _ _ _ ih =>
    rcases List.mem_cons.mp member with same | member
    · cases same
      exact ⟨_, keyed⟩
    · exact ih member

end Listings

end Signal

end NetTrace
