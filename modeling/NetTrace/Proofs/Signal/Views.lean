import NetTrace.Proofs.Netlist.Items
import NetTrace.Proofs.Netlist.Ranges
import NetTrace.Proofs.Signal.Layout

namespace NetTrace.Signal

open Scan Text
open Netlist

variable {text rest key token name after : Text} {bounds : Bounds} {descriptor : Descriptor}

section Elements

theorem lex_key_iff : Rule.lex .signalKey text = .ok (rest, token) ↔ ∃ selection left,
    Selection.scan text = .ok selection left ∧ token = selection.render ∧
      rest = left.dropWhile isBlank := Rule.lex_map rfl

theorem lex_element_iff : Rule.lex (.netlist .connectedElement) text = .ok (rest, token) ↔
    ∃ operand left, Operand.scan text = .ok operand left ∧ token = operand.render ∧
      rest = left.dropWhile isBlank := Rule.lex_netlist .operand rfl

theorem lex_name_iff : Rule.lex (.netlist .identifier) text = .ok (rest, token) ↔
    ∃ name left, Name.scan text = .ok name left ∧ token = name ∧ rest = left.dropWhile isBlank :=
  Rule.lex_netlist .word rfl

theorem lex_range_iff : Rule.lex (.netlist .bitRange) text = .ok (rest, token) ↔ ∃ bounds left,
    Bounds.scan text = .ok bounds left ∧ token = bounds.render ∧ rest = left.dropWhile isBlank :=
  Rule.lex_netlist .bounds rfl

theorem literal_of_begins {c : Char} (begins : Name.begins c = true) :
    (c.isDigit || c == '"') = false := by
  rw [Name.begins, Bool.or_eq_true, beq_iff_eq] at begins
  rcases begins with starts | rfl
  · rw [digit_of_starts starts, Bool.false_or, beq_eq_false_iff_ne]
    rintro rfl
    contradiction
  · decide

theorem operand_of_begins {c : Char} (visible : text.visible? = some c) (begins : Name.begins c = true)
    {operand : Operand} : Operand.scan text = .ok operand rest ↔
      ∃ selection, Selection.scan text = .ok selection rest ∧ operand = .net selection := by
  rw [operand_eq_ok]
  constructor
  · intro runs
    rcases runs with ⟨opened, _, _, seen, -⟩ | ⟨_, run, -⟩ | net
    · rw [Text.visible?_cons seen] at visible
      rw [← Option.some.inj visible] at begins
      contradiction
    · obtain ⟨d, visible', kind⟩ := visible_literal run
      obtain rfl : d = c := Option.some.inj (visible'.symm.trans visible)
      rw [literal_of_begins begins] at kind
      contradiction
    · exact net
  · exact fun net => .inr (.inr net)

theorem element_of_begins {c : Char} (visible : text.visible? = some c)
    (begins : Name.begins c = true) : Rule.lex .signalKey text = .ok (rest, token) ↔
      Rule.lex (.netlist .connectedElement) text = .ok (rest, token) := by
  rw [lex_key_iff, lex_element_iff]
  constructor
  · intro given
    obtain ⟨selection, left, run, rfl, rfl⟩ := given
    exact ⟨.net selection, left, (operand_of_begins visible begins).mpr ⟨selection, run, rfl⟩, rfl, rfl⟩
  · intro given
    obtain ⟨operand, left, run, rfl, rfl⟩ := given
    obtain ⟨selection, scanned, rfl⟩ := (operand_of_begins visible begins).mp run
    exact ⟨selection, left, scanned, rfl, rfl⟩

end Elements

section Descriptors

structure Describes (descriptor : Descriptor) (key after rest : Text) : Prop where
  raw : descriptor.raw = key
  ordered : descriptor.low ≤ descriptor.high
  indexed : descriptor.usesIndex = true ↔
    ∃ left token, Rule.lex (.netlist .bitRange) after = .ok (left, token)
  whole : descriptor.usesIndex = false →
    key = descriptor.base ∧ descriptor.high = 0 ∧ descriptor.low = 0 ∧ rest = after
  ranged : descriptor.usesIndex = true → ∃ bounds : Bounds, key = descriptor.base ++ bounds.render ∧
    (bounds = ⟨descriptor.high, descriptor.low⟩ ∨ bounds = ⟨descriptor.low, descriptor.high⟩) ∧
    Rule.lex (.netlist .bitRange) after = .ok (rest, bounds.render)
  single : descriptor.usesIndex = true → descriptor.high = descriptor.low →
    key = descriptor.base ++ '[' :: Numeral.decimal descriptor.high.toNat ++ [']']

theorem ordered_ofBounds (bounds : Bounds) :
    (BitRange.ofBounds bounds).low ≤ (BitRange.ofBounds bounds).high := by
  have between := BitRange.between_ofBounds bounds
  rw [UInt32.le_iff_toNat_le, between.low, between.high]
  omega

theorem bounds_either (bounds : Bounds) :
    bounds = ⟨(BitRange.ofBounds bounds).high, (BitRange.ofBounds bounds).low⟩ ∨
      bounds = ⟨(BitRange.ofBounds bounds).low, (BitRange.ofBounds bounds).high⟩ := by
  have between := BitRange.between_ofBounds bounds
  obtain ⟨first, second⟩ := bounds
  have high := between.high
  have low := between.low
  rcases Nat.le_total second.toNat first.toNat with descending | ascending
  · left
    rw [Nat.max_eq_left descending] at high
    rw [Nat.min_eq_right descending] at low
    rw [UInt32.toNat_inj.mp high, UInt32.toNat_inj.mp low]
  · right
    rw [Nat.max_eq_right ascending] at high
    rw [Nat.min_eq_left ascending] at low
    rw [UInt32.toNat_inj.mp high, UInt32.toNat_inj.mp low]

theorem single_render (bounds : Bounds)
    (same : (BitRange.ofBounds bounds).high = (BitRange.ofBounds bounds).low) :
    bounds.render = '[' :: Numeral.decimal (BitRange.ofBounds bounds).high.toNat ++ [']'] := by
  have equal : bounds = ⟨(BitRange.ofBounds bounds).high, (BitRange.ofBounds bounds).high⟩ := by
    rcases bounds_either bounds with either | either
    · rwa [← same] at either
    · rwa [← same] at either
  generalize (BitRange.ofBounds bounds).high = bound at equal
  subst equal
  exact if_pos rfl

variable {middle left : Text}

theorem describes_whole (absent : ∃ failure left, Bounds.scan middle = .error failure left) :
    Describes { raw := name, base := name, range := none } name (middle.dropWhile isBlank)
      (middle.dropWhile isBlank) where
  raw := rfl
  ordered := UInt32.le_refl 0
  indexed := by
    constructor
    · intro some
      contradiction
    · intro lexed
      obtain ⟨_, _, lexed⟩ := lexed
      obtain ⟨bounds, left, run, -⟩ := lex_range_iff.mp lexed
      obtain ⟨failure, left', refused⟩ := absent
      rw [bounds_congr (.dropWhile middle) run] at refused
      contradiction
  whole _ := ⟨rfl, rfl, rfl, rfl⟩
  ranged some := by contradiction
  single some := by contradiction

theorem describes_ranged (run : Bounds.scan middle = .ok bounds left) :
    Describes { raw := name ++ bounds.render, base := name, range := some (BitRange.ofBounds bounds) }
      (name ++ bounds.render) (middle.dropWhile isBlank) (left.dropWhile isBlank) := by
  have lexed : Rule.lex (.netlist .bitRange) (middle.dropWhile isBlank) =
      .ok (left.dropWhile isBlank, bounds.render) :=
    lex_range_iff.mpr ⟨bounds, left, bounds_congr (Alike.dropWhile middle).symm run, rfl, rfl⟩
  exact {
    raw := rfl
    ordered := ordered_ofBounds bounds
    indexed := ⟨fun _ => ⟨_, _, lexed⟩, fun _ => rfl⟩
    whole := fun none => by contradiction
    ranged := fun _ => ⟨bounds, rfl, bounds_either bounds, lexed⟩
    single := fun _ same => by
      rw [single_render bounds same, List.append_assoc]
      rfl }

theorem descriptor_of_key (lexed : Rule.lex .signalKey text = .ok (rest, key)) :
    ∃ descriptor after, Token.descriptor key = .ok descriptor ∧
      Rule.lex (.netlist .identifier) text = .ok (after, descriptor.base) ∧
      Describes descriptor key after rest := by
  obtain ⟨selection, left, run, rfl, rfl⟩ := lex_key_iff.mp lexed
  obtain ⟨name, middle, named, ranged⟩ := bind_eq_ok.mp run
  obtain ⟨range, left', found, same⟩ := bind_eq_ok.mp ranged
  cases same
  refine ⟨_, middle.dropWhile isBlank, descriptor_of_scan run,
    lex_name_iff.mpr ⟨name, middle, named, rfl, rfl⟩, ?_⟩
  cases range with
  | none =>
    obtain ⟨rfl, absent⟩ := optionally_eq_none.mp found
    exact describes_whole absent
  | some bounds => exact describes_ranged (optionally_eq_some.mp found)

end Descriptors

/-- A text that starts with a name is lexed as a key where it is lexed as a net, with the same token,
    and every text that starts with an identifier has a key. The descriptor of a key has the
    identifier for its base and tells the range after it where one is lexed. -/
theorem keys_are_nets :
    (∀ text c, text.visible? = some c → Name.begins c = true → ∀ rest token,
      Rule.lex .signalKey text = .ok (rest, token) ↔
        Rule.lex (.netlist .connectedElement) text = .ok (rest, token)) ∧
    (∀ text, (∃ rest key, Rule.lex .signalKey text = .ok (rest, key)) ↔
      ∃ after name, Rule.lex (.netlist .identifier) text = .ok (after, name)) ∧
    ∀ text rest key, Rule.lex .signalKey text = .ok (rest, key) → ∃ descriptor after,
      Token.descriptor key = .ok descriptor ∧
      Rule.lex (.netlist .identifier) text = .ok (after, descriptor.base) ∧
      Describes descriptor key after rest := by
  refine ⟨fun text c visible begins rest token => element_of_begins visible begins, fun text => ?_,
    fun text rest key lexed => descriptor_of_key lexed⟩
  constructor
  · intro lexed
    obtain ⟨rest, key, lexed⟩ := lexed
    obtain ⟨descriptor, after, -, named, -⟩ := descriptor_of_key lexed
    exact ⟨after, descriptor.base, named⟩
  · intro lexed
    obtain ⟨after, name, lexed⟩ := lexed
    obtain ⟨_, middle, named, rfl, -⟩ := lex_name_iff.mp lexed
    obtain ⟨range, left, ranged⟩ := optionally_goes Bounds.scan middle
    exact ⟨_, _, lex_key_eq_ok.mpr ⟨_, middle, range, left, named, ranged, rfl, rfl⟩⟩

theorem keys_are_nets_brackets :
    let text := " \\a[3] [0:07];".toList
    let key := "\\a[3] [0:7]".toList
    Rule.lex .signalKey text = .ok (";".toList, key) ∧
      Rule.lex (.netlist .connectedElement) text = .ok (";".toList, key) ∧
      (∃ descriptor, Token.descriptor key = .ok descriptor ∧ descriptor.raw = key ∧
        descriptor.base = "\\a[3] ".toList ∧ descriptor.usesIndex = true) ∧
      ∃ descriptor, Token.descriptor "x".toList = .ok descriptor ∧
        Describes descriptor "x".toList "[4294967296]".toList "[4294967296]".toList ∧
        descriptor.usesIndex = false := by
  intro text key
  have lexed : Rule.lex .signalKey text = .ok (";".toList, key) := by decide +kernel
  have named : Rule.lex (.netlist .identifier) text = .ok ("[0:07];".toList, "\\a[3] ".toList) := by
    decide +kernel
  have ranged : Rule.lex (.netlist .bitRange) "[0:07];".toList = .ok (";".toList, "[0:7]".toList) := by
    decide +kernel
  have alone : Rule.lex .signalKey "x [4294967296]".toList =
      .ok ("[4294967296]".toList, "x".toList) := by decide +kernel
  have named' : Rule.lex (.netlist .identifier) "x [4294967296]".toList =
      .ok ("[4294967296]".toList, "x".toList) := by decide +kernel
  have known : Token.descriptor "x".toList =
      .ok { raw := "x".toList, base := "x".toList, range := none } := by decide +kernel
  obtain ⟨agree, -, described⟩ := keys_are_nets
  obtain ⟨descriptor, after, decoded, base, describes⟩ := described _ _ _ lexed
  obtain ⟨descriptor', after', decoded', base', describes'⟩ := described _ _ _ alone
  obtain ⟨rfl, same⟩ := Prod.mk.inj (Except.ok.inj (named.symm.trans base))
  obtain ⟨rfl, -⟩ := Prod.mk.inj (Except.ok.inj (named'.symm.trans base'))
  obtain rfl := Except.ok.inj (known.symm.trans decoded')
  exact ⟨lexed, (agree _ '\\' rfl rfl _ _).mp lexed, ⟨descriptor, decoded, describes.raw, same.symm,
    describes.indexed.mpr ⟨_, _, ranged⟩⟩, _, known, describes', rfl⟩

end NetTrace.Signal
