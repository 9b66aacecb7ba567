import NetTrace.Proofs.Lexing.Rules
import NetTrace.Proofs.Netlist.Completeness

namespace NetTrace.Netlist

open Text (Blanks Lexeme Stops Alike)
open Scan

theorem lex_of_read {phrase : Phrase} {text left rest : Text} {reading : Reading}
    (run : phrase.read text = .ok reading left) (ended : left.dropWhile Text.isBlank = rest) :
    (Rule.netlist phrase).lex text = .ok (rest, reading.render) :=
  Rule.lex_iff_read.mpr ⟨left, map_ok _ run, ended.symm⟩

theorem exists_read {phrase : Phrase} {text token : Text}
    (lexed : (Rule.netlist phrase).lex text = .ok ([], token)) :
    ∃ reading left, phrase.read text = .ok reading left ∧ Blanks left ∧ token = reading.render := by
  obtain ⟨left, run, ended⟩ := Rule.lex_iff_read.mp lexed
  obtain ⟨reading, read, rfl⟩ := map_eq_ok.mp run
  exact ⟨reading, left, read, List.dropWhile_eq_nil_iff.mp ended.symm, rfl⟩

def Closes (rest : Text) : Prop := ∀ c, rest.head? = some c → c ∈ [')', '\x7d', ';']

theorem Closes.head {rest : Text} (closes : Closes rest) {c : Char} (h : rest.head? = some c) :
    c = ')' ∨ c = '\x7d' ∨ c = ';' := by
  simpa using closes c h

theorem Closes.dropWhile {rest : Text} (closes : Closes rest) :
    rest.dropWhile Text.isBlank = rest := by
  cases rest with
  | nil => rfl
  | cons c others => rcases closes.head rfl with rfl | rfl | rfl <;> rfl

theorem Closes.endsList {rest : Text} (closes : Closes rest) : EndsList rest := by
  have visible : rest.visible? = rest.head? := by rw [Text.visible?, closes.dropWhile]
  have other : ∀ c, c ∉ [')', '\x7d', ';'] → rest.visible? ≠ some c := by
    intro c absent head
    rw [visible] at head
    exact absent (closes c head)
  have breaks : Stops Name.continues rest := by
    intro c head
    rcases closes.head head with rfl | rfl | rfl <;> rfl
  exact ⟨⟨breaks, other _ (by decide), other _ (by decide)⟩, other _ (by decide)⟩

/-- A phrase is lexed where the grammar derives it and nowhere else. What is passed is a spelling
    and the blanks after it, and the token is the canonical spelling of the same; and every spelling in
    front of the end or of something that closes is passed. -/
theorem lex_iff_derives (phrase : Phrase) :
    (∀ text token rest, (Rule.netlist phrase).lex text = .ok (rest, token) →
      ∃ spelling blanks reading, text = spelling ++ blanks ++ rest ∧ Blanks blanks ∧
        phrase.Derives reading spelling ∧ phrase.Derives reading token ∧ reading.Canonical token) ∧
    ∀ spelling reading rest, phrase.Derives reading spelling → Closes rest →
      ∃ token, phrase.Derives reading token ∧ reading.Canonical token ∧
        (Rule.netlist phrase).lex (spelling ++ rest) = .ok (rest, token) := by
  constructor
  · intro text token rest lexed
    obtain ⟨left, run, rfl⟩ := Rule.lex_iff_read.mp lexed
    obtain ⟨reading, read, rfl⟩ := map_eq_ok.mp run
    obtain ⟨spelling, blanks, rfl, blank, derives⟩ := reads_phrase phrase read
    refine ⟨spelling, blanks ++ left.takeWhile Text.isBlank, reading, ?_,
      blank.append (Text.blanks_takeWhile left), derives, derives.canonical, reading.canonical_render⟩
    rw [List.append_assoc, List.append_assoc, List.takeWhile_append_dropWhile]
  · intro spelling reading rest derives closes
    obtain ⟨left, run, same⟩ :=
      takes_phrase phrase derives closes.endsList (.refl (spelling ++ rest))
    have ended : left.dropWhile Text.isBlank = rest := Eq.trans same.alike closes.dropWhile
    exact ⟨_, derives.canonical, reading.canonical_render, lex_of_read run ended⟩

theorem lex_iff_derives_connections :
    let reading : Reading := .connections
      [.named ['A'] ⟨1, .net ⟨['b'], some ⟨3, 0⟩⟩⟩, .positional (.literal (.sized ['8'] .hex ['F']))]
    (Rule.netlist .connectionList).lex ".A( b[03:0] ), 8'hF;".toList =
      .ok (";".toList, ".A(b[3:0]), 8'hF".toList) ∧
    (∃ spelling blanks reading, ".A( b[03:0] ), 8'hF;".toList = spelling ++ blanks ++ ";".toList ∧
      Blanks blanks ∧ Phrase.connectionList.Derives reading spelling ∧
      Phrase.connectionList.Derives reading ".A(b[3:0]), 8'hF".toList ∧
      reading.Canonical ".A(b[3:0]), 8'hF".toList) ∧
    Closes ";".toList ∧ Phrase.connectionList.Derives reading ".A( b[03:0] ), 8'hF".toList ∧
    Phrase.connectionList.Derives reading ".A(b[3:0]), 8'hF".toList ∧
    reading.Canonical ".A(b[3:0]), 8'hF".toList := by
  intro reading
  have lexed : (Rule.netlist .connectionList).lex ".A( b[03:0] ), 8'hF;".toList =
      .ok (";".toList, ".A(b[3:0]), 8'hF".toList) := by rfl
  have closes : Closes ";".toList := by
    intro c head
    obtain rfl : ';' = c := Option.some.inj head
    decide
  have space : Blanks [' '] := by decide
  have derives : Phrase.connectionList.Derives reading ".A( b[03:0] ), 8'hF".toList := by
    have pin : Name.Spelled ['A'] ['A'] := ⟨.inl ⟨'A', [], rfl, rfl, by simp⟩, .self _⟩
    have name : Name.Spelled ['b'] [' ', 'b'] :=
      ⟨.inl ⟨'b', [], rfl, rfl, by simp⟩, [' '], space, rfl⟩
    have three : Bound 3 ['0', '3'] := ⟨_, by decide, by decide, .self _⟩
    have zero : Bound 0 ['0'] := ⟨_, by decide, by decide, .self _⟩
    have range := Bounds.Spelled.range (.self _) three (.self _) zero (.self _)
    have opened : Delimiters '(' 1 ['('] := .more (.self _) .none
    have closed : Delimiters ')' 1 [' ', ')'] := .more ⟨[' '], space, rfl⟩ .none
    have target := Enclosed.Spelled.intro Nat.one_pos opened (Operand.Spelled.net (.part name range)) closed
    have number : Literal.Spelled (.sized ['8'] .hex ['F']) (" 8".toList ++ "'hF".toList) :=
      .sized (by decide) ⟨[' '], space, rfl⟩ (by decide) (.self _)
    have named := Association.Spelled.named (.self ['.']) pin target
    exact .connectionList (.more named (.self [',']) (.one (.positional (.literal number))))
  obtain ⟨token, derives', canonical, lexed'⟩ := (lex_iff_derives _).2 _ _ _ derives closes
  obtain ⟨-, rfl⟩ := Prod.mk.inj (Except.ok.inj (lexed'.symm.trans lexed))
  exact ⟨lexed, (lex_iff_derives _).1 _ _ _ lexed, closes, derives, derives', canonical⟩

end NetTrace.Netlist
