import Mathlib.Data.List.Forall2
import NetTrace.Netlist.Phrase
import NetTrace.Proofs.Text.Blanks
import NetTrace.Proofs.Text.Numeral

namespace NetTrace

namespace Netlist

open Text (Blanks Lexeme)

variable {α : Type}

def SimpleName (name : Text) : Prop :=
  ∃ first others, name = first :: others ∧ (first.isAlpha || first == '_') = true ∧
    ∀ c ∈ others, (c.isAlphanum || c == '_' || c == '$') = true

/-- A backslash, no blank, and the one blank that ends the name and belongs to it. -/
def EscapedName (name : Text) : Prop :=
  ∃ body terminator, name = '\\' :: body ++ [terminator] ∧ (∀ c ∈ body, Text.isBlank c = false) ∧
    Text.isBlank terminator = true

def Name.Spelled (name text : Text) : Prop := (SimpleName name ∨ EscapedName name) ∧ Lexeme name text

def DigitRun (isDigit : Char → Bool) (digits : Text) : Prop :=
  digits ≠ [] ∧ ∀ c ∈ digits, isDigit c = true

instance (isDigit : Char → Bool) (digits : Text) : Decidable (DigitRun isDigit digits) :=
  decidable_of_iff (digits ≠ [] ∧ digits.all isDigit = true) (by simp [DigitRun])

/-- What stands between the tick and the digits of a sized number. -/
def Radix.letter : Radix → Char
  | .binary => 'b'
  | .octal => 'o'
  | .decimal => 'd'
  | .hex => 'h'

def Radix.figures : Radix → Text
  | .binary => "01".toList
  | .octal => "01234567".toList
  | .decimal => "0123456789".toList
  | .hex => "0123456789abcdefABCDEF".toList

inductive Literal.Spelled : Literal → Text → Prop
  | unsized {digits text} : DigitRun Char.isDigit digits → Lexeme digits text →
      Spelled (.unsized digits) text
  | sized {width radix digits text rest} : DigitRun Char.isDigit width → Lexeme width text →
      DigitRun radix.figures.contains digits → Lexeme ('\'' :: radix.letter :: digits) rest →
      Spelled (.sized width radix digits) (text ++ rest)
  | string {body text} : (∀ c ∈ body, c ≠ '"') → Lexeme ('"' :: body ++ ['"']) text →
      Spelled (.string body) text

def Numbered (n : Nat) (text : Text) : Prop :=
  ∃ digits, DigitRun Char.isDigit digits ∧ Numeral.positional 10 digits = n ∧ Lexeme digits text

def Bound (value : UInt32) (text : Text) : Prop := Numbered value.toNat text

inductive Bounds.Spelled : Bounds → Text → Prop
  | index {value opened text closed} : Lexeme ['['] opened → Bound value text →
      Lexeme [']'] closed → Spelled ⟨value, value⟩ (opened ++ text ++ closed)
  | range {first second opened text colon text' closed} : Lexeme ['['] opened →
      Bound first text → Lexeme [':'] colon → Bound second text' → Lexeme [']'] closed →
      Spelled ⟨first, second⟩ (opened ++ text ++ colon ++ text' ++ closed)

inductive Selection.Spelled : Selection → Text → Prop
  | whole {name text} : Name.Spelled name text → Spelled ⟨name, none⟩ text
  | part {name bounds text rest} : Name.Spelled name text → bounds.Spelled rest →
      Spelled ⟨name, some bounds⟩ (text ++ rest)

inductive Separated (item : α → Text → Prop) : List α → Text → Prop
  | one {value text} : item value text → Separated item [value] text
  | more {value values text comma rest} : item value text → Lexeme [','] comma →
      Separated item values rest → Separated item (value :: values) (text ++ comma ++ rest)

inductive Operand.Spelled : Operand → Text → Prop
  | literal {value text} : Literal.Spelled value text → Spelled (.literal value) text
  | net {selection text} : Selection.Spelled selection text → Spelled (.net selection) text
  | concatenation {items opened text closed} : Lexeme ['\x7b'] opened →
      Separated Operand.Spelled items text → Lexeme ['\x7d'] closed →
      Spelled (.concatenation items) (opened ++ text ++ closed)

theorem Operand.Spelled.induct {motive : Operand → Text → Prop}
    (literal : ∀ value text, Literal.Spelled value text → motive (.literal value) text)
    (net : ∀ selection text, Selection.Spelled selection text → motive (.net selection) text)
    (concatenation : ∀ items opened text closed, Lexeme ['\x7b'] opened →
      Separated motive items text → Lexeme ['\x7d'] closed →
      motive (.concatenation items) (opened ++ text ++ closed))
    {operand : Operand} {text : Text} (spells : Operand.Spelled operand text) :
    motive operand text := by
  refine @Operand.Spelled.rec (fun value text _ => motive value text)
    (fun items text _ => Separated motive items text) ?_ ?_ ?_ ?_ ?_ operand text spells
  · intro value text spells
    exact literal value text spells
  · intro selection text spells
    exact net selection text spells
  · intro items opened text closed lexeme _ lexeme' ih
    exact concatenation items opened text closed lexeme ih lexeme'
  · intro value text _ ih
    exact .one ih
  · intro value values text comma rest _ lexeme _ ih ih'
    exact .more ih lexeme ih'

inductive Delimiters (c : Char) : Nat → Text → Prop
  | none : Delimiters c 0 []
  | more {count text rest} : Lexeme [c] text → Delimiters c count rest →
      Delimiters c (count + 1) (text ++ rest)

inductive Enclosed.Spelled (opening closing : Char) (content : α → Text → Prop) :
    Enclosed α → Text → Prop
  | intro {depth value opened text closed} : 0 < depth → Delimiters opening depth opened →
      content value text → Delimiters closing depth closed →
      Spelled opening closing content ⟨depth, value⟩ (opened ++ text ++ closed)

inductive Association.Spelled (spelled : α → Text → Prop) : Association α → Text → Prop
  | positional {value text} : spelled value text → Spelled spelled (.positional value) text
  | named {pin target point text rest} : Lexeme ['.'] point → Name.Spelled pin text →
      Enclosed.Spelled '(' ')' spelled target rest →
      Spelled spelled (.named pin target) (point ++ text ++ rest)

inductive Setting.Spelled : Setting → Text → Prop
  | literal {value text} : Literal.Spelled value text → Spelled (.literal value) text
  | name {name text} : Name.Spelled name text → Spelled (.name name) text

inductive ParameterBlock.Spelled : ParameterBlock → Text → Prop
  | intro {block mark text} : Lexeme ['#'] mark →
      Enclosed.Spelled '(' ')' (Separated (Association.Spelled Setting.Spelled)) block text →
      Spelled block (mark ++ text)

/-- Blanks in front of a text do not change what it spells. -/
def Padded (spelled : α → Text → Prop) : Prop :=
  ∀ ⦃value blanks text⦄, Blanks blanks → spelled value text → spelled value (blanks ++ text)

theorem padded_name : Padded Name.Spelled :=
  fun _ _ _ blank spelled => ⟨spelled.1, spelled.2.padded blank⟩

theorem padded_literal : Padded Literal.Spelled := by
  intro value blanks text blank spelled
  cases spelled with
  | unsized run lexeme => exact .unsized run (lexeme.padded blank)
  | sized run lexeme run' lexeme' =>
    rw [← List.append_assoc]
    exact .sized run (lexeme.padded blank) run' lexeme'
  | string body lexeme => exact .string body (lexeme.padded blank)

theorem padded_bounds : Padded Bounds.Spelled := by
  intro bounds blanks text blank spelled
  cases spelled with
  | index opened bound closed =>
    simp only [← List.append_assoc]
    exact .index (opened.padded blank) bound closed
  | range opened bound colon bound' closed =>
    simp only [← List.append_assoc]
    exact .range (opened.padded blank) bound colon bound' closed

theorem padded_selection : Padded Selection.Spelled := by
  intro selection blanks text blank spelled
  cases spelled with
  | whole name => exact .whole (padded_name blank name)
  | part name bounds =>
    rw [← List.append_assoc]
    exact .part (padded_name blank name) bounds

theorem padded_separated {item : α → Text → Prop} (padded : Padded item) :
    Padded (Separated item) := by
  intro values blanks text blank spelled
  cases spelled with
  | one spelled => exact .one (padded blank spelled)
  | more spelled comma others =>
    simp only [← List.append_assoc]
    exact .more (padded blank spelled) comma others

theorem padded_operand : Padded Operand.Spelled := by
  intro operand blanks text blank spelled
  cases spelled with
  | literal spelled => exact .literal (padded_literal blank spelled)
  | net spelled => exact .net (padded_selection blank spelled)
  | concatenation opened items closed =>
    simp only [← List.append_assoc]
    exact .concatenation (opened.padded blank) items closed

theorem padded_enclosed {opening closing : Char} {content : α → Text → Prop} :
    Padded (Enclosed.Spelled opening closing content) := by
  intro group blanks text blank spelled
  cases spelled with
  | intro positive opened spelled closed =>
    cases opened with
    | none => contradiction
    | more first others =>
      simp only [← List.append_assoc]
      exact .intro positive (.more (first.padded blank) others) spelled closed

theorem padded_association {spelled : α → Text → Prop} (padded : Padded spelled) :
    Padded (Association.Spelled spelled) := by
  intro association blanks text blank spelled
  cases spelled with
  | positional spelled => exact .positional (padded blank spelled)
  | named point pin target =>
    simp only [← List.append_assoc]
    exact .named (point.padded blank) pin target

theorem padded_setting : Padded Setting.Spelled := by
  intro setting blanks text blank spelled
  cases spelled with
  | literal spelled => exact .literal (padded_literal blank spelled)
  | name spelled => exact .name (padded_name blank spelled)

inductive Phrase.Derives : Phrase → Reading → Text → Prop
  | identifier {name text} : Name.Spelled name text → Derives .identifier (.word name) text
  | simpleIdentifier {name text} : SimpleName name → Lexeme name text →
      Derives .simpleIdentifier (.word name) text
  | escapedIdentifier {name text} : EscapedName name → Lexeme name text →
      Derives .escapedIdentifier (.word name) text
  | identifierList {names text} : Separated Name.Spelled names text →
      Derives .identifierList (.words names) text
  | immediate {value text} : Literal.Spelled value text → Derives .immediate (.literal value) text
  | unbasedImmediate {digits text} : DigitRun Char.isDigit digits → Lexeme digits text →
      Derives .unbasedImmediate (.word digits) text
  | basedImmediate {width radix digits text} : Literal.Spelled (.sized width radix digits) text →
      Derives (.basedImmediate radix) (.literal (.sized width radix digits)) text
  | stringLiteral {body text} : Literal.Spelled (.string body) text →
      Derives .stringLiteral (.literal (.string body)) text
  | bitRange {bounds text} : Bounds.Spelled bounds text → Derives .bitRange (.bounds bounds) text
  | connectedElement {operand text} : Operand.Spelled operand text →
      Derives .connectedElement (.operand operand) text
  | connectedElementList {operands text} : Separated Operand.Spelled operands text →
      Derives .connectedElementList (.operands operands) text
  | connection {association text} : Association.Spelled Operand.Spelled association text →
      Derives .connection (.connection association) text
  | connectionList {associations text} :
      Separated (Association.Spelled Operand.Spelled) associations text →
      Derives .connectionList (.connections associations) text
  | parameterConnectedElement {setting text} : Setting.Spelled setting text →
      Derives .parameterConnectedElement (.setting setting) text
  | parameterConnection {association text} : Association.Spelled Setting.Spelled association text →
      Derives .parameterConnection (.parameter association) text
  | parameterList {associations text} :
      Separated (Association.Spelled Setting.Spelled) associations text →
      Derives .parameterList (.parameters associations) text
  | moduleParameters {block text} : ParameterBlock.Spelled block text →
      Derives .moduleParameters (.block block) text

section Canonical

def Joined (canonical : α → Text → Prop) (values : List α) (text : Text) : Prop :=
  ∃ texts, List.Forall₂ canonical values texts ∧ text = List.intercalate [',', ' '] texts

/-- The canonical form: no blanks before a lexeme, but one space after a comma, and bounds in as few
    digits as there can be. -/
inductive Literal.Canonical : Literal → Text → Prop
  | unsized {digits} : Canonical (.unsized digits) digits
  | sized {width radix digits} :
      Canonical (.sized width radix digits) (width ++ ['\'', radix.letter] ++ digits)
  | string {body} : Canonical (.string body) (['"'] ++ body ++ ['"'])

inductive Bounds.Canonical : Bounds → Text → Prop
  | index {value : UInt32} : Canonical ⟨value, value⟩ (['['] ++ Nat.toDigits 10 value.toNat ++ [']'])
  | range {first second : UInt32} : first ≠ second → Canonical ⟨first, second⟩
      (['['] ++ Nat.toDigits 10 first.toNat ++ [':'] ++ Nat.toDigits 10 second.toNat ++ [']'])

inductive Selection.Canonical : Selection → Text → Prop
  | whole {name} : Canonical ⟨name, none⟩ name
  | part {name bounds text} : bounds.Canonical text → Canonical ⟨name, some bounds⟩ (name ++ text)

inductive Operand.Canonical : Operand → Text → Prop
  | literal {value text} : value.Canonical text → Canonical (.literal value) text
  | net {selection text} : selection.Canonical text → Canonical (.net selection) text
  | concatenation {items texts} : List.Forall₂ Operand.Canonical items texts →
      Canonical (.concatenation items) (['\x7b'] ++ List.intercalate [',', ' '] texts ++ ['\x7d'])

inductive Enclosed.Canonical (canonical : α → Text → Prop) : Enclosed α → Text → Prop
  | intro {depth value text} : canonical value text → Canonical canonical ⟨depth, value⟩
      (List.replicate depth '(' ++ text ++ List.replicate depth ')')

inductive Association.Canonical (canonical : α → Text → Prop) : Association α → Text → Prop
  | positional {value text} : canonical value text → Canonical canonical (.positional value) text
  | named {pin target text} : target.Canonical canonical text →
      Canonical canonical (.named pin target) (['.'] ++ pin ++ text)

inductive Setting.Canonical : Setting → Text → Prop
  | literal {value text} : value.Canonical text → Canonical (.literal value) text
  | name {name} : Canonical (.name name) name

inductive Reading.Canonical : Reading → Text → Prop
  | word {text} : Canonical (.word text) text
  | words {texts} : Canonical (.words texts) (List.intercalate [',', ' '] texts)
  | literal {value text} : value.Canonical text → Canonical (.literal value) text
  | bounds {value text} : value.Canonical text → Canonical (.bounds value) text
  | operand {value text} : value.Canonical text → Canonical (.operand value) text
  | operands {values text} : Joined Operand.Canonical values text → Canonical (.operands values) text
  | connection {value text} : value.Canonical Operand.Canonical text →
      Canonical (.connection value) text
  | connections {values text} : Joined (Association.Canonical Operand.Canonical) values text →
      Canonical (.connections values) text
  | setting {value text} : value.Canonical text → Canonical (.setting value) text
  | parameter {value text} : value.Canonical Setting.Canonical text →
      Canonical (.parameter value) text
  | parameters {values text} : Joined (Association.Canonical Setting.Canonical) values text →
      Canonical (.parameters values) text
  | block {value : ParameterBlock} {text} :
      Enclosed.Canonical (Joined (Association.Canonical Setting.Canonical)) value text →
      Canonical (.block value) (['#'] ++ text)

end Canonical

end Netlist

end NetTrace
