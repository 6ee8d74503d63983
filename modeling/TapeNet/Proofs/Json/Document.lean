import Mathlib.Data.List.Chain
import TapeNet.Proofs.Json.Number
import TapeNet.Proofs.Json.Quoted

/-!
# JSON documents and their texts

A document is a JSON value as it is written, apart from the blanks between its
pieces; a text writes it if it consists of these pieces in their order with any
blanks around them.  However a text is laid out, the machine that cuts it finds
the tokens of the document.
-/

namespace TapeNet

namespace Json

/-- A JSON value as it is written, apart from the blanks. -/
inductive Document where
  | null
  | truth (value : Bool)
  | number (value : NumberLiteral)
  | string (literal : StringLiteral)
  | list (items : List Document)
  | object (fields : List (StringLiteral × Document))

/-- A key and the value behind it. -/
abbrev Field := StringLiteral × Document

/-- A piece of a text. -/
inductive Lexeme where
  | openObject
  | closeObject
  | openList
  | closeList
  | colon
  | comma
  | null
  | truth (value : Bool)
  | number (value : NumberLiteral)
  | string (literal : StringLiteral)

namespace Lexeme

def chars : Lexeme → List Char
  | .openObject => ['\x7b']
  | closeObject => ['\x7d']
  | openList => ['[']
  | closeList => [']']
  | colon => [':']
  | comma => [',']
  | null => ['n', 'u', 'l', 'l']
  | truth true => ['t', 'r', 'u', 'e']
  | truth false => ['f', 'a', 'l', 's', 'e']
  | number value => value.chars
  | string literal => literal.chars

def token : Lexeme → Token
  | openObject => .openObject
  | closeObject => .closeObject
  | openList => .openList
  | closeList => .closeList
  | colon => .colon
  | comma => .comma
  | null => .null
  | truth value => .truth value
  | number value => .number value.worth
  | string literal => .string literal.value

def isNumber : Lexeme → Bool
  | number _ => true
  | _ => false

/-- A piece is taken in as one token; only a number minds what stands behind it. -/
theorem tokens_chars (lexeme : Lexeme) {rest : List Char}
    (ends : lexeme.isNumber = true → EndsNumber rest) :
    Scan.between.tokens (lexeme.chars ++ rest) = lexeme.token :: Scan.between.tokens rest := by
  cases lexeme with
  | number value => exact value.tokens_chars (ends rfl)
  | string literal => exact literal.tokens_chars rest
  | truth value =>
      cases value with
      | true | false => rfl
  | _ => rfl

/-- No other piece begins with a character that goes on with a number. -/
theorem endsNumber_chars {lexeme : Lexeme} (other : lexeme.isNumber = false) (rest : List Char) :
    EndsNumber (lexeme.chars ++ rest) := by
  intro c first
  cases lexeme with
  | number value => cases other
  | string literal =>
      cases first
      decide
  | truth value =>
      cases value with
      | true | false =>
          cases first
          decide
  | _ =>
      cases first
      decide

end Lexeme

def isBlank (c : Char) : Bool :=
  c = ' ' || c = '\n' || c = '\t' || c = '\r'

theorem isBlank_cases {c : Char} (blank : isBlank c = true) :
    c = ' ' ∨ c = '\n' ∨ c = '\t' ∨ c = '\r' := by
  simpa [isBlank, or_assoc] using blank

/-- Blanks that can stand between two pieces. -/
def Blank (gap : List Char) : Prop :=
  ∀ c ∈ gap, isBlank c = true

instance (gap : List Char) : Decidable (Blank gap) :=
  List.decidableBAll (fun c => isBlank c = true) gap

/-- The pieces stand in a text one after the other, with any blanks around them. -/
inductive Laid : List Lexeme → List Char → Prop where
  | nil {gap : List Char} (blank : Blank gap) : Laid [] gap
  | cons {gap : List Char} (blank : Blank gap) (lexeme : Lexeme) {lexemes : List Lexeme}
      {chars : List Char} (more : Laid lexemes chars) :
      Laid (lexeme :: lexemes) (gap ++ (lexeme.chars ++ chars))

/-- Blanks in front of a text do not matter. -/
theorem tokens_blank {gap : List Char} (blank : Blank gap) (rest : List Char) :
    Scan.between.tokens (gap ++ rest) = Scan.between.tokens rest := by
  induction gap with
  | nil => rfl
  | cons c gap ih =>
      have skipped : Scan.between.next c = ([], .between) := by
        rcases isBlank_cases (blank c List.mem_cons_self) with rfl | rfl | rfl | rfl <;> rfl
      rw [List.cons_append, Scan.tokens, skipped]
      exact ih fun other member => blank other (List.mem_cons_of_mem c member)

theorem Blank.endsNumber {gap : List Char} (blank : Blank gap) {rest : List Char}
    (ends : EndsNumber rest) : EndsNumber (gap ++ rest) := by
  cases gap with
  | nil => exact ends
  | cons c gap =>
      intro first same
      cases same
      rcases isBlank_cases (blank c List.mem_cons_self) with rfl | rfl | rfl | rfl <;> decide

/-- No number stands directly behind another one. -/
def Parted (lexemes : List Lexeme) : Prop :=
  lexemes.IsChain fun first second => first.isNumber = true → second.isNumber = false

namespace Parted

variable {lexeme : Lexeme} {lexemes : List Lexeme}

theorem cons_of_not (parted : Parted lexemes) (other : lexeme.isNumber = false) :
    Parted (lexeme :: lexemes) :=
  List.isChain_cons.mpr
    ⟨fun _ _ number => absurd (other.symm.trans number) (by decide), parted⟩

theorem cons_of_head (parted : Parted lexemes)
    (other : ∀ second ∈ lexemes.head?, second.isNumber = false) : Parted (lexeme :: lexemes) :=
  List.isChain_cons.mpr ⟨fun second first _ => other second first, parted⟩

end Parted

namespace Laid

theorem endsNumber {lexemes : List Lexeme} {chars : List Char} (laid : Laid lexemes chars)
    (other : ∀ lexeme ∈ lexemes.head?, lexeme.isNumber = false) : EndsNumber chars := by
  cases laid with
  | nil blank =>
      have nothing : EndsNumber [] := by
        intro c none
        cases none
      have ends := blank.endsNumber nothing
      rwa [List.append_nil] at ends
  | cons blank lexeme more =>
      exact blank.endsNumber (Lexeme.endsNumber_chars (other lexeme rfl) _)

/-- The machine finds the tokens of all pieces. -/
theorem tokens_eq {lexemes : List Lexeme} {chars : List Char} (laid : Laid lexemes chars)
    (parted : Parted lexemes) : Scan.between.tokens chars = lexemes.map Lexeme.token := by
  induction laid with
  | nil blank =>
      have nothing := tokens_blank blank []
      rwa [List.append_nil] at nothing
  | cons blank lexeme more ih =>
      obtain ⟨first, others⟩ := List.isChain_cons.mp parted
      have ends : lexeme.isNumber = true → EndsNumber _ := fun number =>
        more.endsNumber fun second member => first second member number
      rw [tokens_blank blank, lexeme.tokens_chars ends, ih others, List.map_cons]

/-- More blanks may stand in front of a text. -/
theorem pad {gap : List Char} (blank : Blank gap) {lexemes : List Lexeme} {chars : List Char}
    (laid : Laid lexemes chars) : Laid lexemes (gap ++ chars) := by
  have both {other : List Char} (blank' : Blank other) : Blank (gap ++ other) := by
    intro c member
    rcases List.mem_append.mp member with left | right
    · exact blank c left
    · exact blank' c right
  cases laid with
  | nil blank' => exact .nil (both blank')
  | cons blank' lexeme more =>
      rw [← List.append_assoc]
      exact .cons (both blank') lexeme more

theorem append {first second : List Lexeme} {chars rest : List Char} (laid : Laid first chars)
    (more : Laid second rest) : Laid (first ++ second) (chars ++ rest) := by
  induction laid with
  | nil blank => exact more.pad blank
  | cons blank lexeme _ ih =>
      rw [List.append_assoc, List.append_assoc]
      exact .cons blank lexeme ih

theorem lexeme (lexeme : Lexeme) : Laid [lexeme] lexeme.chars := by
  have nothing : Blank [] := by
    intro c none
    cases none
  have alone := Laid.cons nothing lexeme (.nil nothing)
  rwa [List.nil_append, List.append_nil] at alone

end Laid

/-- The pieces make up a text, with any blanks around them. -/
def Written (lexemes : List Lexeme) (text : String) : Prop :=
  Laid lexemes text.toList

theorem Written.append {first second : List Lexeme} {text more : String}
    (written : Written first text) (after : Written second more) :
    Written (first ++ second) (text ++ more) := by
  rw [Written, String.toList_append]
  exact Laid.append written after

namespace Document

mutual

/-- The pieces of a document in their order. -/
def lexemes : Document → List Lexeme
  | null => [.null]
  | truth value => [.truth value]
  | number value => [.number value]
  | string literal => [.string literal]
  | list [] => [.openList, .closeList]
  | list (item :: items) => .openList :: (item.lexemes ++ moreItems items)
  | object [] => [.openObject, .closeObject]
  | object ((key, value) :: fields) =>
    .openObject :: .string key :: .colon :: (value.lexemes ++ moreFields fields)

/-- The pieces behind an item of a list, up to its end. -/
def moreItems : List Document → List Lexeme
  | [] => [.closeList]
  | item :: items => .comma :: (item.lexemes ++ moreItems items)

/-- The pieces behind a field of an object, up to its end. -/
def moreFields : List Field → List Lexeme
  | [] => [.closeObject]
  | (key, value) :: fields =>
    .comma :: .string key :: .colon :: (value.lexemes ++ moreFields fields)

end

theorem head_moreItems (items : List Document) (more : List Lexeme) :
    ∀ lexeme ∈ (moreItems items ++ more).head?, lexeme.isNumber = false := by
  intro lexeme first
  cases items with
  | nil | cons =>
      cases first
      rfl

theorem head_moreFields (fields : List Field) (more : List Lexeme) :
    ∀ lexeme ∈ (moreFields fields ++ more).head?, lexeme.isNumber = false := by
  intro lexeme first
  cases fields with
  | nil | cons =>
      cases first
      rfl

mutual

/-- In a document no number stands directly behind another one. -/
theorem parted_lexemes (document : Document) {more : List Lexeme} (parted : Parted more)
    (other : ∀ lexeme ∈ more.head?, lexeme.isNumber = false) :
    Parted (document.lexemes ++ more) := by
  -- Behind a number in a list or an object stands a comma or the end, never another number.
  match document with
  | null | truth _ | string _ => exact parted.cons_of_not rfl
  | number _ => exact parted.cons_of_head other
  | list [] => exact (parted.cons_of_not rfl).cons_of_not rfl
  | list (item :: items) =>
      rw [lexemes, List.cons_append, List.append_assoc]
      exact (parted_lexemes item (parted_moreItems items parted)
        (head_moreItems items more)).cons_of_not rfl
  | object [] => exact (parted.cons_of_not rfl).cons_of_not rfl
  | object ((key, value) :: fields) =>
      rw [lexemes, List.cons_append, List.cons_append, List.cons_append, List.append_assoc]
      have values := parted_lexemes value (parted_moreFields fields parted)
        (head_moreFields fields more)
      exact ((values.cons_of_not rfl).cons_of_not rfl).cons_of_not rfl

theorem parted_moreItems (items : List Document) {more : List Lexeme} (parted : Parted more) :
    Parted (moreItems items ++ more) := by
  match items with
  | [] => exact parted.cons_of_not rfl
  | item :: items =>
      rw [moreItems, List.cons_append, List.append_assoc]
      exact (parted_lexemes item (parted_moreItems items parted)
        (head_moreItems items more)).cons_of_not rfl

theorem parted_moreFields (fields : List Field) {more : List Lexeme} (parted : Parted more) :
    Parted (moreFields fields ++ more) := by
  match fields with
  | [] => exact parted.cons_of_not rfl
  | (key, value) :: fields =>
      rw [moreFields, List.cons_append, List.cons_append, List.cons_append, List.append_assoc]
      have values := parted_lexemes value (parted_moreFields fields parted)
        (head_moreFields fields more)
      exact ((values.cons_of_not rfl).cons_of_not rfl).cons_of_not rfl

end

/-- A text that writes a document: its pieces with any blanks around them. -/
def Writes (document : Document) (text : String) : Prop :=
  Written document.lexemes text

def tokens (document : Document) : List Token :=
  document.lexemes.map Lexeme.token

/-- However a document is laid out, its tokens are found. -/
theorem Writes.tokens_eq {document : Document} {text : String} (writes : document.Writes text) :
    Json.tokens text = document.tokens := by
  have nothing : Parted [] := .nil
  have parted := document.parted_lexemes nothing (by intro lexeme none; cases none)
  rw [List.append_nil] at parted
  exact Laid.tokens_eq writes parted

end Document

end Json

end TapeNet
