import TapeNet.Json.Reader
import TapeNet.Proofs.Json.Document

/-!
# Reading documents

What a reader gets from the tokens of a document can be told from the document
alone: a whole number from a number, nothing from a value that is skipped, and
from an object what its fields make of the start, one after the other.
-/

namespace TapeNet

namespace Json

/-- A computation gives a value if its first part does and the rest does on that. -/
theorem toOption_bind {ε α β : Type} (first : Except ε α) (next : α → Except ε β) :
    (first >>= next).toOption = first.toOption.bind fun value => (next value).toOption := by
  cases first with
  | error | ok => rfl

/-- A computation without a value has a fault instead. -/
theorem exists_error_of_toOption {ε α : Type} {answer : Except ε α}
    (nothing : answer.toOption = none) : ∃ fault, answer = .error fault := by
  cases answer with
  | error fault => exact ⟨fault, rfl⟩
  | ok value => cases nothing

theorem eq_ok_of_toOption {ε α : Type} {answer : Except ε α} {value : α}
    (given : answer.toOption = some value) : answer = .ok value := by
  cases answer with
  | error fault => cases given
  | ok other => rw [Option.some.inj given]

namespace Document

/-- The token that a document begins with. -/
def first : Document → Token
  | null => .null
  | truth value => .truth value
  | number value => .number value.worth
  | string literal => .string literal.value
  | list _ => .openList
  | object _ => .openObject

theorem first_ne_closeList (document : Document) : document.first ≠ .closeList := by
  intro closed
  cases document with
  | null | truth | number | string | list | object => cases closed

theorem exists_tokens_eq (document : Document) :
    ∃ more, document.tokens = document.first :: more := by
  cases document with
  | null | truth | number | string => exact ⟨[], rfl⟩
  | list items =>
      cases items with
      | nil | cons => exact ⟨_, rfl⟩
  | object fields =>
      cases fields with
      | nil | cons => exact ⟨_, rfl⟩

theorem head_tokens (document : Document) (rest : List Token) :
    (document.tokens ++ rest).head? = some document.first := by
  obtain ⟨more, same⟩ := document.exists_tokens_eq
  rw [same]
  rfl

/-- The tokens behind an item of a list, up to its end. -/
def itemTokens (items : List Document) : List Token :=
  (moreItems items).map Lexeme.token

/-- The tokens behind a field of an object, up to its end. -/
def fieldTokens (fields : List Field) : List Token :=
  (moreFields fields).map Lexeme.token

theorem tokens_list_cons (item : Document) (items : List Document) :
    (list (item :: items)).tokens = .openList :: (item.tokens ++ itemTokens items) := by
  simp only [tokens, itemTokens, lexemes, List.map_cons, List.map_append, Lexeme.token]

theorem itemTokens_cons (item : Document) (items : List Document) :
    itemTokens (item :: items) = .comma :: (item.tokens ++ itemTokens items) := by
  simp only [tokens, itemTokens, moreItems, List.map_cons, List.map_append, Lexeme.token]

theorem tokens_object_cons (key : StringLiteral) (value : Document) (fields : List Field) :
    (object ((key, value) :: fields)).tokens =
      .openObject :: .string key.value :: .colon :: (value.tokens ++ fieldTokens fields) := by
  simp only [tokens, fieldTokens, lexemes, List.map_cons, List.map_append, Lexeme.token]

theorem fieldTokens_cons (key : StringLiteral) (value : Document) (fields : List Field) :
    fieldTokens ((key, value) :: fields) =
      .comma :: .string key.value :: .colon :: (value.tokens ++ fieldTokens fields) := by
  simp only [tokens, fieldTokens, moreFields, List.map_cons, List.map_append, Lexeme.token]

/-- Each field takes a token at least, and so does the end of the object. -/
theorem length_lt_fieldTokens (fields : List Field) :
    fields.length < (fieldTokens fields).length := by
  induction fields with
  | nil => decide
  | cons field fields ih =>
      obtain ⟨key, value⟩ := field
      rw [fieldTokens_cons]
      simp only [List.length_cons, List.length_append]
      omega

end Document

namespace Reader

open Document

/-- What comes after a value that was skipped in the given lists and objects. -/
def resume (frames : List Frame) (rest : List Token) : Except Fault (List Token) :=
  if frames.isEmpty then .ok rest else skipFrom .comma frames rest

mutual

/-- A document is skipped as a whole, wherever it stands. -/
theorem skipFrom_value (document : Document) (first : Bool) (frames : List Frame)
    (rest : List Token) :
    skipFrom (.value first) frames (document.tokens ++ rest) = resume frames rest := by
  -- A list or object adds a frame for what is in it; its end takes the frame away again.
  match document with
  | .null | .truth _ | .number _ | .string _ => rfl
  | .list [] => rfl
  | .list (item :: items) =>
      rw [tokens_list_cons, List.cons_append, List.append_assoc]
      exact (skipFrom_value item true (.list :: frames) _).trans
        (skipFrom_moreItems items frames rest)
  | .object [] => rfl
  | .object ((key, value) :: fields) =>
      rw [tokens_object_cons, List.cons_append, List.cons_append, List.cons_append,
        List.append_assoc]
      exact (skipFrom_value value false (.object :: frames) _).trans
        (skipFrom_moreFields fields frames rest)

theorem skipFrom_moreItems (items : List Document) (frames : List Frame) (rest : List Token) :
    skipFrom .comma (.list :: frames) (itemTokens items ++ rest) = resume frames rest := by
  match items with
  | [] => rfl
  | item :: items =>
      rw [itemTokens_cons, List.cons_append, List.append_assoc]
      exact (skipFrom_value item false (.list :: frames) _).trans
        (skipFrom_moreItems items frames rest)

theorem skipFrom_moreFields (fields : List Field) (frames : List Frame) (rest : List Token) :
    skipFrom .comma (.object :: frames) (fieldTokens fields ++ rest) = resume frames rest := by
  match fields with
  | [] => rfl
  | (key, value) :: fields =>
      rw [fieldTokens_cons, List.cons_append, List.cons_append, List.cons_append,
        List.append_assoc]
      exact (skipFrom_value value false (.object :: frames) _).trans
        (skipFrom_moreFields fields frames rest)

end

/--
A reader gets a value, or none, from the tokens at the front, whatever stands
behind them.
-/
def Gives {α : Type} (reader : Reader α) (tokens : List Token) (result : Option α) : Prop :=
  ∀ rest, (reader (tokens ++ rest)).toOption = result.map fun value => (value, rest)

namespace Gives

variable {α β : Type} {reader : Reader α} {front : List Token} {result : Option α}

/-- One reader after the other. -/
theorem bind (gives : Gives reader front result) {next : α → Reader β} {back : List Token}
    {results : α → Option β} (after : ∀ value, Gives (next value) back (results value)) :
    Gives (fun tokens => reader tokens >>= fun found => next found.1 found.2) (front ++ back)
      (result.bind results) := by
  intro rest
  rw [toOption_bind, List.append_assoc, gives]
  cases result with
  | none => rfl
  | some value => exact after value rest

/-- A text that writes a document is worth what the document gives. -/
theorem whole {document : Document} {text : String} (gives : Gives reader document.tokens result)
    (writes : document.Writes text) : (reader.whole text).toOption = result := by
  have alone := gives []
  rw [List.append_nil] at alone
  rw [Reader.whole, writes.tokens_eq]
  cases answer : reader document.tokens with
  | error fault =>
      rw [answer] at alone
      cases result with
      | none => rfl
      | some value => cases alone
  | ok found =>
      rw [answer] at alone
      cases result with
      | none => cases alone
      | some value =>
          cases alone
          rfl

end Gives

theorem gives_skip (document : Document) : Gives skip document.tokens (some ()) := by
  intro rest
  rw [skip, skipFrom_value]
  rfl

end Reader

/-- The whole number below `bound` that a number is. -/
def Number.below? (bound : Nat) : Number → Option Nat
  | .natural n => if n < bound then some n else none
  | _ => none

namespace Document

/-- The whole number below `bound` that a document is. -/
def below? (bound : Nat) : Document → Option Nat
  | number value => value.worth.below? bound
  | _ => none

/-- Whether a document is a whole number, written without sign, fraction and exponent. -/
def IsNatural (n : Nat) (document : Document) : Prop :=
  ∃ value : NumberLiteral, document = number value ∧ value.IsWhole ∧ value.whole.value = n

theorem isNatural_ofNat (n : Nat) : (number (.ofNat n)).IsNatural n :=
  ⟨.ofNat n, rfl, ⟨rfl, rfl, rfl⟩, Digits.value_ofNat n⟩

theorem below?_of_isNatural {n bound : Nat} (small : n < bound)
    (limited : n < PartialNumber.naturalLimit) {document : Document}
    (natural : document.IsNatural n) : document.below? bound = some n := by
  obtain ⟨value, rfl, whole, same⟩ := natural
  have worth := (value.worth_eq_natural_iff n).mpr ⟨whole, same, limited⟩
  rw [below?, worth, Number.below?, if_pos small]

/--
What the fields of an object make of `start`, one after the other.  There is
no result if the name of a field has no meaning.
-/
def foldFields {α : Type} (step : α → String → Document → Option α) : α → List Field → Option α
  | start, [] => some start
  | start, (key, value) :: fields =>
    key.value.bind fun name =>
      (step start name value).bind fun found => foldFields step found fields

section Folds

variable {α : Type} {step : α → String → Document → Option α} {start done : α}

theorem foldFields_cons_eq_some_iff {key : StringLiteral} {value : Document}
    {fields : List Field} :
    foldFields step start ((key, value) :: fields) = some done ↔
      ∃ name next, key.value = some name ∧ step start name value = some next ∧
        foldFields step next fields = some done := by
  simp only [foldFields, Option.bind_eq_some_iff]
  constructor
  · rintro ⟨name, named, next, stepped, more⟩
    exact ⟨name, next, named, stepped, more⟩
  · rintro ⟨name, next, named, stepped, more⟩
    exact ⟨name, named, next, stepped, more⟩

/-- If all fields are taken, each of them is. -/
theorem exists_step_of_mem {fields : List Field} (taken : foldFields step start fields = some done)
    {key : StringLiteral} {value : Document} (member : (key, value) ∈ fields) :
    ∃ name found next, key.value = some name ∧ step found name value = some next := by
  induction fields generalizing start with
  | nil => cases member
  | cons field fields ih =>
      obtain ⟨first, content⟩ := field
      obtain ⟨name, next, named, stepped, more⟩ := foldFields_cons_eq_some_iff.mp taken
      cases member with
      | head => exact ⟨name, start, next, named, stepped⟩
      | tail _ later => exact ih more later

/-- The keys of some fields, as far as they mean anything. -/
def fieldKeys (fields : List Field) : List (Option String) :=
  fields.map fun field => field.1.value

theorem fieldKeys_cons (field : Field) (fields : List Field) :
    fieldKeys (field :: fields) = field.1.value :: fieldKeys fields :=
  rfl

/-- The keys of an object; nothing else has any. -/
def keys : Document → List (Option String)
  | object fields => fieldKeys fields
  | _ => []

/-- What grows by one with each field of a certain name counts these fields. -/
theorem tally_foldFields {tally : α → Nat} {known : String}
    (grows : ∀ {found name value next}, step found name value = some next →
      tally next = tally found + if name = known then 1 else 0)
    {fields : List Field} (taken : foldFields step start fields = some done) :
    tally done = tally start + (fieldKeys fields).count (some known) := by
  induction fields generalizing start with
  | nil =>
      cases taken
      rfl
  | cons field fields ih =>
      obtain ⟨key, value⟩ := field
      obtain ⟨name, next, named, stepped, more⟩ := foldFields_cons_eq_some_iff.mp taken
      rw [ih more, grows stepped, fieldKeys_cons, named, List.count_cons, Nat.add_assoc,
        Nat.add_comm (if name = known then 1 else 0)]
      simp only [beq_iff_eq, Option.some.injEq]

end Folds

/-- What an object makes of `start`. -/
def foldObject {α : Type} (step : α → String → Document → Option α) (start : α) :
    Document → Option α
  | object fields => foldFields step start fields
  | _ => none

end Document

namespace Reader

open Document

theorem gives_naturalBelow (bound : Nat) (document : Document) :
    Gives (naturalBelow bound) document.tokens (document.below? bound) := by
  intro rest
  cases document with
  | null | truth => rfl
  | number value =>
      change (naturalBelow bound (.number value.worth :: rest)).toOption =
        (value.worth.below? bound).map _
      cases value.worth with
      | natural n =>
          rw [naturalBelow, Number.below?]
          split
          · rfl
          · rfl
      | other | excessive => rfl
  | string literal =>
      change (naturalBelow bound (.string literal.value :: rest)).toOption = none
      cases literal.value with
      | none | some => rfl
  | list items =>
      obtain ⟨more, same⟩ := exists_tokens_eq (.list items)
      rw [same]
      rfl
  | object fields =>
      obtain ⟨more, same⟩ := exists_tokens_eq (.object fields)
      rw [same]
      rfl

section Objects

variable {α : Type} {field : α → String → Reader α} {step : α → String → Document → Option α}

/-- What comes after a field: the end of the object or another field. -/
def afterField (field : α → String → Reader α) (bound : Nat) (found : α) : Reader α
  | .closeObject :: rest => .ok (found, rest)
  | .comma :: rest => fieldsWithin field bound found rest
  | tokens => .error (missingMark tokens)

theorem gives_key (literal : StringLiteral) : Gives key [.string literal.value] literal.value := by
  intro rest
  cases literal.value with
  | none | some => rfl

variable (each : ∀ found name value,
  Gives (field found name) (.colon :: value.tokens) (step found name value))

include each

theorem gives_fieldsWithin {key : StringLiteral} {value : Document} {fields : List Field}
    {bound : Nat} (found : α)
    (after : ∀ found, Gives (afterField field bound found) (fieldTokens fields)
      (foldFields step found fields)) :
    Gives (fieldsWithin field (bound + 1) found)
      (.string key.value :: .colon :: (value.tokens ++ fieldTokens fields))
      (foldFields step found ((key, value) :: fields)) :=
  (gives_key key).bind fun name => (each found name value).bind after

/-- All fields are taken, if the bound allows for them. -/
theorem gives_afterField {fields : List Field} {bound : Nat} (room : fields.length ≤ bound)
    (found : α) :
    Gives (afterField field bound found) (fieldTokens fields) (foldFields step found fields) := by
  induction fields generalizing found bound with
  | nil => exact fun _ => rfl
  | cons next fields ih =>
      obtain ⟨key, value⟩ := next
      obtain ⟨bound, rfl⟩ := Nat.exists_eq_succ_of_ne_zero (Nat.ne_zero_of_lt room)
      intro rest
      rw [fieldTokens_cons]
      exact gives_fieldsWithin each found (ih (Nat.le_of_succ_le_succ room)) rest

theorem gives_object (start : α) (document : Document) :
    Gives (object field start) document.tokens (document.foldObject step start) := by
  intro rest
  match document with
  | .null | .truth _ => rfl
  | .number value =>
      change (object field start (.number value.worth :: rest)).toOption = none
      cases value.worth with
      | natural | other | excessive => rfl
  | .string literal =>
      change (object field start (.string literal.value :: rest)).toOption = none
      cases literal.value with
      | none | some => rfl
  | .list items =>
      obtain ⟨more, same⟩ := exists_tokens_eq (.list items)
      rw [same]
      rfl
  | .object [] => rfl
  | .object ((key, value) :: fields) =>
      rw [tokens_object_cons]
      have room : fields.length ≤ (value.tokens ++ fieldTokens fields ++ rest).length + 1 := by
        have fewer := length_lt_fieldTokens fields
        simp only [List.length_append]
        omega
      exact gives_fieldsWithin each start (gives_afterField each room) rest

end Objects

end Reader

end Json

end TapeNet
