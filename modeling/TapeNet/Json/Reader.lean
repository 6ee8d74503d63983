import TapeNet.Json.Token

/-!
# Reading JSON values of a known shape

A reader takes a value of the shape it expects from the front of a row of
tokens.  The text is looked at from left to right and the first problem wins:
a value of another kind is a mismatch even if the text behind it is no JSON.
The end of the row is the end of the text.
-/

namespace TapeNet

namespace Json

/-- A reader gives a value and the tokens behind it, or what is wrong. -/
abbrev Reader (α : Type) := List Token → Except Fault (α × List Token)

/-- What is wrong where a value of another kind was expected. -/
def unexpected : List Token → Fault
  | [] => .cutShort
  | .null :: _ | .truth _ :: _ | .openObject :: _ | .openList :: _ => .mismatched
  | .number .excessive :: _ => .malformed
  | .number _ :: _ => .mismatched
  | .string none :: _ => .malformed
  | .string (some _) :: _ => .mismatched
  | .brokenString whenRead _ :: _ | .broken whenRead _ :: _ => whenRead
  | .closeObject :: _ | .closeList :: _ | .colon :: _ | .comma :: _ | .stray :: _ => .malformed

/-- What is wrong where a certain punctuation mark was expected. -/
def missingMark : List Token → Fault
  | [] => .cutShort
  | _ :: _ => .malformed

namespace Reader

/-- Takes a whole number below `bound`. -/
def naturalBelow (bound : Nat) : Reader Nat
  | .number (.natural value) :: rest =>
    if value < bound then .ok (value, rest) else .error .mismatched
  | tokens => .error (unexpected tokens)

def string : Reader String
  | .string (some value) :: rest => .ok (value, rest)
  | tokens => .error (unexpected tokens)

def null : Reader Unit
  | .null :: rest => .ok ((), rest)
  | tokens => .error (unexpected tokens)

def colon : Reader Unit
  | .colon :: rest => .ok ((), rest)
  | tokens => .error (missingMark tokens)

/-- A list or object that is being skipped. -/
inductive Frame where
  | list
  | object
  deriving DecidableEq, Repr

/-- What is expected next while a value is skipped. -/
inductive Skip where
  /-- A value; `first` says that the list it is in just began and may end here. -/
  | value (first : Bool)
  /-- A key; `first` says that the object it is in just began and may end here. -/
  | key (first : Bool)
  | colon
  /-- A comma, or the end of the innermost list or object. -/
  | comma
  deriving DecidableEq, Repr

/--
Takes a value of any shape without looking at its meaning.  `frames` are the
lists and objects it is in, the innermost first; the value ends when none is
left.
-/
def skipFrom : Skip → List Frame → List Token → Except Fault (List Token)
  | _, _, [] => .error .cutShort
  | .value first, frames, token :: rest =>
    match token with
    | .openObject => skipFrom (.key true) (.object :: frames) rest
    | .openList => skipFrom (.value true) (.list :: frames) rest
    | .null | .truth _ | .number _ | .string _ =>
      if frames.isEmpty then .ok rest else skipFrom .comma frames rest
    | .closeList =>
      if first then
        if frames.tail.isEmpty then .ok rest else skipFrom .comma frames.tail rest
      else
        .error .malformed
    | .brokenString _ whenSkipped | .broken _ whenSkipped => .error whenSkipped
    | .closeObject | .colon | .comma | .stray => .error .malformed
  | .key first, frames, token :: rest =>
    match token with
    | .string _ => skipFrom .colon frames rest
    | .brokenString _ whenSkipped => .error whenSkipped
    | .closeObject =>
      if first then
        if frames.tail.isEmpty then .ok rest else skipFrom .comma frames.tail rest
      else
        .error .malformed
    | _ => .error .malformed
  | .colon, frames, token :: rest =>
    match token with
    | .colon => skipFrom (.value false) frames rest
    | _ => .error .malformed
  | .comma, frames, token :: rest =>
    match token, frames with
    | .comma, .list :: _ => skipFrom (.value false) frames rest
    | .comma, .object :: _ => skipFrom (.key false) frames rest
    | .closeList, .list :: outer | .closeObject, .object :: outer =>
      if outer.isEmpty then .ok rest else skipFrom .comma outer rest
    | _, _ => .error .malformed

/-- Takes a value of any shape without looking at its meaning. -/
def skip : Reader Unit := fun tokens =>
  (skipFrom (.value false) [] tokens).map fun rest => ((), rest)

def key : Reader String
  | .string (some name) :: rest => .ok (name, rest)
  | .brokenString whenRead _ :: _ => .error whenRead
  | tokens => .error (missingMark tokens)

/--
Takes fields up to the end of their object; there must be at least one.
`field` takes the colon and the value behind a key.  A field has at least one
token, so `bound` need not exceed the number of tokens.
-/
def fieldsWithin {α : Type} (field : α → String → Reader α) : Nat → α → Reader α
  | 0, _, _ => .error .cutShort
  | bound + 1, found, tokens => do
    let (name, tokens) ← key tokens
    let (found, tokens) ← field found name tokens
    match tokens with
    | .closeObject :: rest => .ok (found, rest)
    | .comma :: rest => fieldsWithin field bound found rest
    | tokens => .error (missingMark tokens)

/-- Takes an object, adding its fields one after the other to `start`. -/
def object {α : Type} (field : α → String → Reader α) (start : α) : Reader α
  | .openObject :: .closeObject :: rest => .ok (start, rest)
  | .openObject :: rest => fieldsWithin field rest.length start rest
  | tokens => .error (unexpected tokens)

/-- The value that a whole text holds. -/
def whole {α : Type} (reader : Reader α) (text : String) : Except Fault α :=
  match reader (tokens text) with
  | .ok (value, []) => .ok value
  | .ok (_, _ :: _) => .error .malformed
  | .error fault => .error fault

end Reader

end Json

end TapeNet
