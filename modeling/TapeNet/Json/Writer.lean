import TapeNet.Numeral

/-!
# Writing JSON values

Values made of whole numbers, plain strings and objects, written without any
blanks or indented by two blanks for each level.
-/

namespace TapeNet

namespace Json

/-- A value to be written; strings are plain, so that nothing in them needs an escape. -/
inductive Value where
  | natural (n : Nat)
  | plain (text : String)
  | object (fields : List (String × Value))

def quoted (text : String) : String :=
  "\"" ++ text ++ "\""

/-- The braces of an object. -/
def openBrace : String := "\x7b"

@[inherit_doc openBrace]
def closeBrace : String := "\x7d"

namespace Value

mutual

def compact : Value → String
  | .natural n => Numeral.decimal n
  | .plain text => quoted text
  | .object fields =>
    openBrace ++ String.intercalate "," (compactFields fields) ++ closeBrace

/-- The fields of an object without any blanks. -/
def compactFields : List (String × Value) → List String
  | [] => []
  | (name, value) :: rest => (quoted name ++ ":" ++ value.compact) :: compactFields rest

end

def indent (level : Nat) : String :=
  String.ofList (List.replicate (2 * level) ' ')

mutual

def indented (level : Nat) : Value → String
  | .natural n => Numeral.decimal n
  | .plain text => quoted text
  | .object [] => openBrace ++ closeBrace
  | .object fields =>
    openBrace ++ "\n" ++ String.intercalate ",\n" (indentedFields (level + 1) fields) ++ "\n" ++
      indent level ++ closeBrace

/-- The fields of an object, each as a line without its end. -/
def indentedFields (level : Nat) : List (String × Value) → List String
  | [] => []
  | (name, value) :: rest =>
    (indent level ++ quoted name ++ ": " ++ value.indented level) :: indentedFields level rest

end

def pretty (value : Value) : String :=
  value.indented 0

end Value

end Json

end TapeNet
