/-!
# Outlines of values

The text in which the state of a machine is shown to its developer: records
with named fields, lists and tables, written on one line or indented.
-/

namespace TapeNet

/-- A value as it is shown. -/
inductive Outline where
  /-- A value that is a single word. -/
  | word (text : String)
  | items (entries : List Outline)
  /-- A table in braces, from words to values. -/
  | table (entries : List (String × Outline))
  /-- A record with named fields; `more` says that further fields are not shown. -/
  | fields (title : String) (entries : List (String × Outline)) (more : Bool)
  /-- A named wrapper around one value. -/
  | wrapped (title : String) (value : Outline)

namespace Outline

def number (n : Nat) : Outline :=
  .word (toString n)

def truth (b : Bool) : Outline :=
  .word (if b then "true" else "false")

/-- The braces that records and tables are written in. -/
def openBrace : String := "\x7b"

@[inherit_doc openBrace]
def closeBrace : String := "\x7d"

mutual

def inline : Outline → String
  | .word text => text
  | .items entries => "[" ++ String.intercalate ", " (inlineAll entries) ++ "]"
  | .table entries => openBrace ++ String.intercalate ", " (inlineEntries entries) ++ closeBrace
  | .fields title entries more =>
    title ++ " " ++ openBrace ++ " " ++
      String.intercalate ", " (inlineEntries entries ++ if more then [".."] else []) ++
      " " ++ closeBrace
  | .wrapped title value => title ++ "(" ++ value.inline ++ ")"

/-- The entries of a list, each on one line. -/
def inlineAll : List Outline → List String
  | [] => []
  | entry :: rest => entry.inline :: inlineAll rest

/-- The entries of a table or record, each on one line. -/
def inlineEntries : List (String × Outline) → List String
  | [] => []
  | (name, entry) :: rest => (name ++ ": " ++ entry.inline) :: inlineEntries rest

end

/-- The text of a line that is `level` levels deep: four blanks for each level. -/
def indent (level : Nat) : String :=
  String.ofList (List.replicate (4 * level) ' ')

/-- Lines between an opening and a closing bracket, one level deeper than `level`. -/
def block (level : Nat) (opening closing : String) (lines : List String) : String :=
  match lines with
  | [] => opening ++ closing
  | _ =>
    opening ++ "\n" ++ String.join (lines.map fun line => indent (level + 1) ++ line ++ "\n") ++
      indent level ++ closing

mutual

/-- The outline with every entry on a line of its own. -/
def indented (level : Nat) : Outline → String
  | .word text => text
  | .items entries => block level "[" "]" (indentedAll (level + 1) entries)
  | .table entries => block level openBrace closeBrace (indentedEntries (level + 1) entries)
  | .fields title entries more =>
    block level (title ++ " " ++ openBrace) closeBrace
      (indentedEntries (level + 1) entries ++ if more then [".."] else [])
  | .wrapped title value =>
    block level (title ++ "(") ")" [value.indented (level + 1) ++ ","]

/-- The entries of a list, each with its comma. -/
def indentedAll (level : Nat) : List Outline → List String
  | [] => []
  | entry :: rest => (entry.indented level ++ ",") :: indentedAll level rest

/-- The entries of a table or record, each with its comma. -/
def indentedEntries (level : Nat) : List (String × Outline) → List String
  | [] => []
  | (name, entry) :: rest =>
    (name ++ ": " ++ entry.indented level ++ ",") :: indentedEntries level rest

end

def pretty (outline : Outline) : String :=
  outline.indented 0

end Outline

end TapeNet
