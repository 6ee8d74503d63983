import TapeNet.Numeral

/-!
# Command lines

There are two commands, one that runs a program within a limit and one that
runs it without.  Both take the path of the program and three switches, the
first also an option for its limit.  Arguments are taken from left to right
and the first problem wins.  The path and the value of an option are only
looked at when the argument after them has been recognised.
-/

namespace TapeNet

namespace CommandLine

/-- Why there is nothing to run. -/
inductive Refusal where
  | help
  | version
  | missingCommand
  | unknownCommand
  | missingFile
  /-- There is no such option, or there is a second path. -/
  | unknownArgument
  | repeated
  | needlessValue
  /-- A value is empty, or missing. -/
  | emptyValue
  | invalidLimit
  deriving DecidableEq, Repr

namespace Refusal

def message : Refusal → String
  | help => ""
  | version => ""
  | missingCommand => "a command is missing"
  | unknownCommand => "there is no such command"
  | missingFile => "the path of a program is missing"
  | unknownArgument => "there is no such argument"
  | repeated => "an option is given twice"
  | needlessValue => "a switch takes no value"
  | emptyValue => "a value is missing"
  | invalidLimit => "the limit is not a number"

end Refusal

/-- What both commands are told. -/
structure RunArguments where
  file : String
  report : Bool := false
  reportJson : Bool := false
  fold : Bool := false
  deriving DecidableEq, Repr

inductive Command where
  | run (arguments : RunArguments) (limit : Nat)
  | runUnlimited (arguments : RunArguments)
  deriving DecidableEq, Repr

/-- The limit of a run when none is given. -/
def defaultLimit : Nat := 1000000000

def limitBound : Nat := Nat.pow 2 64

/-- The number that a text writes in decimal digits, perhaps after a plus sign. -/
def limit? (text : String) : Option Nat :=
  let digits :=
    match text.toList with
    | '+' :: rest => rest
    | chars => chars
  match digits.mapM Numeral.digit? with
  | none | some [] => none
  | some values =>
    let value := Numeral.ofDigits 10 values
    if value < limitBound then some value else none

/-- A word that has been seen but not looked at. -/
inductive Pending where
  | nothing
  | file (path : String)
  | limit (value : Option String)
  deriving DecidableEq, Repr

/-- What the arguments so far say. -/
structure Draft where
  file : Option String := none
  report : Bool := false
  reportJson : Bool := false
  fold : Bool := false
  limit : Option Nat := none
  pending : Pending := .nothing
  /-- Whether all further arguments are paths, whatever they look like. -/
  pathsOnly : Bool := false
  deriving DecidableEq, Repr

inductive Shape where
  | dashes
  /-- Two dashes and a name, perhaps with a value behind an equals sign. -/
  | long (name : List Char) (value : Option String)
  /-- One dash and letters; only the first one counts. -/
  | short (letter : Char)
  | word
  deriving DecidableEq, Repr

namespace Shape

def ofText (text : String) : Shape :=
  match text.toList with
  | ['-', '-'] => .dashes
  | '-' :: '-' :: rest =>
    let name := rest.takeWhile (· != '=')
    match rest.dropWhile (· != '=') with
    | [] => .long name none
    | _ :: value => .long name (some (String.ofList value))
  | '-' :: letter :: _ => .short letter
  | _ => .word

end Shape

namespace Draft

def withLimit (draft : Draft) (text : String) : Except Refusal Draft :=
  if draft.limit.isSome then
    .error .repeated
  else
    match limit? text with
    | some value => .ok { draft with limit := some value, pending := .nothing }
    | none => .error .invalidLimit

/-- Looks at the word that is pending. -/
def resolve (draft : Draft) : Except Refusal Draft :=
  match draft.pending with
  | .nothing => .ok draft
  | .file "" => .error .emptyValue
  | .file path => .ok { draft with file := some path, pending := .nothing }
  | .limit none => .error .emptyValue
  | .limit (some text) => draft.withLimit text

/-- Sets a switch that is not set yet. -/
def switch (draft : Draft) (value : Option String) (get : Draft → Bool) (set : Draft → Draft) :
    Except Refusal Draft :=
  if value.isSome then
    .error .needlessValue
  else do
    let draft ← draft.resolve
    if get draft then throw .repeated else return set draft

def path (draft : Draft) (text : String) : Except Refusal Draft :=
  match draft.file, draft.pending with
  | none, .file _ | some _, _ => .error .unknownArgument
  | none, _ => do
    let draft ← draft.resolve
    return { draft with pending := .file text }

/-- Takes one argument; `limited` says that there is an option for the limit. -/
def next (limited : Bool) (draft : Draft) (text : String) : Except Refusal Draft :=
  if draft.pathsOnly then
    draft.path text
  else
    match Shape.ofText text with
    | .dashes => .ok { draft with pathsOnly := true }
    | .long name value =>
      if name = ['h', 'e', 'l', 'p'] then
        if value.isSome then .error .needlessValue
        else do
          let _ ← draft.resolve
          throw .help
      else if name = ['r', 'e', 'p', 'o', 'r', 't'] then
        draft.switch value (·.report) fun draft => { draft with report := true }
      else if name = ['r', 'e', 'p', 'o', 'r', 't', '-', 'j', 's', 'o', 'n'] then
        draft.switch value (·.reportJson) fun draft => { draft with reportJson := true }
      else if name = ['f', 'o', 'l', 'd'] then
        draft.switch value (·.fold) fun draft => { draft with fold := true }
      else if limited ∧ name = ['l', 'i', 'm', 'i', 't'] then do
        let draft ← draft.resolve
        match value with
        | some text => draft.withLimit text
        | none => return { draft with pending := .limit none }
      else
        .error .unknownArgument
    | .short letter =>
      if letter = 'h' then do
        let _ ← draft.resolve
        throw .help
      else
        .error .unknownArgument
    | .word =>
      match draft.pending with
      | .limit none => .ok { draft with pending := .limit (some text) }
      | _ => draft.path text

def ofList (limited : Bool) (arguments : List String) : Except Refusal Draft := do
  let draft ← arguments.foldlM (next limited) {}
  draft.resolve

def arguments (draft : Draft) : Except Refusal RunArguments :=
  match draft.file with
  | some file =>
    .ok
      { file, report := draft.report, reportJson := draft.reportJson, fold := draft.fold }
  | none => .error .missingFile

end Draft

/-- The arguments of a run without a limit. -/
def RunArguments.ofList (arguments : List String) : Except Refusal RunArguments := do
  let draft ← Draft.ofList false arguments
  draft.arguments

/--
The command with a limit.  A limit among the arguments comes first, then
`setting`, the text of an environment variable if it is set and `none` in it
if that text is not readable, and then the default.
-/
def Command.ofRun (arguments : List String) (setting : Option (Option String)) :
    Except Refusal Command := do
  let draft ← Draft.ofList true arguments
  let limit ←
    match draft.limit, setting with
    | some value, _ => pure value
    | none, none => pure defaultLimit
    | none, some text =>
      match text.bind limit? with
      | some value => pure value
      | none => throw .invalidLimit
  let arguments ← draft.arguments
  return .run arguments limit

/-- Whether a word names a command that help can be given about. -/
def isCommandName (word : String) : Bool :=
  ["run", "run-unlimited", "rununlimited", "help"].contains word

/-- What follows from a request for help about the words after it. -/
def helpAbout : List String → Refusal
  | [] => .help
  | [word] => if isCommandName word then .help else .unknownCommand
  | _ => .unknownCommand

/-- The command that a whole command line asks for. -/
def Command.ofList (arguments : List String) (setting : Option (Option String)) :
    Except Refusal Command :=
  match arguments with
  | [] => .error .missingCommand
  | first :: rest =>
    match Shape.ofText first with
    | .dashes => .error (if rest.isEmpty then .missingCommand else .unknownCommand)
    | .long name value =>
      if name = ['h', 'e', 'l', 'p'] then
        .error (if value.isSome then .needlessValue else .help)
      else if name = ['v', 'e', 'r', 's', 'i', 'o', 'n'] then
        .error (if value.isSome then .needlessValue else .version)
      else
        .error .unknownArgument
    | .short letter =>
      .error (if letter = 'h' then .help else if letter = 'V' then .version else .unknownArgument)
    | .word =>
      if first = "run" then
        Command.ofRun rest setting
      else if first = "run-unlimited" ∨ first = "rununlimited" then do
        let arguments ← RunArguments.ofList rest
        return .runUnlimited arguments
      else if first = "help" then
        .error (helpAbout rest)
      else
        .error .unknownCommand

end CommandLine

end TapeNet
