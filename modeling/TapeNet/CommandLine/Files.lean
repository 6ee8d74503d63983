import TapeNet.Source

/-!
# Files

What the command line needs to know about files: a path leads to the bytes of
a file, to a directory, which can be opened but not read, or nowhere.
-/

namespace TapeNet

namespace CommandLine

/-- Something that a path can lead to. -/
inductive Entry where
  | file (bytes : List UInt8)
  | directory
  deriving DecidableEq, Repr

/-- The entries of a directory, by their names. -/
abbrev Files := List (String × Entry)

namespace Entry

/-- What reading a directory says. -/
def directoryText : String := "Is a directory (os error 21)"

/-- What opening says when a path leads nowhere. -/
def missingText : String := "No such file or directory (os error 2)"

/-- What opening says when a path goes through a file. -/
def notDirectoryText : String := "Not a directory (os error 20)"

/-- What opening says when a path holds a character that no path can hold. -/
def nullText : String := "file name contained an unexpected NUL byte"

/-- What opening says when a name has more than 255 bytes. -/
def longNameText : String := "File name too long (os error 36)"

def source : Entry → Source
  | file bytes => .ofBytes bytes
  | directory => { script := [.failure directoryText] }

end Entry

namespace Files

def parts : List Char → List (List Char)
  | [] => [[]]
  | c :: rest =>
    match c, parts rest with
    | '/', found => [] :: found
    | c, [] => [[c]]
    | c, part :: found => (c :: part) :: found

/-- Whether a part of a path stays where it is. -/
def stays (part : List Char) : Bool :=
  part == [] || part == ['.']

def isLong (part : List Char) : Bool :=
  255 < (String.ofList part).utf8ByteSize

/-- What a path leads to, or what opening it says. -/
def find (files : Files) (path : String) : Except String Entry :=
  let all := parts path.toList
  if path.contains '\x00' then .error Entry.nullText
  else if all.any isLong then .error Entry.longNameText
  else
    let absolute := path.toList.head? == some '/'
    match all.filter fun part => !stays part with
    | [] => .ok .directory
    | name :: deeper =>
      if absolute then .error Entry.missingText
      else if name = ['.', '.'] then
        if deeper.isEmpty then .ok .directory else .error Entry.missingText
      else
        match files.lookup (String.ofList name) with
        | none => .error Entry.missingText
        | some .directory =>
          if deeper.isEmpty then .ok .directory else .error Entry.missingText
        | some (.file bytes) =>
          if all.getLast? == some name then .ok (.file bytes) else .error Entry.notDirectoryText

def openSource (files : Files) (path : String) : Except String Source :=
  (files.find path).map Entry.source

end Files

end CommandLine

end TapeNet
