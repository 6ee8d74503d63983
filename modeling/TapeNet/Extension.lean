/-!
# Instruction-set extensions

A source may begin with a header, `tl:` followed by extension names that are
separated by colons.  The names found there enable further opcodes.  Reading
the header never fails: it ends at the first byte that cannot continue it and
keeps what was enabled so far.
-/

namespace TapeNet

/--
A set of extensions, one bit each.  Bits that belong to no extension may be
set and are kept.
-/
structure Extensions where
  bits : UInt8
  deriving DecidableEq, Repr

namespace Extensions

def empty : Extensions := ⟨0⟩

def net : Extensions := ⟨1⟩

instance : Inhabited Extensions := ⟨empty⟩

/-- Everything enabled in either set. -/
def union (first second : Extensions) : Extensions :=
  ⟨first.bits ||| second.bits⟩

/-- Whether every extension of `other` is enabled. -/
def contains (enabled other : Extensions) : Bool :=
  enabled.bits &&& other.bits == other.bits

def isEmpty (enabled : Extensions) : Bool :=
  enabled.bits == 0

/-- Sets are ordered by their bits, read as a number. -/
instance : Ord Extensions := ⟨fun first second => compare first.bits second.bits⟩

/-- The extensions that a header can name, in the order in which they are listed. -/
def supported : List (List Char × Extensions) :=
  [(['n', 'e', 't'], net)]

def nameBytes (name : List Char) : List UInt8 :=
  name.map Char.toUInt8

/-- The extension that a header calls by `name`. -/
def named? (name : List UInt8) : Option Extensions :=
  (supported.find? fun entry => nameBytes entry.1 == name).map Prod.snd

/-- Whether `byte` occurs in the name of a supported extension. -/
def isNameByte (byte : UInt8) : Bool :=
  supported.any fun entry => (nameBytes entry.1).contains byte

/-- The bytes that open a header, `tl:`. -/
def header : List UInt8 := ['t', 'l', ':'].map Char.toUInt8

/-- The byte between two names of a header, a colon. -/
def separator : UInt8 := ':'.toUInt8

/-- No extension's name is longer than this. -/
def longestName : Nat := 3

/--
Reads the names of a header.  `name` holds the bytes of the current name and
`found` what the names before it enabled.  A name ends at a separator, or at
any byte once it has its full length; in the second case the header ends there.
-/
def readNames : List UInt8 → List UInt8 → Extensions → Extensions
  | [], _, found => found
  | byte :: rest, name, found =>
    if byte = separator then
      match named? name with
      | some extension => readNames rest [] (found.union extension)
      | none => found
    else if name.length = longestName then
      match named? name with
      | some extension => found.union extension
      | none => found
    else if isNameByte byte then
      readNames rest (name ++ [byte]) found
    else
      found

/--
The extensions that the header of `source` enables.  A source no longer than
the opening bytes and one full name has no header.
-/
def detect (source : List UInt8) : Extensions :=
  if source.length ≤ header.length + longestName then
    empty
  else if header.isPrefixOf source then
    readNames (source.drop header.length) [] empty
  else
    empty

/-- The names of the enabled extensions, joined as in a header. -/
def text (enabled : Extensions) : String :=
  match supported.filter fun entry => enabled.contains entry.2 with
  | [] => "none"
  | entries => String.intercalate ":" (entries.map fun entry => String.ofList entry.1)

end Extensions

end TapeNet
