import TapeNet.Address

/-!
# Reading addresses

The accepted forms are strict.  A version 4 address is four decimal numbers
below 256 without leading zeros, separated by points.  A version 6 address is
groups of one to four hexadecimal digits, separated by colons; `::` stands for
at least one zero group, and the last two groups may be written as a version 4
address.
-/

namespace TapeNet

namespace Address

/-- A reader takes something from the front of a text, or fails and takes nothing. -/
abbrev Reader (α : Type) := List Char → Option (α × List Char)

namespace Reader

def char (expected : Char) : Reader Unit
  | c :: rest => if c = expected then some ((), rest) else none
  | [] => none

/-- Takes the longest row of digits. -/
def digits (digit? : Char → Option Nat) : List Char → List Nat × List Char
  | [] => ([], [])
  | c :: rest =>
    match digit? c with
    | some value =>
      let (values, rest) := digits digit? rest
      (value :: values, rest)
    | none => ([], c :: rest)

/-- Takes a decimal number below 256 of at most three digits, without leading zeros. -/
def octet : Reader UInt8 := fun text =>
  match digits Numeral.digit? text with
  | ([], _) => none
  | (values, rest) =>
    let value := Numeral.ofDigits 10 values
    if 3 < values.length ∨ 255 < value ∨ (values.head? = some 0 ∧ 1 < values.length) then
      none
    else
      some (UInt8.ofNat value, rest)

def group : Reader UInt16 := fun text =>
  match digits Numeral.hexDigit? text with
  | ([], _) => none
  | (values, rest) =>
    if 4 < values.length then none else some (UInt16.ofNat (Numeral.ofDigits 16 values), rest)

/-- Takes what `item` takes, after a separator unless it is the `first` of its row. -/
def separated {α : Type} (separator : Char) (first : Bool) (item : Reader α) : Reader α := fun text =>
  if first then item text
  else (char separator text).bind fun taken => item taken.2

/-- Takes four numbers separated by points. -/
def octets : Reader (Vector UInt8 4) := fun text => do
  let (a, text) ← separated '.' true octet text
  let (b, text) ← separated '.' false octet text
  let (c, text) ← separated '.' false octet text
  let (d, text) ← separated '.' false octet text
  return (#v[a, b, c, d], text)

def joined (high low : UInt8) : UInt16 :=
  (high.toUInt16 <<< 8) ||| low.toUInt16

/--
Takes at most `room` groups.  While there is room for two, four numbers
separated by points are taken as two groups and end the row.  Gives the groups
taken and whether they ended in that way.
-/
def groups (first : Bool) : Nat → List Char → (List UInt16 × Bool) × List Char
  | 0, text => (([], false), text)
  | room + 1, text =>
    match if room = 0 then none else separated ':' first octets text with
    | some (taken, rest) => (([joined taken[0] taken[1], joined taken[2] taken[3]], true), rest)
    | none =>
      match separated ':' first group text with
      | some (value, rest) =>
        let ((values, dotted), rest) := groups false room rest
        ((value :: values, dotted), rest)
      | none => (([], false), text)

/-- A list of groups as an address: its first eight, with zeros for those that are missing. -/
def eight (values : List UInt16) : Vector UInt16 8 :=
  Vector.ofFn fun place => values.getD place.val 0

/--
Takes a version 6 address: eight groups, or fewer in front of `::` and at most
as many behind it as leave one group out.
-/
def groupsV6 : Reader (Vector UInt16 8) := fun text =>
  let ((front, dotted), rest) := groups true 8 text
  if front.length = 8 then
    some (eight front, rest)
  else if dotted then
    none
  else do
    let (_, rest) ← char ':' rest
    let (_, rest) ← char ':' rest
    let ((back, _), rest) := groups true (8 - (front.length + 1)) rest
    let zeros := List.replicate (8 - (front.length + back.length)) 0
    return (eight (front ++ zeros ++ back), rest)

/-- Takes an address of either version; version 4 is tried first. -/
def address : Reader Address := fun text =>
  match octets text with
  | some (taken, rest) => some (.v4 taken, rest)
  | none => (groupsV6 text).map fun taken => (.v6 taken.1, taken.2)

end Reader

/-- The address that a whole text is the written form of. -/
def parse? (text : String) : Option Address :=
  match Reader.address text.toList with
  | some (address, []) => some address
  | _ => none

end Address

end TapeNet
