import TapeNet.Numeral

/-!
# Internet addresses

Addresses of the two versions of the protocol, and the way they are printed: a
version 6 address in lower case, with its first longest run of zero groups
left out, and one that stands for a version 4 address with that address shown.
-/

namespace TapeNet

/-- An internet address: four bytes, or eight groups of sixteen bits. -/
inductive Address where
  | v4 (octets : Vector UInt8 4)
  | v6 (groups : Vector UInt16 8)
  deriving DecidableEq

/-- A place that a listener can be bound to: an address and a port. -/
structure Endpoint where
  address : Address
  port : Nat
  deriving DecidableEq

namespace Address

/-- The version 4 address that stands for all addresses of a machine. -/
def anyV4 : Address := .v4 #v[0, 0, 0, 0]

def anyV6 : Address := .v6 #v[0, 0, 0, 0, 0, 0, 0, 0]

def loopbackV4 : Address := .v4 #v[127, 0, 0, 1]

def loopbackV6 : Address := .v6 #v[0, 0, 0, 0, 0, 0, 0, 1]

instance : Inhabited Address := ⟨anyV4⟩

/-- The address that stands for all addresses of the same version. -/
def any : Address → Address
  | .v4 _ => anyV4
  | .v6 _ => anyV6

def loopback : Address → Address
  | .v4 _ => loopbackV4
  | .v6 _ => loopbackV6

def isAny (address : Address) : Bool :=
  address == address.any

/-- The address to dial in order to reach a listener bound to `address`. -/
def reachable (address : Address) : Address :=
  if address.isAny then address.loopback else address

/-- Four bytes in decimal, separated by points. -/
def dotted (octets : List UInt8) : String :=
  String.intercalate "." (octets.map fun octet => Numeral.decimal octet.toNat)

/-- Groups in hexadecimal, separated by colons. -/
def coloned (groups : List UInt16) : String :=
  String.intercalate ":" (groups.map fun group => Numeral.hexadecimal group.toNat)

def octetsOf (group : UInt16) : List UInt8 :=
  [(group >>> 8).toUInt8, group.toUInt8]

/-- The version 4 address that a version 6 address stands for. -/
def mapped? : List UInt16 → Option (List UInt8)
  | [0, 0, 0, 0, 0, 0xFFFF, high, low] => some (octetsOf high ++ octetsOf low)
  | _ => none

/-- A run of zero groups: where it starts and how many there are. -/
structure ZeroRun where
  start : Nat
  size : Nat
  deriving DecidableEq, Repr

/-- The number of zero groups that a list begins with. -/
def leadingZeros (groups : List UInt16) : Nat :=
  (groups.takeWhile (· == 0)).length

/-- The first of the longest runs of zero groups; `start` is the index of the first group. -/
def longestZeroRun (start : Nat) : List UInt16 → ZeroRun
  | [] => ⟨start, 0⟩
  | group :: rest =>
    let here : ZeroRun := ⟨start, leadingZeros (group :: rest)⟩
    let later := longestZeroRun (start + 1) rest
    if later.size ≤ here.size then here else later

/-- Eight groups, with the first longest run of at least two zero groups left out. -/
def shortened (groups : List UInt16) : String :=
  let run := longestZeroRun 0 groups
  if 1 < run.size then
    coloned (groups.take run.start) ++ "::" ++ coloned (groups.drop (run.start + run.size))
  else
    coloned groups

def text : Address → String
  | .v4 octets => dotted octets.toList
  | .v6 groups =>
    match mapped? groups.toList with
    | some octets => "::ffff:" ++ dotted octets
    | none => shortened groups.toList

end Address

end TapeNet
