import TapeNet.Numeral

/-!
# Tokens of a JSON text

A JSON text is cut into tokens by a machine that looks at one character at a
time.  What is wrong with a text matters only once somebody looks at the place,
and may depend on how: a value that is read must have a meaning, one that is
skipped need only have the right form.  So a token can carry the fault that
its reader meets.
-/

namespace TapeNet

namespace Json

/-- What can be wrong with a text. -/
inductive Fault where
  | malformed
  /-- It is JSON so far, but of the wrong shape. -/
  | mismatched
  | cutShort
  deriving DecidableEq, Repr

/-- What a number is worth to a reader of whole numbers. -/
inductive Number where
  /-- A whole number below 2^64 without sign, fraction or exponent. -/
  | natural (value : Nat)
  /-- Any other number that does not exceed the range of double precision. -/
  | other
  | excessive
  deriving DecidableEq, Repr

/-- The pieces of a JSON text. -/
inductive Token where
  | openObject
  | closeObject
  | openList
  | closeList
  | colon
  | comma
  /-- One of the three words for nothing, true and false. -/
  | null
  | truth (value : Bool)
  | number (value : Number)
  /-- A string; there is no value if an escape in it has the right form but no meaning. -/
  | string (value : Option String)
  /-- A string that breaks off; the faults are those of a reader and of somebody who skips it. -/
  | brokenString (whenRead whenSkipped : Fault)
  /-- A word or number that breaks off, likewise. -/
  | broken (whenRead whenSkipped : Fault)
  /-- A character that begins no token. -/
  | stray
  deriving DecidableEq

/-- How far a number has been taken in. -/
inductive NumberPhase where
  | sign
  | zero
  | whole
  | point
  | fraction
  | mark
  | markSign
  | exponent
  deriving DecidableEq, Repr

/-- A number as far as it has been taken in. -/
structure PartialNumber where
  phase : NumberPhase
  negative : Bool := false
  /-- All digits in front of the exponent, read as one number. -/
  digits : Nat := 0
  /-- How many of them stand behind the point. -/
  places : Nat := 0
  exponentNegative : Bool := false
  exponent : Nat := 0
  deriving DecidableEq, Repr

namespace PartialNumber

/-- Whole numbers of this size and above are like numbers with a fraction. -/
def naturalLimit : Nat := Nat.pow 2 64

/-- Numbers of this size and above round to no double. -/
def doubleLimit : Nat := Nat.pow 2 1024 - Nat.pow 2 970

/--
Whether `digits * 10 ^ power` reaches the limit.  Large powers are decided by
the number of digits alone.
-/
def reachesLimit (digits : Nat) (power : Int) : Bool :=
  if digits = 0 then
    false
  else
    let magnitude : Int := (Nat.toDigits 10 digits).length + power
    if 320 < magnitude then true
    else if magnitude < 300 then false
    else if 0 ≤ power then doubleLimit ≤ digits * Nat.pow 10 power.toNat
    else doubleLimit * Nat.pow 10 (-power).toNat ≤ digits

/-- The worth of a number that is complete. -/
def worth (n : PartialNumber) : Number :=
  let whole := n.phase = .zero ∨ n.phase = .whole
  if whole ∧ n.negative = false ∧ n.digits < naturalLimit then
    .natural n.digits
  else
    let exponent : Int := if n.exponentNegative then -n.exponent else n.exponent
    if reachesLimit n.digits (exponent - n.places) then .excessive else .other

def mayEnd (n : PartialNumber) : Bool :=
  match n.phase with
  | .zero | .whole | .fraction | .exponent => true
  | .sign | .point | .mark | .markSign => false

def withDigit (n : PartialNumber) (phase : NumberPhase) (digit : Nat) : PartialNumber :=
  { n with phase, digits := n.digits * 10 + digit }

def withPlace (n : PartialNumber) (digit : Nat) : PartialNumber :=
  { n.withDigit .fraction digit with places := n.places + 1 }

def withExponent (n : PartialNumber) (digit : Nat) : PartialNumber :=
  { n with phase := .exponent, exponent := n.exponent * 10 + digit }

inductive Next where
  | more (n : PartialNumber)
  | ends
  | breaks

/-- A character that can follow a complete whole part or fraction and is no digit. -/
def afterDigits (n : PartialNumber) (c : Char) (pointAllowed : Bool) : Next :=
  if c = '.' ∧ pointAllowed then .more { n with phase := .point }
  else if c = 'e' ∨ c = 'E' then .more { n with phase := .mark }
  else .ends

def next (n : PartialNumber) (c : Char) : Next :=
  match n.phase, Numeral.digit? c with
  | .sign, some 0 => .more { n with phase := .zero }
  | .sign, some digit => .more (n.withDigit .whole digit)
  | .sign, none => .breaks
  | .zero, some _ => .breaks
  | .zero, none => n.afterDigits c true
  | .whole, some digit => .more (n.withDigit .whole digit)
  | .whole, none => n.afterDigits c true
  | .point, some digit => .more (n.withPlace digit)
  | .point, none => .breaks
  | .fraction, some digit => .more (n.withPlace digit)
  | .fraction, none => n.afterDigits c false
  | .mark, some digit => .more (n.withExponent digit)
  | .mark, none =>
    if c = '+' then .more { n with phase := .markSign }
    else if c = '-' then .more { n with phase := .markSign, exponentNegative := true }
    else .breaks
  | .markSign, some digit => .more (n.withExponent digit)
  | .markSign, none => .breaks
  | .exponent, some digit => .more (n.withExponent digit)
  | .exponent, none => .ends

end PartialNumber

/-- What a string expects next. -/
inductive StringPhase where
  | plain
  | escape
  /-- The rest of a code unit; the characters of it seen so far, the last one first. -/
  | unit (seen : List Char)
  deriving DecidableEq, Repr

/-- A string as far as it has been taken in. -/
structure PartialString where
  phase : StringPhase := .plain
  /-- The characters so far, the last one first. -/
  chars : List Char := []
  /-- The first half of a pair of code units whose second half must follow at once. -/
  half : Option Nat := none
  /-- Whether something without a meaning has been found. -/
  meaningless : Bool := false
  deriving DecidableEq, Repr

namespace PartialString

def push (s : PartialString) (c : Char) : PartialString :=
  { s with phase := .plain, chars := c :: s.chars }

/-- The same string, in which something without a meaning has been found. -/
def spoil (s : PartialString) : PartialString :=
  { s with half := none, meaningless := true }

/-- A first half of a pair is meaningless unless the second one follows. -/
def loseHalf (s : PartialString) : PartialString :=
  if s.half.isSome then s.spoil else s

/-- Takes in a whole code unit. -/
def pushUnit (s : PartialString) (unit : Nat) : PartialString :=
  let s := { s with phase := .plain }
  match s.half with
  | some high =>
    if 0xDC00 ≤ unit ∧ unit ≤ 0xDFFF then
      { s.push (Char.ofNat (0x10000 + (high - 0xD800) * 0x400 + (unit - 0xDC00))) with half := none }
    else
      s.spoil
  | none =>
    if 0xD800 ≤ unit ∧ unit ≤ 0xDBFF then { s with half := some unit }
    else if 0xDC00 ≤ unit ∧ unit ≤ 0xDFFF then s.spoil
    else s.push (Char.ofNat unit)

def escaped? (c : Char) : Option Char :=
  if c = '"' ∨ c = '\\' ∨ c = '/' then some c
  else if c = 'b' then some '\x08'
  else if c = 'f' then some '\x0c'
  else if c = 'n' then some '\n'
  else if c = 'r' then some '\r'
  else if c = 't' then some '\t'
  else none

inductive Next where
  | more (s : PartialString)
  | ends (s : PartialString)
  | breaks

def next (s : PartialString) (c : Char) : Next :=
  match s.phase with
  | .plain =>
    if c = '"' then .ends s.loseHalf
    else if c = '\\' then .more { s with phase := .escape }
    else if c.toNat < 0x20 then .breaks
    else .more (s.loseHalf.push c)
  | .escape =>
    if c = 'u' then
      .more { s with phase := .unit [] }
    else
      match escaped? c with
      | some meant => .more (s.loseHalf.push meant)
      | none => .breaks
  | .unit seen =>
    let seen := c :: seen
    if (String.ofList seen).utf8ByteSize < 4 then
      .more { s with phase := .unit seen }
    else
      match seen.reverse.mapM Numeral.hexDigit? with
      | some values => .more (s.pushUnit (Numeral.ofDigits 16 values))
      | none => .breaks

/-- The value of a complete string, if it has one. -/
def worth (s : PartialString) : Option String :=
  if s.meaningless then none else some (String.ofList s.chars.reverse)

end PartialString

/-- What the machine that cuts a text is in the middle of. -/
inductive Scan where
  | between
  /-- A word of which the letters `left` are still to come; `token` is what it means. -/
  | word (left : List Char) (token : Token)
  | number (n : PartialNumber)
  | string (s : PartialString)
  /-- The rest does not matter, because nobody can read past a fault. -/
  | stopped
  deriving DecidableEq

namespace Scan

/-- Takes in a character that belongs to no token yet. -/
def begin (c : Char) : List Token × Scan :=
  if c = ' ' ∨ c = '\n' ∨ c = '\t' ∨ c = '\r' then ([], .between)
  else if c = '\x7b' then ([.openObject], .between)
  else if c = '\x7d' then ([.closeObject], .between)
  else if c = '[' then ([.openList], .between)
  else if c = ']' then ([.closeList], .between)
  else if c = ':' then ([.colon], .between)
  else if c = ',' then ([.comma], .between)
  else if c = 'n' then ([], .word ['u', 'l', 'l'] .null)
  else if c = 't' then ([], .word ['r', 'u', 'e'] (.truth true))
  else if c = 'f' then ([], .word ['a', 'l', 's', 'e'] (.truth false))
  else if c = '-' then ([], .number { phase := .sign, negative := true })
  else if c = '0' then ([], .number { phase := .zero })
  else if c = '"' then ([], .string {})
  else
    match Numeral.digit? c with
    | some digit => ([], .number { phase := .whole, digits := digit })
    | none => ([.stray], .stopped)

/-- Takes in one character: the tokens that it completes, and what comes next. -/
def next : Scan → Char → List Token × Scan
  | .between, c => begin c
  | .word [] token, c =>
    let (tokens, scan) := begin c
    (token :: tokens, scan)
  | .word (letter :: left) token, c =>
    if c = letter then
      if left.isEmpty then ([token], .between) else ([], .word left token)
    else
      ([.broken .malformed .malformed], .stopped)
  | .number n, c =>
    match n.next c with
    | .more n => ([], .number n)
    | .ends =>
      let (tokens, scan) := begin c
      (.number n.worth :: tokens, scan)
    | .breaks => ([.broken .malformed .malformed], .stopped)
  | .string s, c =>
    match s.next c with
    | .more s => ([], .string s)
    | .ends s => ([.string s.worth], .between)
    | .breaks => ([.brokenString .malformed .malformed], .stopped)
  | .stopped, _ => ([], .stopped)

/--
The token that the end of the text completes.  A number that breaks off there
is cut short for a reader and malformed for somebody who skips it.
-/
def finish : Scan → List Token
  | .between | .stopped => []
  | .word _ _ => [.broken .cutShort .cutShort]
  | .number n =>
    if n.mayEnd then [.number n.worth] else [.broken .cutShort .malformed]
  | .string s => [.brokenString (if s.meaningless then .malformed else .cutShort) .cutShort]

/-- The tokens of a text whose beginning has been taken in already. -/
def tokens : Scan → List Char → List Token
  | scan, [] => scan.finish
  | scan, c :: rest =>
    let (found, scan) := scan.next c
    found ++ scan.tokens rest

end Scan

/-- The tokens of a text, up to the first that is no token. -/
def tokens (text : String) : List Token :=
  Scan.between.tokens text.toList

end Json

end TapeNet
