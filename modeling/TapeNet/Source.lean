/-!
# Byte sources

Where a program's text and its input come from.  A source is a script of what
its reads will meet: bytes, the end, an interruption, a failure.  After the
script every read meets the end.
-/

namespace TapeNet

/-- What reads of a source meet. -/
inductive SourceEvent where
  /-- Bytes, given out as many at a time as a read asks for. -/
  | bytes (chunk : List UInt8)
  /-- One read that meets the end. -/
  | ended
  /-- One read that is interrupted. -/
  | interrupted
  /-- One read that fails for the given reason. -/
  | failure (reason : String)
  deriving DecidableEq, Repr

/-- A source: what its reads will meet, and how many single-byte reads were made. -/
structure Source where
  script : List SourceEvent := []
  reads : Nat := 0
  deriving Inhabited

namespace Source

def ofBytes (bytes : List UInt8) : Source :=
  { script := [.bytes bytes] }

/-- The byte that one single-byte read gets, if any, and the script behind it. -/
def nextByte : List SourceEvent → Option UInt8 × List SourceEvent
  | [] => (none, [])
  | .bytes [] :: rest => nextByte rest
  | .bytes (byte :: chunk) :: rest => (some byte, .bytes chunk :: rest)
  | .ended :: rest => (none, rest)
  | .interrupted :: rest => (none, rest)
  | .failure _ :: rest => (none, rest)

/-- Makes one single-byte read; every way of getting no byte counts as none. -/
def readByte (source : Source) : Option UInt8 × Source :=
  let (byte, script) := nextByte source.script
  (byte, { script, reads := source.reads + 1 })

/--
Reads to the end of a script: an interruption is read over, the first read
that meets the end stops, and a failure is the reason why there is no text.
-/
def contents : List SourceEvent → Except String (List UInt8)
  | [] => .ok []
  | .bytes chunk :: rest =>
    match contents rest with
    | .ok bytes => .ok (chunk ++ bytes)
    | .error reason => .error reason
  | .ended :: _ => .ok []
  | .interrupted :: rest => contents rest
  | .failure reason :: _ => .error reason

/-- All the bytes of a source up to its end. -/
def readAll (source : Source) : Except String (List UInt8) :=
  contents source.script

end Source

end TapeNet
