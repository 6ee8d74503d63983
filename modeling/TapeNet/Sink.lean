/-!
# Byte sinks

Where a program's output goes.  A sink is a script with one word for each
write that is still to come; after the script every write succeeds.
-/

namespace TapeNet

/-- What one write does. -/
inductive SinkWord where
  | all
  /-- Takes nothing and says so. -/
  | zero
  /-- Takes everything and says that it took two bytes. -/
  | two
  | failure
  | interrupted
  /-- Takes everything and makes the next flush fail. -/
  | flushFailure
  deriving DecidableEq, Repr

inductive SinkFault where
  | failed
  | interrupted
  deriving DecidableEq, Repr

/-- A sink: the words to come, the bytes taken, and the calls made so far. -/
structure Sink where
  script : List SinkWord := []
  taken : Array UInt8 := #[]
  flushFails : Bool := false
  writes : Nat := 0
  flushes : Nat := 0
  deriving Inhabited

namespace Sink

def failureText : String := "sink error"

def flushFailureText : String := "flush error"

/-- The text of a write of several bytes of which none was taken. -/
def nothingTakenText : String := "failed to write whole buffer"

/-- The sink after it was handed `bytes` and took them all. -/
def take (sink : Sink) (bytes : List UInt8) : Sink :=
  { sink with taken := bytes.foldl Array.push sink.taken }

/-- Makes one write: what it answers (the number of bytes it says it took), and the sink after it. -/
def write (sink : Sink) (bytes : List UInt8) : Except SinkFault Nat × Sink :=
  let sink := { sink with writes := sink.writes + 1 }
  match sink.script with
  | [] => (.ok bytes.length, sink.take bytes)
  | word :: script =>
    let sink := { sink with script }
    match word with
    | .all => (.ok bytes.length, sink.take bytes)
    | .zero => (.ok 0, sink)
    | .two => (.ok 2, sink.take bytes)
    | .failure => (.error .failed, sink)
    | .interrupted => (.error .interrupted, sink)
    | .flushFailure => (.ok bytes.length, { sink.take bytes with flushFails := true })

/-- Flushes: whether that succeeded, and the sink after it. -/
def flush (sink : Sink) : Bool × Sink :=
  (!sink.flushFails, { sink with flushFails := false, flushes := sink.flushes + 1 })

/--
Writes one byte and, unless the write failed, flushes.  This succeeds if the
write says that it took exactly one byte and the flush succeeds.
-/
def emit (sink : Sink) (byte : UInt8) : Bool × Sink :=
  match sink.write [byte] with
  | (.error _, sink) => (false, sink)
  | (.ok count, sink) =>
    let (flushed, sink) := sink.flush
    (flushed && count == 1, sink)

/--
Writes all of `bytes`, in as many writes as it takes; `attempts` bounds their
number.  An interrupted write is repeated; each other write must take
something, and what it says that it took is not offered again.
-/
def writeWithin (bytes : List UInt8) : Nat → Sink → Except String Unit × Sink
  | 0, sink => (.ok (), sink)
  | attempts + 1, sink =>
    if bytes.isEmpty then
      (.ok (), sink)
    else
      match sink.write bytes with
      | (.error .interrupted, sink) => writeWithin bytes attempts sink
      | (.error .failed, sink) => (.error failureText, sink)
      | (.ok 0, sink) => (.error nothingTakenText, sink)
      | (.ok count, sink) => writeWithin (bytes.drop count) attempts sink

/--
Writes all of `bytes`.  Every write uses up a word of the script and a write
without one takes everything, so one attempt more than there are words is
enough.
-/
def writeAll (sink : Sink) (bytes : List UInt8) : Except String Unit × Sink :=
  writeWithin bytes (sink.script.length + 1) sink

/-- Writes all of `bytes` and then flushes once. -/
def announce (sink : Sink) (bytes : List UInt8) : Except String Unit × Sink :=
  match sink.writeAll bytes with
  | (.error reason, sink) => (.error reason, sink)
  | (.ok (), sink) =>
    match sink.flush with
    | (true, sink) => (.ok (), sink)
    | (false, sink) => (.error flushFailureText, sink)

end Sink

end TapeNet
