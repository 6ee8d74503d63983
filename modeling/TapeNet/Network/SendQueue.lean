/-!
# Sending a queue

A queue of bytes goes out in chunks of bounded size.  A chunk that is not
taken whole ends the attempt, and what was not taken of it goes back to the
front of the queue.
-/

namespace TapeNet

namespace SendQueue

/-- No write is offered more bytes than this. -/
def chunkSize : Nat := 1024

/--
Hands the queue to `write`, chunk after chunk: whether all of it was taken,
what is left of it, and the state of the world afterwards.
-/
def flush {σ : Type} (write : List UInt8 → σ → Option Nat × σ) (queue : List UInt8)
    (world : σ) : Bool × List UInt8 × σ :=
  if queue.isEmpty then
    (true, [], world)
  else
    let chunk := queue.take chunkSize
    let rest := queue.drop chunkSize
    match write chunk world with
    | (some taken, world) =>
      if taken = chunk.length then
        flush write rest world
      else
        (false, chunk.drop taken ++ rest, world)
    | (none, world) => (false, chunk ++ rest, world)
termination_by queue.length
decreasing_by
  cases queue with
  | nil => contradiction
  | cons byte rest => simp only [List.length_drop, List.length_cons, chunkSize]; omega

end SendQueue

end TapeNet
