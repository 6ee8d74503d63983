import TapeNet.Proofs.Network.Parallel

/-!
# The chunks of a queue

A queue goes out in chunks that follow each other without a gap, each as large
as it may be.  Only the last write can leave something of its chunk.  What it
leaves goes back to the front, so the queue is done exactly if every write was
taken whole, and nothing is ever lost.
-/

namespace TapeNet

namespace SendQueue

variable {σ : Type}

/-- No write takes more than it was offered. -/
def Honest (write : List UInt8 → σ → Option Nat × σ) : Prop :=
  ∀ bytes world taken next, write bytes world = (some taken, next) → taken ≤ bytes.length

/-- A write: what it was offered, and how much of it was taken, unless it failed. -/
structure Write where
  offered : List UInt8
  answer : Option Nat
  deriving DecidableEq

namespace Write

/-- The bytes that were taken. -/
def taken (write : Write) : List UInt8 :=
  write.offered.take (write.answer.getD 0)

/-- The bytes that were offered in vain. -/
def left (write : Write) : List UInt8 :=
  write.offered.drop (write.answer.getD 0)

def IsWhole (write : Write) : Prop :=
  write.answer = some write.offered.length

theorem taken_append_left (write : Write) : write.taken ++ write.left = write.offered :=
  List.take_append_drop _ _

theorem IsWhole.taken_eq {write : Write} (whole : write.IsWhole) : write.taken = write.offered := by
  rw [taken, whole, Option.getD_some, List.take_length]

/-- The write that took all of a chunk. -/
def whole (chunk : List UInt8) : Write :=
  ⟨chunk, some chunk.length⟩

end Write

/-- The bytes that were taken by some writes, in their order. -/
def takenIn (writes : List Write) : List UInt8 :=
  writes.flatMap Write.taken

/-- A way to write that keeps a list of the writes. -/
def logged (write : List UInt8 → σ → Option Nat × σ) (bytes : List UInt8)
    (state : σ × List Write) : Option Nat × σ × List Write :=
  let done := write bytes state.1
  (done.1, done.2, state.2 ++ [⟨bytes, done.1⟩])

/-- What is true of the writes that made `left` out of a queue, and whether that was all of it. -/
structure Chunked (queue : List UInt8) (done : Bool) (left : List UInt8) (writes : List Write) :
    Prop where
  /-- There are no more writes than chunks, so there is none for an empty queue. -/
  length_le : writes.length ≤ (queue.length + (chunkSize - 1)) / chunkSize
  /--
  Every write is offered the next chunk of what was not taken before, and every
  write but the last one is taken whole.
  -/
  turn : ∀ before write after, writes = before ++ write :: after →
    (∃ unsent, takenIn before ++ unsent = queue ∧ write.offered = unsent.take chunkSize) ∧
      (after ≠ [] → write.IsWhole)
  balance : takenIn writes ++ left = queue
  done_iff_left : done = true ↔ left = []
  done_iff_whole : done = true ↔ ∀ write ∈ writes, write.IsWhole

namespace Chunked

theorem nil : Chunked [] true [] [] where
  length_le := Nat.zero_le _
  turn before _ _ split := by simp at split
  balance := rfl
  done_iff_left := iff_of_true rfl rfl
  done_iff_whole := iff_of_true rfl fun _ member => nomatch member

variable {queue left : List UInt8} {done : Bool} {writes : List Write}

/-- A write that takes less than its chunk is the last one. -/
theorem last (some_left : queue ≠ []) {answer : Option Nat}
    (short : (Write.mk (queue.take chunkSize) answer).left ≠ []) :
    Chunked queue false ((Write.mk (queue.take chunkSize) answer).left ++ queue.drop chunkSize)
      [⟨queue.take chunkSize, answer⟩] where
  length_le := by
    have filled := List.length_pos_iff.mpr some_left
    simp only [List.length_singleton, chunkSize]
    omega
  turn before write after split := by
    cases before with
    | nil =>
        obtain ⟨rfl, rfl⟩ := List.cons.inj split
        exact ⟨⟨queue, rfl, rfl⟩, fun more => absurd rfl more⟩
    | cons _ before => simp at split
  balance := by
    rw [takenIn, List.flatMap_singleton, ← List.append_assoc, Write.taken_append_left,
      List.take_append_drop]
  done_iff_left := iff_of_false Bool.false_ne_true (List.append_ne_nil_of_left_ne_nil short _)
  done_iff_whole := by
    refine iff_of_false Bool.false_ne_true fun whole => short ?_
    have same : (Write.mk (queue.take chunkSize) answer).IsWhole := whole _ List.mem_cons_self
    rw [Write.left, same, Option.getD_some, List.drop_length]

/-- A chunk that is taken whole stands in front of those of the rest. -/
theorem cons (some_left : queue ≠ [])
    (later : Chunked (queue.drop chunkSize) done left writes) :
    Chunked queue done left (.whole (queue.take chunkSize) :: writes) := by
  have first : (Write.whole (queue.take chunkSize)).IsWhole := rfl
  have taken : ∀ writes, takenIn (.whole (queue.take chunkSize) :: writes) =
      queue.take chunkSize ++ takenIn writes := by
    intro writes
    rw [takenIn, List.flatMap_cons, first.taken_eq]
    rfl
  constructor
  · have filled := List.length_pos_iff.mpr some_left
    have bound := later.length_le
    simp only [List.length_cons, List.length_drop, chunkSize] at bound ⊢
    omega
  · intro before write after split
    cases before with
    | nil =>
        obtain ⟨rfl, _⟩ := List.cons.inj split
        exact ⟨⟨queue, rfl, rfl⟩, fun _ => first⟩
    | cons _ before =>
        obtain ⟨rfl, behind⟩ := List.cons.inj split
        obtain ⟨⟨unsent, rest, offered⟩, whole⟩ := later.turn before write after behind
        refine ⟨⟨unsent, ?_, offered⟩, whole⟩
        rw [taken, List.append_assoc, rest, List.take_append_drop]
  · rw [taken, List.append_assoc, later.balance, List.take_append_drop]
  · exact later.done_iff_left
  · rw [later.done_iff_whole, List.forall_mem_cons]
    exact (and_iff_right first).symm

end Chunked

/-- The writes by which a queue is sent are the same with and without a list of them. -/
theorem exists_flush_logged {write : List UInt8 → σ → Option Nat × σ} (honest : Honest write)
    (queue : List UInt8) (world : σ) :
    ∃ done left next writes, flush write queue world = (done, left, next) ∧
      (∀ log, flush (logged write) queue (world, log) = (done, left, next, log ++ writes)) ∧
      Chunked queue done left writes := by
  induction queue, world using flush.induct write with
  | case1 queue world nothing =>
      obtain rfl := List.isEmpty_iff.mp nothing
      refine ⟨true, [], world, [], flush_of_isEmpty nothing, fun log => ?_, .nil⟩
      rw [flush_of_isEmpty nothing, List.append_nil]
  | case2 queue world some_left chunk rest next =>
      rename_i wrote ih
      obtain ⟨done, left, last, writes, flushed, listed, chunked⟩ := ih
      refine ⟨done, left, last, .whole chunk :: writes,
        (flush_of_whole some_left wrote).trans flushed, fun log => ?_,
        .cons (mt List.isEmpty_iff.mpr some_left) chunked⟩
      have told : logged write chunk (world, log) =
          (some chunk.length, next, log ++ [.whole chunk]) := by
        rw [logged, wrote]
        rfl
      rw [flush_of_whole some_left told, listed, List.append_assoc]
      rfl
  | case3 queue world some_left chunk taken next wrote short =>
      have fewer : taken < chunk.length := Nat.lt_of_le_of_ne (honest _ _ _ _ wrote) short
      have vain : (Write.mk chunk (some taken)).left ≠ [] := fun nothing =>
        Nat.not_le_of_lt fewer (List.drop_eq_nil_iff.mp nothing)
      refine ⟨false, _, next, [⟨chunk, some taken⟩], flush_of_short some_left wrote short,
        fun log => ?_, .last (mt List.isEmpty_iff.mpr some_left) vain⟩
      have told : logged write chunk (world, log) =
          (some taken, next, log ++ [⟨chunk, some taken⟩]) := by
        rw [logged, wrote]
      exact flush_of_short some_left told short
  | case4 queue world some_left chunk next failed =>
      have filled : queue ≠ [] := mt List.isEmpty_iff.mpr some_left
      have vain : (Write.mk chunk none).left ≠ [] := fun nothing =>
        filled ((List.take_eq_nil_iff.mp nothing).resolve_left (by decide))
      refine ⟨false, _, next, [⟨chunk, none⟩], flush_of_failed some_left failed,
        fun log => ?_, .last filled vain⟩
      have told : logged write chunk (world, log) = (none, next, log ++ [⟨chunk, none⟩]) := by
        rw [logged, failed]
      exact flush_of_failed some_left told

/-! ### What is put back -/

/-- Puts bytes back at the front of a queue, the last one first. -/
def requeue (queue bytes : List UInt8) : List UInt8 :=
  bytes.reverse.foldl (fun queue byte => byte :: queue) queue

theorem requeue_eq (queue bytes : List UInt8) : requeue queue bytes = bytes ++ queue := by
  rw [requeue, List.foldl_reverse]
  exact List.foldr_cons_eq_append'

namespace Guarded

/-- The bytes from a place on, if the place is not behind the end. -/
def sliceFrom (bytes : List UInt8) (start : Nat) : Option (List UInt8) :=
  if start ≤ bytes.length then some (bytes.drop start) else none

/-- Hands the queue to `write`; there is no result if a slice starts behind the end of its chunk. -/
def flush (write : List UInt8 → σ → Option Nat × σ) (queue : List UInt8) (world : σ) :
    Option (Bool × List UInt8 × σ) :=
  if queue.isEmpty then
    some (true, [], world)
  else
    let size := min queue.length chunkSize
    let chunk := queue.take size
    let rest := queue.drop size
    match write chunk world with
    | (some taken, world) =>
      if taken = chunk.length then
        flush write rest world
      else do
        let unsent ← sliceFrom chunk taken
        some (false, requeue rest unsent, world)
    | (none, world) => some (false, requeue rest chunk, world)
termination_by queue.length
decreasing_by
  cases queue with
  | nil => contradiction
  | cons byte rest => simp only [List.length_drop, List.length_cons, chunkSize]; omega

theorem take_min (queue : List UInt8) :
    queue.take (min queue.length chunkSize) = queue.take chunkSize := by
  rw [Nat.min_comm, ← List.take_eq_take_min]

theorem drop_min (queue : List UInt8) :
    queue.drop (min queue.length chunkSize) = queue.drop chunkSize := by
  rcases Nat.le_total queue.length chunkSize with short | long
  · rw [Nat.min_eq_left short, List.drop_length, List.drop_of_length_le short]
  · rw [Nat.min_eq_right long]

/-- Over an honest writer every slice starts within its chunk. -/
theorem flush_eq {write : List UInt8 → σ → Option Nat × σ} (honest : Honest write)
    (queue : List UInt8) (world : σ) :
    flush write queue world = some (SendQueue.flush write queue world) := by
  induction queue, world using SendQueue.flush.induct write with
  | case1 queue world nothing => rw [flush, if_pos nothing, flush_of_isEmpty nothing]
  | case2 queue world some_left chunk rest next =>
      rename_i wrote ih
      have told : write (queue.take chunkSize) world =
        (some (queue.take chunkSize).length, next) := wrote
      rw [flush, if_neg some_left, flush_of_whole some_left wrote]
      simp only [take_min, drop_min, told, if_true]
      exact ih
  | case3 queue world some_left chunk taken next wrote short =>
      have told : write (queue.take chunkSize) world = (some taken, next) := wrote
      have fits : taken ≤ (queue.take chunkSize).length := honest _ _ _ _ wrote
      rw [flush, if_neg some_left, flush_of_short some_left wrote short]
      simp only [take_min, drop_min, told, sliceFrom, if_pos fits]
      rw [Option.bind_eq_bind, Option.bind_some, requeue_eq]
      exact if_neg short
  | case4 queue world some_left chunk next failed =>
      have told : write (queue.take chunkSize) world = (none, next) := failed
      rw [flush, if_neg some_left, flush_of_failed some_left failed]
      simp only [take_min, drop_min, told, requeue_eq]

end Guarded

/--
An honest writer is handed a queue in at most as many writes as it has chunks,
none of which skips or repeats a byte.  All slices are in range, and the answer
says exactly whether everything was taken.
-/
theorem flush_chunked {write : List UInt8 → σ → Option Nat × σ} (honest : Honest write)
    (queue : List UInt8) (world : σ) :
    ∃ done left next writes,
      flush write queue world = (done, left, next) ∧
      Guarded.flush write queue world = some (done, left, next) ∧
      flush (logged write) queue (world, []) = (done, left, next, writes) ∧
      Chunked queue done left writes := by
  obtain ⟨done, left, next, writes, flushed, listed, chunked⟩ :=
    exists_flush_logged honest queue world
  have guarded := Guarded.flush_eq honest queue world
  rw [flushed] at guarded
  exact ⟨done, left, next, writes, flushed, guarded, listed [], chunked⟩

/-- A writer that follows a script: it takes as many bytes as it can up to a limit, or fails. -/
def scripted (bytes : List UInt8) : List (Option Nat) → Option Nat × List (Option Nat)
  | some limit :: script => (some (min limit bytes.length), script)
  | none :: script => (none, script)
  | [] => (none, [])

/-- Bytes for three chunks, of which the last one is not full. -/
def threeChunks : List UInt8 :=
  (List.range 2500).map UInt8.ofNat

theorem flush_chunked_cutShort :
    Honest scripted ∧ ∃ done left next writes,
      flush scripted threeChunks [some 2000, some 600, none] = (done, left, next) ∧
      Guarded.flush scripted threeChunks [some 2000, some 600, none] = some (done, left, next) ∧
      flush (logged scripted) threeChunks ([some 2000, some 600, none], []) =
        (done, left, next, writes) ∧
      Chunked threeChunks done left writes := by
  have honest : Honest scripted := by
    intro bytes script taken next wrote
    match script with
    | some limit :: script =>
        cases wrote
        exact Nat.min_le_right _ _
    | none :: script => cases wrote
    | [] => cases wrote
  exact ⟨honest, flush_chunked honest threeChunks [some 2000, some 600, none]⟩

end SendQueue

end TapeNet
