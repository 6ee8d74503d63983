import TapeNet.Proofs.Network.Calls

/-!
# Chronicles

The chronicle of some moves lists all their calls, each with its answer, and
behind the calls of a move its end.  It is a row of deeds that ends with what
the network then holds; it tells which bytes were put into the queue, and what
was read in it is what attempts to receive have given.
-/

namespace TapeNet

namespace Network

variable {σ : Type}

namespace Move

/-- The byte that an attempt to receive gives in a move. -/
def obtained (transport : Transport σ) (move : Move) (net : Network) (world : σ) : List UInt8 :=
  match move with
  | receive => (net.obtained transport world).toList
  | approach => (net.approach transport world).1.toList
  | collect => (net.collect transport world).1.toList
  | _ => []

/-- Listing the calls of a move does not alter it; they and its end are deeds that read `got`. -/
structure Traced (move : Move) (start : Hold) (before : List Signal) (got : List UInt8)
    (plain : Network × σ) (told : Network × σ × List Call) : Prop where
  same : told = (plain.1, plain.2, told.2.2)
  deeds : Deeds start (before ++ told.2.2.map .call ++ [.done move]) plain.1.hold
  reads : told.2.2.flatMap Call.got = got

theorem Uses.leaves_eq {move : Move} (uses : move.Uses) (queue : List UInt8) :
    move.leaves queue = queue := by
  cases move with
  | setPort byte => cases uses.port
  | enqueue byte => cases uses.queue
  | setTimeout | push | receive | reset | settle | approach | collect => exact List.append_nil queue

end Move

variable {start : Hold} {before : List Signal}

/-- The end of a move behind its calls. -/
theorem Deeds.finish {net last : Network} {move : Move} (deeds : Deeds start before net.hold)
    (same : last.hold = { net.hold with queue := move.leaves net.hold.queue }) :
    Deeds start (before ++ [.done move]) last.hold := by
  rw [same]
  exact .more deeds (.done net.hold move)

theorem Matched.traced {α : Type} {move : Move} (uses : move.Uses) {got : α → List UInt8}
    {plain : α × Network × σ} {told : α × Network × σ × List Call}
    (matched : Matched (fun result => Traces start before (got result)) plain told) :
    move.Traced start before (got plain.1) plain.2 told.2 := by
  obtain @⟨result, last, world, ⟨_, calls⟩, traces⟩ := matched
  obtain rfl := traces.same
  refine ⟨rfl, traces.deeds.finish ?_, traces.reads⟩
  rw [uses.leaves_eq]

section

variable (transport : Transport σ)

theorem traces_refl {net : Network} (deeds : Deeds start before net.hold) (world : σ) :
    Traces start before [] net world (world, []) := by
  refine ⟨rfl, ?_, rfl⟩
  rw [List.map_nil, List.append_nil]
  exact deeds

theorem Move.make_traced (move : Move) {net : Network} (world : σ)
    (deeds : Deeds start before net.hold) :
    move.Traced start before (move.obtained transport net world) (move.make transport net world)
      (move.make transport.traced net (world, [])) := by
  have parallel := traces_parallel transport start before
  have refl := traces_refl deeds world
  cases move with
  | setPort byte =>
      have traces := refl.reset transport
      refine ⟨?_, traces.deeds.finish rfl, traces.reads⟩
      exact Prod.ext rfl (Prod.ext traces.same rfl)
  | setTimeout byte =>
      have same : (net.setTimeout byte).hold =
          { net.hold with queue := (setTimeout byte).leaves net.hold.queue } := by
        simp only [Move.leaves, queued, List.append_nil]
        rfl
      exact ⟨rfl, refl.deeds.finish same, rfl⟩
  | enqueue byte =>
      have same : (net.enqueue byte).hold =
          { net.hold with queue := (enqueue byte).leaves net.hold.queue } := by
        simp only [Network.enqueue, hold, Move.leaves, queued, Array.toList_push]
      exact ⟨rfl, refl.deeds.finish same, rfl⟩
  | push => exact (parallel.push refl).traced ⟨rfl, rfl, rfl⟩
  | receive => exact (parallel.receive refl).traced ⟨rfl, rfl, rfl⟩
  | reset => exact (parallel.reset refl).traced ⟨rfl, rfl, rfl⟩
  | settle => exact (parallel.settle refl).traced ⟨rfl, rfl, rfl⟩
  | approach => exact (parallel.approach refl).traced ⟨rfl, rfl, rfl⟩
  | collect => exact (parallel.collect refl).traced ⟨rfl, rfl, rfl⟩

/--
The calls of several moves with their answers, and behind those of a move its
end.  That listing the calls alters nothing is `Move.make_traced`.
-/
def chronicle : List Move → Network → σ → List Signal
  | [], _, _ => []
  | move :: moves, net, world =>
    let (last, next) := move.make transport net world
    (move.make transport.traced net (world, [])).2.2.map .call ++ .done move ::
      chronicle moves last next

/-- The bytes that attempts to receive give in several moves. -/
def obtainedIn : List Move → Network → σ → List UInt8
  | [], _, _ => []
  | move :: moves, net, world =>
    let (last, next) := move.make transport net world
    move.obtained transport net world ++ obtainedIn moves last next

/-- A chronicle is a row of deeds, up to what the network holds in the end. -/
theorem chronicle_deeds (moves : List Move) {net : Network} (world : σ)
    (deeds : Deeds start before net.hold) :
    Deeds start (before ++ chronicle transport moves net world)
      (play transport moves net world).1.hold := by
  induction moves generalizing net world before with
  | nil =>
      rw [chronicle, List.append_nil]
      exact deeds
  | cons move moves ih =>
      have first := (move.make_traced transport world deeds).deeds
      have later := ih (move.make transport net world).2 first
      rwa [List.append_assoc, List.append_assoc] at later

/-- What is read in a chronicle is what attempts to receive give. -/
theorem chronicle_got (moves : List Move) {net : Network} (world : σ)
    (deeds : Deeds start before net.hold) :
    (chronicle transport moves net world).flatMap Signal.got =
      obtainedIn transport moves net world := by
  induction moves generalizing net world before with
  | nil => rfl
  | cons move moves ih =>
      have traced := move.make_traced transport world deeds
      rw [chronicle, List.flatMap_append, List.flatMap_map, List.flatMap_cons,
        ih (move.make transport net world).2 traced.deeds]
      exact congrArg (· ++ _) traced.reads

end

end Network

end TapeNet
