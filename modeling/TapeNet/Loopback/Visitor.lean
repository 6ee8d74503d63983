import TapeNet.Loopback

/-!
# Visitors of a loopback world

Peers in the background act one after the other, each as far as it can.  They
get their turn whenever a network waits.
-/

namespace TapeNet

namespace Loopback

/--
What a visitor hears: so many bytes, or all up to the end of the stream.
Nothing yet if it has to go on waiting.
-/
def hear? (world : Loopback) (connection : ConnectionId) (reads : Option Nat) :
    Option (List UInt8 × Bool) :=
  match world.ends[connection]? with
  | none => some ([], true)
  | some side =>
    let bytes := (side.inbox.extract side.taken side.inbox.size).toList
    match reads with
    | some count =>
      if count ≤ bytes.length then some (bytes.take count, false)
      else if side.ended then some (bytes, true)
      else none
    | none => if side.ended then some (bytes, true) else none

/-- Lets the first visitor go: its connection is closed and the next one follows. -/
def farewell (world : Loopback) (connection : ConnectionId) (account : VisitAccount) : Loopback :=
  let world := world.close connection
  { world with visitors := world.visitors.tail, accounts := account :: world.accounts }

/-- The world in which the first visitor has come to `stage`. -/
def withStage (world : Loopback) (stage : VisitStage) : Loopback :=
  match world.visitors with
  | [] => world
  | visitor :: later => { world with visitors := { visitor with stage } :: later }

/-- The next thing that the first visitor can do, if there is one. -/
def visitorStep? (world : Loopback) : Option Loopback :=
  match world.visitors with
  | [] => none
  | { visit, stage } :: _ =>
    match visit, stage with
    | .listen port _ _, .planned =>
      match world.bind ⟨world.addresses.target, port⟩ with
      | (some listener, world) => some (world.withStage (.bound listener))
      | (none, _) => none
    | .listen _ greeting _, .bound listener =>
      match world.accept listener with
      | (some connection, world) =>
        some (((world.unbind listener).deliver connection greeting).withStage (.talking connection))
      | (none, _) => none
    | .connect port greeting endsWriting reads, .planned =>
      match world.connect ⟨world.addresses.listen.reachable, port⟩ with
      | (some connection, world) =>
        let world := world.deliver connection greeting
        let world := if endsWriting then world.endWriting connection else world
        if reads.isSome then some (world.withStage (.talking connection))
        else some (world.farewell connection .sent)
      | (none, _) => none
    | .listen _ _ reads, .talking connection | .connect _ _ _ reads, .talking connection =>
      (world.hear? connection reads).map fun heard =>
        world.farewell connection (.heard heard.1 heard.2)
    | .connect _ _ _ _, .bound _ => none

/-- Lets the visitors do up to `steps` things. -/
def attendWithin : Nat → Loopback → Loopback
  | 0, world => world
  | steps + 1, world =>
    match world.visitorStep? with
    | some world => attendWithin steps world
    | none => world

/-- Lets the visitors do all that they can; each has at most three things to do. -/
def attend (world : Loopback) : Loopback :=
  attendWithin (3 * world.visitors.length) world

/-- Announces visits that follow those which are planned already. -/
def invite (world : Loopback) (visits : List Visit) : Loopback :=
  { world with visitors := world.visitors ++ visits.map fun visit => { visit } }

/-- What the visitors have told since the last time, in their order. -/
def collect (world : Loopback) : List VisitAccount × Loopback :=
  let world := world.attend
  (world.accounts.reverse, { world with accounts := [] })

end Loopback

end TapeNet
