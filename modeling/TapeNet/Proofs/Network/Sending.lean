import TapeNet.Proofs.Network.Moves

/-!
# No byte is lost, sent twice or out of order

Whatever a network does between two choices of a port, the bytes that writes
took, over all its connections, and behind them those that wait are the bytes
that were put into the queue.
-/

namespace TapeNet

/-- The bytes that a write took. -/
def Event.taken : Event → List UInt8
  | wrote _ taken => taken
  | _ => []

namespace Network

/-- The bytes that writes took, according to a record. -/
def sent (events : List Event) : List UInt8 :=
  events.flatMap Event.taken

theorem sent_append (events later : List Event) :
    sent (events ++ later) = sent events ++ sent later :=
  List.flatMap_append

theorem sent_closing (net : Network) : sent net.closing = [] := by
  unfold closing
  rw [sent_append]
  cases net.listener with
  | none =>
      cases net.connection with
      | none | some connection => rfl
  | some listener =>
      cases net.connection with
      | none | some connection => rfl

theorem adopt_queue (net : Network) (arrival : Arrival) : (net.adopt arrival).queue = net.queue := by
  cases arrival with
  | nobody | peer connection | failed => rfl

/-- One change sends nothing, or bytes from the front of the queue. -/
theorem Change.sent_queue {net last : Network} {events : List Event}
    (change : Change net events last) : sent events ++ last.queue.toList = net.queue.toList := by
  cases change with
  | close =>
      rw [sent_closing]
      rfl
  | dial | listen => rfl
  | arrive waits arrival =>
      rw [adopt_queue]
      rfl
  | write connected queued =>
      rw [queued]
      simp only [sent, List.flatMap_singleton, Event.taken]

theorem Changes.sent_queue {net last : Network} {events : List Event}
    (changes : Changes net events last) : sent events ++ last.queue.toList = net.queue.toList := by
  induction changes with
  | none => rfl
  | more first _ ih => rw [sent_append, List.append_assoc, ih, first.sent_queue]

/-- The bytes that were put into the queue in some turns. -/
def queuedIn (turns : List Turn) : List UInt8 :=
  turns.flatMap fun turn => turn.move.queued

/-- The bytes that writes took in some turns. -/
def sentIn (turns : List Turn) : List UInt8 :=
  turns.flatMap fun turn => sent turn.events

/-- The turns since the last choice of a port, with one more: another choice starts anew. -/
def sinceWith (since : List Turn) (turn : Turn) : List Turn :=
  match turn.move with
  | .setPort _ => []
  | _ => since ++ [turn]

/-- The turns behind the last one that selects a port. -/
def sincePort (turns : List Turn) : List Turn :=
  turns.foldl sinceWith []

/-- In a balance, the bytes sent and those that wait are the bytes queued. -/
def Balanced (turns : List Turn) (net : Network) : Prop :=
  sentIn turns ++ net.queue.toList = queuedIn turns

theorem sinceWith_of_uses {move : Move} (uses : move.Uses) (since : List Turn) (events : List Event) :
    sinceWith since ⟨move, events⟩ = since ++ [⟨move, events⟩] := by
  cases move with
  | setPort byte => cases uses.port
  | _ => rfl

/-- Every move keeps the balance. -/
theorem Move.Makes.balanced {since : List Turn} {move : Move} {net last : Network}
    {events : List Event} (makes : move.Makes net events last) (balanced : Balanced since net) :
    Balanced (sinceWith since ⟨move, events⟩) last := by
  unfold Balanced at balanced ⊢
  cases makes with
  | setPort byte => rfl
  | setTimeout byte =>
      simp only [sinceWith, sentIn, queuedIn, List.flatMap_append] at balanced ⊢
      rw [← balanced]
      simp [Move.queued, sent, Network.setTimeout]
  | enqueue byte =>
      simp only [sinceWith, sentIn, queuedIn, List.flatMap_append] at balanced ⊢
      rw [← balanced]
      simp [Move.queued, sent, Network.enqueue]
  | other uses changes =>
      have moved := changes.sent_queue
      rw [sinceWith_of_uses uses]
      simp only [sentIn, queuedIn, List.flatMap_append, List.flatMap_singleton, uses.queue,
        List.append_nil] at balanced ⊢
      rw [List.append_assoc, moved, balanced]

section

variable {σ : Type} (transport : Transport σ)

/-- Several moves keep the balance. -/
theorem play_balanced {since : List Turn} (moves : List Move) {net : Network} (world : σ)
    (balanced : Balanced since net) :
    Balanced ((history transport moves net world).foldl sinceWith since)
      (play transport moves net world).1 := by
  induction moves generalizing since net world with
  | nil => exact balanced
  | cons move moves ih =>
      exact ih _ ((move.makes transport net world).balanced balanced)

/--
At any time, the bytes that writes took since the port was last selected, in
the order of the writes, and behind them the bytes that wait are exactly the
bytes that were put into the queue since then, in this order.
-/
theorem sent_append_queue (addresses : Addresses) (world : σ) (moves : List Move) :
    sentIn (sincePort (history transport moves (fresh addresses) world)) ++
        (play transport moves (fresh addresses) world).1.queue.toList =
      queuedIn (sincePort (history transport moves (fresh addresses) world)) :=
  play_balanced transport moves world (rfl : Balanced [] (fresh addresses))

end

end Network

end TapeNet
