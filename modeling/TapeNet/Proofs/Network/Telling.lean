import TapeNet.Proofs.Network.Recording

/-!
# Operations as rows of changes

A transport and the same one with a record go side by side, and every call
adds to the record what it changes.  So every operation, from a single chunk to
the attempts that are repeated until one succeeds, is a row of changes and
gives the same whether they are recorded or not.
-/

namespace TapeNet

namespace Network

variable {σ α : Type}

/-- A world beside one with a record, where changes since a start stand behind a log. -/
def Follows (start : Network) (log : List Event) (_got : List UInt8) (net : Network) (world : σ)
    (told : σ × List Event) : Prop :=
  ∃ events, told = (world, log ++ events) ∧ Changes start events net

variable {start net last : Network} {log events later : List Event} {got : List UInt8}

theorem Changes.follows (before : Changes start events net) (after : Changes net later last)
    (world : σ) : Follows start log got last world (world, log ++ events ++ later) := by
  refine ⟨events ++ later, ?_, before.trans after⟩
  rw [List.append_assoc]

/-- Every call to a transport with a record leaves there what it changes. -/
theorem follows_parallel (transport : Transport σ) (start : Network) (log : List Event) :
    Parallel transport transport.recorded (Follows start log) where
  resets := by
    rintro got net world _ ⟨events, rfl, changes⟩
    obtain ⟨world', plain, told⟩ := reset_recorded transport net (log ++ events) world
    rw [plain, told]
    exact changes.follows (.single (.close net)) world'
  dials := by
    rintro got net world _ ⟨events, rfl, changes⟩ no_listener no_connection
    refine ⟨rfl, changes.follows ?_ _⟩
    cases (transport.dial ⟨net.addresses.target, net.port⟩ net.timeout world).1 with
    | none => exact .none net
    | some connection => exact .single (.dial ⟨no_listener, no_connection⟩ connection)
  listens := by
    rintro got net world _ ⟨events, rfl, changes⟩ no_listener no_connection
    refine ⟨rfl, changes.follows ?_ _⟩
    cases (transport.listen ⟨net.addresses.listen, net.port⟩ world).1 with
    | none => exact .none net
    | some listener => exact .single (.listen ⟨no_listener, no_connection⟩ listener)
  polls := by
    rintro got net world _ listener ⟨events, rfl, changes⟩ waits
    exact ⟨rfl, changes.follows (.single (.arrive waits _)) _⟩
  awaits := by
    rintro got net world _ listener ⟨events, rfl, changes⟩ waits
    exact ⟨rfl, changes.follows (.single (.arrive waits _)) _⟩
  writes := by
    rintro got net world _ connection chunk rest ⟨events, rfl, changes⟩ connected queued
    refine ⟨rfl, changes.follows (.single (.write connected ?_)) _⟩
    rw [← List.append_assoc, List.take_append_drop]
    exact queued
  reads := by
    rintro got net world _ connection ⟨events, rfl, changes⟩ connected
    exact ⟨rfl, events, rfl, changes⟩
  pauses := by
    rintro got net world _ ⟨events, rfl, changes⟩
    exact ⟨events, rfl, changes⟩
  patience := by
    rintro got net world _ ⟨events, rfl, changes⟩
    rfl

variable {got : α → List UInt8} {plain : α × Network × σ} {told : α × Network × σ × List Event}

theorem Matched.tells
    (matched : Matched (fun result => Follows start log (got result)) plain told) :
    Tells start log plain told := by
  obtain ⟨events, rfl, changes⟩ := matched
  exact ⟨changes⟩

section Operations

variable (transport : Transport σ) (net : Network) (log : List Event) (world : σ)

theorem follows_refl : Follows net log [] net world (world, log) :=
  ⟨[], by rw [List.append_nil], .none net⟩

theorem tells_reset :
    Tells net log ((), net.reset transport world) ((), net.reset transport.recorded (world, log)) :=
  ((follows_parallel transport net log).reset (follows_refl net log world)).tells

theorem tells_settle :
    Tells net log ((), net.settle transport world)
      ((), net.settle transport.recorded (world, log)) :=
  ((follows_parallel transport net log).settle (follows_refl net log world)).tells

theorem tells_push :
    Tells net log (net.push transport world) (net.push transport.recorded (world, log)) :=
  ((follows_parallel transport net log).push (follows_refl net log world)).tells

theorem tells_approach :
    Tells net log (net.approach transport world) (net.approach transport.recorded (world, log)) :=
  ((follows_parallel transport net log).approach (follows_refl net log world)).tells

theorem tells_collect :
    Tells net log (net.collect transport world) (net.collect transport.recorded (world, log)) :=
  ((follows_parallel transport net log).collect (follows_refl net log world)).tells

theorem tells_receive :
    Tells net log (net.receive transport world) (net.receive transport.recorded (world, log)) :=
  ((follows_parallel transport net log).receive (follows_refl net log world)).tells

end Operations

end Network

end TapeNet
