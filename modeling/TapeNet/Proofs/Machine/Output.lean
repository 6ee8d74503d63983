import TapeNet.Proofs.Machine.Step

/-!
# Output

A sink that takes everything is never noticed by a machine.  Two machines that
differ only in what such sinks took beforehand go through the same steps and
write the same bytes, each behind what its own sink held.
-/

namespace TapeNet

namespace Sink

/-- Every write takes everything, and every flush succeeds. -/
structure TakesAll (sink : Sink) : Prop where
  script : ∀ word ∈ sink.script, word = .all
  flushes : sink.flushFails = false

theorem takesAll_blank : TakesAll {} :=
  ⟨fun _ member => (List.not_mem_nil member).elim, rfl⟩

namespace TakesAll

variable {sink : Sink}

theorem write (takes : sink.TakesAll) (bytes : List UInt8) :
    ∃ next, sink.write bytes = (.ok bytes.length, next) ∧ next.TakesAll ∧
      next.taken = sink.taken ++ bytes.toArray := by
  have taken : bytes.foldl Array.push sink.taken = sink.taken ++ bytes.toArray :=
    List.foldl_push_eq_append'
  have known := takes.script
  unfold Sink.write
  cases script : sink.script with
  | nil => exact ⟨_, rfl, ⟨script ▸ known, takes.flushes⟩, taken⟩
  | cons word rest =>
      rw [script] at known
      obtain rfl := known word List.mem_cons_self
      exact ⟨_, rfl, ⟨fun _ member => known _ (List.mem_cons_of_mem _ member), takes.flushes⟩, taken⟩

theorem flush (takes : sink.TakesAll) :
    ∃ next, sink.flush = (true, next) ∧ next.TakesAll ∧ next.taken = sink.taken := by
  have succeeds : sink.flush =
      (true, { sink with flushFails := false, flushes := sink.flushes + 1 }) := by
    rw [Sink.flush, takes.flushes]
    rfl
  exact ⟨_, succeeds, ⟨takes.script, rfl⟩, rfl⟩

theorem emit (takes : sink.TakesAll) (byte : UInt8) :
    ∃ next, sink.emit byte = (true, next) ∧ next.TakesAll ∧
      next.taken = sink.taken ++ #[byte] := by
  obtain ⟨written, wrote, takes', taken⟩ := takes.write [byte]
  obtain ⟨next, flushed, takes'', kept⟩ := takes'.flush
  refine ⟨next, ?_, takes'', kept.trans taken⟩
  simp only [Sink.emit, wrote, flushed]
  rfl

theorem writeAll (takes : sink.TakesAll) (bytes : List UInt8) :
    ∃ next, sink.writeAll bytes = (.ok (), next) ∧ next.TakesAll ∧
      next.taken = sink.taken ++ bytes.toArray := by
  cases bytes with
  | nil => exact ⟨sink, rfl, takes, (Array.append_empty).symm⟩
  | cons byte rest =>
      obtain ⟨next, wrote, takes', taken⟩ := takes.write (byte :: rest)
      refine ⟨next, ?_, takes', taken⟩
      have nothing : (byte :: rest).drop (rest.length + 1) = [] := List.drop_length
      simp only [Sink.writeAll, writeWithin, List.isEmpty_cons, Bool.false_eq_true, if_false,
        wrote, List.length_cons, nothing]
      cases sink.script.length with
      | zero | succ attempts => rfl

theorem announce (takes : sink.TakesAll) (bytes : List UInt8) :
    ∃ next, sink.announce bytes = (.ok (), next) ∧ next.TakesAll ∧
      next.taken = sink.taken ++ bytes.toArray := by
  obtain ⟨written, wrote, takes', taken⟩ := takes.writeAll bytes
  obtain ⟨next, flushed, takes'', kept⟩ := takes'.flush
  refine ⟨next, ?_, takes'', kept.trans taken⟩
  simp only [Sink.announce, wrote, flushed]

end TakesAll

end Sink

namespace Machine

variable {σ : Type} (transport : Transport σ)

/-- The machine with another source and another sink. -/
def fitted (m : Machine σ) (source : Source) (sink : Sink) : Machine σ :=
  { m with source, sink }

/-- The same machine, but for what its sink took before everything else. -/
structure Apart (before : Array UInt8) (first second : Machine σ) : Prop where
  same : first = { second with sink := first.sink }
  takes : first.sink.TakesAll
  takes' : second.sink.TakesAll
  taken : first.sink.taken = before ++ second.sink.taken

/-- Only the output opcode reads or changes the sink. -/
theorem perform_withSink (m : Machine σ) (sink : Sink) {op : Opcode} (silent : op ≠ .output)
    (count : Nat) :
    ({ m with sink } : Machine σ).perform transport op count =
      ({ (m.perform transport op count).1 with sink }, (m.perform transport op count).2) := by
  cases op with
  | output => exact absurd rfl silent
  | input =>
      simp only [perform, readIn]
      split <;> rfl
  | loopStart =>
      simp only [perform, enterLoop]
      split <;> rfl
  | loopEnd =>
      simp only [perform, repeatLoop]
      split <;> rfl
  | receive =>
      simp only [perform, receiveIn]
      split <;> rfl
  | flush =>
      simp only [perform, sendOut]
      split <;> rfl
  | _ => rfl

theorem perform_sink (m : Machine σ) {op : Opcode} (silent : op ≠ .output) (count : Nat) :
    (m.perform transport op count).1.sink = m.sink :=
  congrArg (fun result => result.1.sink) (perform_withSink transport m m.sink silent count)

theorem apart_fitted (m : Machine σ) (source : Source) {sink : Sink} (takes : sink.TakesAll) :
    Apart sink.taken (m.fitted source sink) (m.fitted source {}) :=
  ⟨rfl, takes, Sink.takesAll_blank, Array.append_empty.symm⟩

namespace Apart

variable {before : Array UInt8} {first second : Machine σ}

theorem writeOut (apart : Apart before first second) :
    Apart before first.writeOut.1 second.writeOut.1 ∧
      first.writeOut.2 = second.writeOut.2 := by
  have cell : first.tape.cell = second.tape.cell := by rw [apart.same]
  obtain ⟨sink, wrote, takes, taken⟩ := apart.takes.emit second.tape.cell
  obtain ⟨sink', wrote', takes', taken'⟩ := apart.takes'.emit second.tape.cell
  simp only [Machine.writeOut, cell, wrote, wrote']
  refine ⟨⟨?_, takes, takes', ?_⟩, trivial⟩
  · rw [apart.same]
  · rw [taken, taken', apart.taken, Array.append_assoc]

theorem perform (apart : Apart before first second) (op : Opcode) (count : Nat) :
    Apart before (first.perform transport op count).1 (second.perform transport op count).1 ∧
      (first.perform transport op count).2 = (second.perform transport op count).2 := by
  by_cases speaks : op = .output
  · obtain rfl := speaks
    exact apart.writeOut
  · have frame := perform_withSink transport second first.sink speaks count
    rw [← apart.same] at frame
    have sink := perform_sink transport second speaks count
    rw [frame]
    refine ⟨⟨rfl, apart.takes, ?_, ?_⟩, rfl⟩
    · rw [sink]
      exact apart.takes'
    · rw [sink]
      exact apart.taken

theorem execute (apart : Apart before first second) (op : Opcode) (count : Nat) :
    Apart before (first.execute transport op count).1 (second.execute transport op count).1 ∧
      (first.execute transport op count).2 = (second.execute transport op count).2 := by
  have pointer : first.tape.pointer = second.tape.pointer := by rw [apart.same]
  obtain ⟨after, stop⟩ := apart.perform transport op count
  unfold Machine.execute
  simp only [stop, pointer]
  generalize first.perform transport op count = result at after ⊢
  obtain ⟨last, _⟩ := result
  obtain ⟨same, takes, takes', taken⟩ := after
  split
  · refine ⟨⟨?_, takes, takes', taken⟩, rfl⟩
    rw [same]
  · refine ⟨⟨?_, takes, takes', taken⟩, rfl⟩
    rw [same]

theorem withCode (apart : Apart before first second) (code : Code) :
    Apart before { first with code } { second with code } := by
  refine ⟨?_, apart.takes, apart.takes', apart.taken⟩
  rw [apart.same]

/-- Both machines take the same step. -/
theorem step (apart : Apart before first second) :
    Apart before (first.step transport).1 (second.step transport).1 ∧
      (first.step transport).2 = (second.step transport).2 := by
  have code : first.code = second.code := by rw [apart.same]
  have options : first.options = second.options := by rw [apart.same]
  rcases step_cases transport second with
    ⟨ended, finished⟩ | ⟨byte, here, unknown, stopped⟩ | ⟨op, here, decoded, executed⟩
  · rw [finished, step_of_end transport (m := first) (by rw [code, ended])]
    exact ⟨apart, rfl⟩
  · rw [stopped, step_of_unknown transport (m := first) (by rw [code, here]) (by rw [code, unknown])]
    have behind : first.popped = second.popped := by rw [popped, code, popped]
    rw [behind]
    exact ⟨apart.withCode second.popped, rfl⟩
  · rw [executed, step_of_opcode transport (m := first) (by rw [code, here]) (by rw [code, decoded])]
    have behind : first.popped = second.popped := by rw [popped, code, popped]
    have same : first.batch op first.popped = second.batch op second.popped := by
      rw [batch, options, behind, batch]
    rw [same]
    exact (apart.withCode _).execute transport op _

/-- Both machines run alike, and what they write is the same. -/
theorem run (apart : Apart before first second) (budget : Nat) :
    Apart before (first.run transport budget).1 (second.run transport budget).1 ∧
      (first.run transport budget).2 = (second.run transport budget).2 := by
  induction budget generalizing first second with
  | zero => exact ⟨apart, rfl⟩
  | succ budget ih =>
      obtain ⟨after, stop⟩ := apart.step transport
      unfold Machine.run
      generalize first.step transport = result at after stop ⊢
      generalize second.step transport = result' at after stop ⊢
      obtain ⟨next, reason⟩ := result
      obtain ⟨next', reason'⟩ := result'
      obtain rfl : reason = reason' := stop
      cases reason with
      | none => exact ih after
      | some reason => exact ⟨after, rfl⟩

end Apart

end Machine

end TapeNet
