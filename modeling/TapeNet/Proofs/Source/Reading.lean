import TapeNet.Source

/-!
# Reading a source to its end

A text is read to its end by one read after the other, each into a buffer of
some size.  An interrupted read is made again; the first read that gets no byte
or fails is the last one.  What comes of the reads is all the bytes that they
served, or the reason of the failure.  Neither the sizes of the buffers nor the
interruptions can be seen in it.
-/

namespace TapeNet

namespace Source

/-- What one read answers. -/
inductive Answer where
  /-- Bytes, no more than there was room for; none at the end. -/
  | served (bytes : List UInt8)
  | interrupted
  | failed (reason : String)
  deriving DecidableEq

/-- Whether it is the last answer for somebody who reads to the end. -/
def Answer.isLast : Answer → Bool
  | served bytes => bytes.isEmpty
  | interrupted => false
  | failed _ => true

/-- Makes one read into a buffer with `room`: the answer, and the script behind it. -/
def read (room : Nat) : List SourceEvent → Answer × List SourceEvent
  | [] => (.served [], [])
  | .bytes [] :: rest => read room rest
  | .bytes (byte :: chunk) :: rest =>
    (.served ((byte :: chunk).take room), .bytes ((byte :: chunk).drop room) :: rest)
  | .ended :: rest => (.served [], rest)
  | .interrupted :: rest => (.interrupted, rest)
  | .failure reason :: rest => (.failed reason, rest)

theorem readAll_ofBytes (bytes : List UInt8) : (ofBytes bytes).readAll = .ok bytes :=
  congrArg Except.ok (List.append_nil bytes)

/-- How many reads a script is good for, at most. -/
def weight : List SourceEvent → Nat
  | [] => 0
  | .bytes chunk :: rest => chunk.length + 1 + weight rest
  | _ :: rest => 1 + weight rest

/-- Every read but the last uses something up. -/
theorem weight_read_lt {room : Nat} (positive : 0 < room) {script : List SourceEvent}
    (more : (read room script).1.isLast = false) :
    weight (read room script).2 < weight script := by
  induction script with
  | nil => cases more
  | cons event rest ih =>
      cases event with
      | bytes chunk =>
          cases chunk with
          | nil =>
              have less := ih more
              simp only [read, weight, List.length_nil]
              omega
          | cons byte chunk =>
              simp only [read, weight, List.length_drop, List.length_cons]
              omega
      | interrupted =>
          simp only [read, weight]
          omega
      | ended | failure => cases more

/-- The sizes of the buffers that are handed out one after the other. -/
structure Buffers where
  room : Nat → Nat
  room_pos : ∀ index, 0 < room index

/-- The answers to the reads from the one with number `index` on, up to the last. -/
def answersFrom (buffers : Buffers) (index : Nat) (script : List SourceEvent) : List Answer :=
  if last : (read (buffers.room index) script).1.isLast = true then
    [(read (buffers.room index) script).1]
  else
    (read (buffers.room index) script).1 ::
      answersFrom buffers (index + 1) (read (buffers.room index) script).2
termination_by weight script
decreasing_by exact weight_read_lt (buffers.room_pos index) (by simpa using last)

/-- The answers to the reads of somebody who reads a source to its end. -/
def answers (buffers : Buffers) (text : Source) : List Answer :=
  answersFrom buffers 0 text.script

/-- The reads come to the end, and have served `bytes` until then. -/
inductive Delivers : List Answer → List UInt8 → Prop where
  | ended : Delivers [.served []] []
  | served {answers : List Answer} {bytes chunk : List UInt8} (some : chunk ≠ [])
      (more : Delivers answers bytes) : Delivers (.served chunk :: answers) (chunk ++ bytes)
  | interrupted {answers : List Answer} {bytes : List UInt8} (more : Delivers answers bytes) :
      Delivers (.interrupted :: answers) bytes

/-- The last of the reads fails for the given reason. -/
inductive Fails : List Answer → String → Prop where
  | failed (reason : String) : Fails [.failed reason] reason
  | served {answers : List Answer} {reason : String} {chunk : List UInt8} (some : chunk ≠ [])
      (more : Fails answers reason) : Fails (.served chunk :: answers) reason
  | interrupted {answers : List Answer} {reason : String} (more : Fails answers reason) :
      Fails (.interrupted :: answers) reason

/-- The same answers deliver no two texts. -/
theorem Delivers.unique {answers : List Answer} {first second : List UInt8}
    (one : Delivers answers first) (other : Delivers answers second) : first = second := by
  induction one generalizing second with
  | ended =>
      cases other with
      | ended => rfl
      | served some _ => exact absurd rfl some
  | served some _ ih =>
      cases other with
      | ended => exact absurd rfl some
      | served _ others => rw [ih others]
  | interrupted _ ih =>
      cases other with
      | interrupted others => exact ih others

/-- The same answers fail for no two reasons. -/
theorem Fails.unique {answers : List Answer} {first second : String}
    (one : Fails answers first) (other : Fails answers second) : first = second := by
  induction one with
  | failed reason => cases other with | failed => rfl
  | served _ _ ih => cases other with | served _ others => exact ih others
  | interrupted _ ih => cases other with | interrupted others => exact ih others

/-- Reads that come to the end do not fail. -/
theorem Delivers.not_fails {answers : List Answer} {bytes : List UInt8}
    (delivers : Delivers answers bytes) (reason : String) : ¬ Fails answers reason := by
  intro fails
  induction delivers with
  | ended => cases fails with | served some _ => exact some rfl
  | served _ _ ih => cases fails with | served _ others => exact ih others
  | interrupted _ ih => cases fails with | interrupted others => exact ih others

/-- What one read can get, and what the script then held and still holds. -/
theorem read_cases {room : Nat} (positive : 0 < room) (script : List SourceEvent) :
    (∃ chunk rest, chunk ≠ [] ∧ read room script = (.served chunk, rest) ∧
      contents script = (contents rest).map (chunk ++ ·)) ∨
    (∃ rest, read room script = (.served [], rest) ∧ contents script = .ok []) ∨
    (∃ rest, read room script = (.interrupted, rest) ∧ contents script = contents rest) ∨
    ∃ reason rest, read room script = (.failed reason, rest) ∧
      contents script = .error reason := by
  induction script with
  | nil => exact .inr (.inl ⟨[], rfl, rfl⟩)
  | cons event rest ih =>
      cases event with
      | bytes chunk =>
          cases chunk with
          | nil =>
              have skipped : contents (.bytes [] :: rest) = contents rest := by
                rw [contents]
                cases contents rest <;> rfl
              rw [skipped]
              exact ih
          | cons byte chunk =>
              refine .inl ⟨(byte :: chunk).take room, .bytes ((byte :: chunk).drop room) :: rest,
                ?_, rfl, ?_⟩
              · simp [Nat.ne_of_gt positive]
              · rw [contents, contents]
                cases contents rest with
                | ok bytes =>
                    simp only [Except.map, ← List.append_assoc, List.take_append_drop]
                | error reason => rfl
      | ended => exact .inr (.inl ⟨rest, rfl, rfl⟩)
      | interrupted => exact .inr (.inr (.inl ⟨rest, rfl, rfl⟩))
      | failure reason => exact .inr (.inr (.inr ⟨reason, rest, rfl, rfl⟩))

/-- The reads deliver what the script holds, or fail for its reason. -/
theorem answersFrom_cases (buffers : Buffers) (index : Nat) (script : List SourceEvent) :
    (∃ bytes, contents script = .ok bytes ∧ Delivers (answersFrom buffers index script) bytes) ∨
      ∃ reason, contents script = .error reason ∧
        Fails (answersFrom buffers index script) reason := by
  induction index, script using answersFrom.induct buffers with
  | case1 index script last =>
      rw [answersFrom, dif_pos last]
      rcases read_cases (buffers.room_pos index) script with
        ⟨chunk, rest, some, answer, _⟩ | ⟨rest, answer, whole⟩ | ⟨rest, answer, _⟩ |
          ⟨reason, rest, answer, whole⟩
      · simp [answer, Answer.isLast, some] at last
      · rw [answer]
        exact .inl ⟨[], whole, .ended⟩
      · simp [answer, Answer.isLast] at last
      · rw [answer]
        exact .inr ⟨reason, whole, .failed reason⟩
  | case2 index script notLast ih =>
      rw [answersFrom, dif_neg notLast]
      rcases read_cases (buffers.room_pos index) script with
        ⟨chunk, rest, some, answer, whole⟩ | ⟨rest, answer, _⟩ | ⟨rest, answer, whole⟩ |
          ⟨reason, rest, answer, _⟩
      · rw [answer] at ih ⊢
        rcases ih with ⟨bytes, held, delivers⟩ | ⟨reason, held, fails⟩
        · exact .inl ⟨chunk ++ bytes, by rw [whole, held]; rfl, delivers.served some⟩
        · exact .inr ⟨reason, by rw [whole, held]; rfl, fails.served some⟩
      · simp [answer, Answer.isLast] at notLast
      · rw [answer] at ih ⊢
        rw [whole]
        rcases ih with ⟨bytes, held, delivers⟩ | ⟨reason, held, fails⟩
        · exact .inl ⟨bytes, held, delivers.interrupted⟩
        · exact .inr ⟨reason, held, fails.interrupted⟩
      · simp [answer, Answer.isLast] at notLast

/-- A text is read as the bytes that any reads of it deliver, and as nothing else. -/
theorem readAll_eq_ok_iff (buffers : Buffers) (text : Source) (bytes : List UInt8) :
    text.readAll = .ok bytes ↔ Delivers (text.answers buffers) bytes := by
  rcases answersFrom_cases buffers 0 text.script with
    ⟨delivered, held, delivers⟩ | ⟨reason, held, fails⟩
  · rw [readAll, held, answers, Except.ok.injEq]
    exact ⟨fun same => same ▸ delivers, delivers.unique⟩
  · rw [readAll, held, answers]
    exact iff_of_false (by simp) fun delivers => delivers.not_fails reason fails

/-- A text cannot be read exactly if the reads of it fail, and for the same reason. -/
theorem readAll_eq_error_iff (buffers : Buffers) (text : Source) (reason : String) :
    text.readAll = .error reason ↔ Fails (text.answers buffers) reason := by
  rcases answersFrom_cases buffers 0 text.script with
    ⟨delivered, held, delivers⟩ | ⟨found, held, fails⟩
  · rw [readAll, held, answers]
    exact iff_of_false (by simp) (delivers.not_fails reason)
  · rw [readAll, held, answers, Except.error.injEq]
    exact ⟨fun same => same ▸ fails, fails.unique⟩

end Source

end TapeNet
