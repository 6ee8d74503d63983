import TapeNet.Proofs.Machine.Life
import TapeNet.Proofs.Source.Reading

/-!
# Taking a program

A program is made of the bytes that the reads of its text delivered, however
many each of them delivered and however often they were interrupted.  A machine
that is given another program changes in nothing but its code; if the reads of
the text fail, nothing changes at all, and the machine lives on as if it had
not been given the text.
-/

namespace TapeNet

namespace Machine

variable {σ : Type}

/-- What becomes of a text and of a machine that is given it, for the `answers` to its reads. -/
structure Taken (transport : Transport σ) (text : Source) (answers : List Source.Answer)
    (m : Machine σ) : Prop where
  /-- The reads come to an end. -/
  answered : (∃ bytes, Source.Delivers answers bytes) ∨ ∃ reason, Source.Fails answers reason
  loaded : ∀ {bytes}, Source.Delivers answers bytes → ∀ options (world : σ),
    load text options world = .ok (start (.parse bytes) options world)
  unloaded : ∀ {reason}, Source.Fails answers reason → ∀ options (world : σ),
    load text options world = .error (.unreadable reason)
  replaced : ∀ {bytes}, Source.Delivers answers bytes →
    m.reload text = ({ m with code := .parse bytes }, none) ∧ (m.reload text).1.code.pc = 0
  kept : ∀ {reason}, Source.Fails answers reason →
    m.reload text = (m, some (.unreadable reason))
  /-- A text that cannot be read changes nothing in a life, whenever it is given. -/
  unnoticed : ∀ {reason}, Source.Fails answers reason → ∀ before behind : List Operation,
    live transport (before ++ .reload text :: behind) m = live transport (before ++ behind) m
  /-- Another text counts as the same if any reads of it deliver the same bytes. -/
  same : ∀ {bytes}, Source.Delivers answers bytes →
    ∀ (other : Source) (buffers : Source.Buffers), Source.Delivers (other.answers buffers) bytes →
      (∀ options (world : σ), load other options world = load text options world) ∧
        m.reload other = m.reload text

variable {text : Source}

theorem load_of_ok {bytes : List UInt8} (reads : text.readAll = .ok bytes) (options : Options)
    (world : σ) : load text options world = .ok (start (.parse bytes) options world) := by
  rw [load, reads]

theorem load_of_error {reason : String} (fails : text.readAll = .error reason) (options : Options)
    (world : σ) : load text options world = .error (.unreadable reason) := by
  rw [load, fails]

theorem reload_of_ok {bytes : List UInt8} (reads : text.readAll = .ok bytes) (m : Machine σ) :
    m.reload text = ({ m with code := .parse bytes }, none) := by
  rw [reload, reads]

theorem reload_of_error {reason : String} (fails : text.readAll = .error reason)
    (m : Machine σ) : m.reload text = (m, some (.unreadable reason)) := by
  rw [reload, fails]

/-- A text that cannot be read can be left out of a life. -/
theorem live_reload_of_error (transport : Transport σ) {reason : String}
    (fails : text.readAll = .error reason) (before behind : List Operation) (m : Machine σ) :
    live transport (before ++ .reload text :: behind) m =
      live transport (before ++ behind) m := by
  rw [live_append, live_append, live, Operation.apply, reload_of_error fails]

/--
Whatever the sizes of the buffers, a text is taken for the bytes that its reads
deliver, and for nothing if they fail.
-/
theorem taken_as_delivered (transport : Transport σ) (text : Source) (buffers : Source.Buffers)
    (m : Machine σ) : Taken transport text (text.answers buffers) m where
  answered := by
    rcases Source.answersFrom_cases buffers 0 text.script with
      ⟨bytes, _, delivers⟩ | ⟨reason, _, fails⟩
    · exact .inl ⟨bytes, delivers⟩
    · exact .inr ⟨reason, fails⟩
  loaded delivers := load_of_ok ((text.readAll_eq_ok_iff buffers _).mpr delivers)
  unloaded fails := load_of_error ((text.readAll_eq_error_iff buffers _).mpr fails)
  replaced delivers := by
    have replaced := reload_of_ok ((text.readAll_eq_ok_iff buffers _).mpr delivers) m
    exact ⟨replaced, by rw [replaced]; rfl⟩
  kept fails := reload_of_error ((text.readAll_eq_error_iff buffers _).mpr fails) m
  unnoticed fails before behind :=
    live_reload_of_error transport ((text.readAll_eq_error_iff buffers _).mpr fails) before behind m
  same delivers other others delivered := by
    have reads := (text.readAll_eq_ok_iff buffers _).mpr delivers
    have reads' := (other.readAll_eq_ok_iff others _).mpr delivered
    refine ⟨fun options world => ?_, ?_⟩
    · rw [load_of_ok reads, load_of_ok reads']
    · rw [reload_of_ok reads, reload_of_ok reads']

end Machine

end TapeNet
