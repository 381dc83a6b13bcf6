/-
What goes wrong in a run.

Two things can be wrong with a run that ends well all the same: the output refused bytes that were
printed, or something was written to the error stream.  Both are read off the requests of
the run, in the way in which the printed bytes are, so there is one definition for all such
records, with its rules for one part after the other and for a failure that is caught.

What is voiced does not depend on whether the error stream takes it.  If the stream takes
everything, it has grown by exactly what was voiced.
-/
import LineShell.Proofs.Session.Heard

set_option autoImplicit false

namespace LineShell

open LineShell.Text

/-! ## Records -/

namespace Action

variable {α β M : Type}

/-- What a function of the world and the request notes along a run, in order. -/
def record (note : World → Request → List M) : Action α → World → List M
  | .request r next, w => note w r ++ (next (w.answer r).1).record note (w.answer r).2
  | _, _ => []

variable (note : World → Request → List M)

@[simp] theorem record_pure (a : α) (w : World) : (pure a : Action α).record note w = [] := rfl

@[simp] theorem record_ask (r : Request) (w : World) : (ask r).record note w = note w r :=
  List.append_nil _

theorem record_bind (m : Action α) (f : α → Action β) (w : World) :
    (m >>= f).record note w = m.record note w ++
      match m.run w with
      | (.done a, u) => (f a).record note u
      | _ => [] := by
  induction m generalizing w with
  | done a => rfl
  | fail failure => rfl
  | panic message => rfl
  | request r next ih =>
    show note w r ++ (next (w.answer r).1 >>= f).record note (w.answer r).2 = _
    rw [ih, ← List.append_assoc]
    rfl

theorem record_bind_of_done {note : World → Request → List M} {m : Action α} {f : α → Action β}
    {w u : World} {a : α} (h : m.run w = (.done a, u)) :
    (m >>= f).record note w = m.record note w ++ (f a).record note u := by
  rw [record_bind, h]

theorem record_attempt (m : Action α) (w : World) :
    m.attempt.record note w = m.record note w := by
  induction m generalizing w with
  | done a => rfl
  | fail failure => rfl
  | panic message => rfl
  | request r next ih =>
    show note w r ++ (next (w.answer r).1).attempt.record note (w.answer r).2 = _
    rw [ih]
    rfl

/-- The printed bytes are such a record, and so are the calls on the files. -/
theorem printed_eq_record (a : Action α) (w : World) :
    a.printed w = a.record (fun w r => r.taken (w.answer r).1) w := by
  induction a generalizing w with
  | done a => rfl
  | fail failure => rfl
  | panic message => rfl
  | request r next ih =>
    rw [printed_request, ih]
    rfl

theorem calls_eq_record (a : Action α) (w : World) :
    a.calls w = a.record (fun _ r => r.calls) w := by
  induction a generalizing w with
  | done a => rfl
  | fail failure => rfl
  | panic message => rfl
  | request r next ih =>
    show r.calls ++ (next (w.answer r).1).calls (w.answer r).2 = _
    rw [ih]
    rfl

/-- A command of which nothing is noted, whatever the world. -/
def Unnoted (a : Action α) : Prop := ∀ w, a.record note w = []

namespace Unnoted

variable {note : World → Request → List M} {m : Action α} {f : α → Action β}

theorem pure (a : α) : (Pure.pure a : Action α).Unnoted note := fun _ => rfl

theorem fail (failure : Failure) : (Action.fail failure : Action α).Unnoted note := fun _ => rfl

theorem ask {r : Request} (h : ∀ w, note w r = []) : (Action.ask r).Unnoted note := by
  intro w
  rw [record_ask, h]

theorem bind (hm : m.Unnoted note) (hf : ∀ a, (f a).Unnoted note) : (m >>= f).Unnoted note := by
  intro w
  rw [record_bind, hm w, List.nil_append]
  split
  · apply hf
  · rfl

theorem orGiveUp (result : Except IoError α) : (Action.orGiveUp result).Unnoted note := by
  cases result with
  | error e => exact fail _
  | ok a => exact pure a

/-- Complaining is noted only if what is written to the error stream is. -/
theorem complain (h : ∀ w data, note w (.complain data) = []) (message : String) :
    (Action.complain message).Unnoted note := by
  apply bind (ask fun w => h w _)
  intro result
  exact orGiveUp result

/-- Printing is noted only if single prints are. -/
theorem printAll (h : ∀ w data, note w (.print data) = []) (pieces : List Bytes) :
    (Action.printAll pieces).Unnoted note := by
  induction pieces with
  | nil => exact pure ()
  | cons piece pieces ih =>
    apply bind
    · apply bind (ask fun w => h w piece)
      intro result
      exact orGiveUp result
    · intro _
      exact ih

end Unnoted

variable {note} {m : Action α} {f : α → Action β} {w u : World} {a : α}

/-- Behind a part of which nothing is noted, the record is that of what follows. -/
theorem Unnoted.record_bind (hm : m.Unnoted note) (hrun : m.run w = (.done a, u)) :
    (m >>= f).record note w = (f a).record note u := by
  rw [record_bind_of_done hrun, hm w, List.nil_append]

/-- In front of parts of which nothing is noted, the record is that of the first part. -/
theorem record_bind_unnoted (hf : ∀ a, (f a).Unnoted note) (w : World) :
    (m >>= f).record note w = m.record note w := by
  rw [Action.record_bind]
  split
  · rw [hf _ _, List.append_nil]
  · exact List.append_nil _

end Action

/-! ## Complaints and refusals -/

namespace Request

/-- The bytes that are meant for the error stream. -/
def voiced : Request → Bytes
  | .complain data => data
  | _ => []

/-- The bytes that are printed but not taken as a whole. -/
def refused : (r : Request) → r.Reply → List Bytes
  | .print data, .error _ => [data]
  | _, _ => []

end Request

namespace Action

variable {α β : Type} {m : Action α} {f : α → Action β} {w u : World}

/-- The bytes that a run writes to the error stream, taken or not. -/
def voiced (a : Action α) (w : World) : Bytes := a.record (fun _ r => r.voiced) w

/-- The prints of a run that failed. -/
def refused (a : Action α) (w : World) : List Bytes :=
  a.record (fun w r => r.refused (w.answer r).1) w

/-- Everything was taken that a run printed, and it has no complaint. -/
def Untroubled (a : Action α) (w : World) : Prop := a.refused w = [] ∧ a.voiced w = []

theorem Untroubled.pure (a : α) (w : World) : (Pure.pure a : Action α).Untroubled w := ⟨rfl, rfl⟩

theorem Untroubled.bind {a : α} (hm : m.Untroubled w) (hrun : m.run w = (.done a, u))
    (hf : (f a).Untroubled u) : (m >>= f).Untroubled w := by
  refine ⟨?_, ?_⟩
  · rw [refused, record_bind_of_done hrun]
    exact List.append_eq_nil_iff.mpr ⟨hm.1, hf.1⟩
  · rw [voiced, record_bind_of_done hrun]
    exact List.append_eq_nil_iff.mpr ⟨hm.2, hf.2⟩

theorem untroubled_attempt : m.attempt.Untroubled w ↔ m.Untroubled w := by
  rw [Untroubled, Untroubled, refused, refused, voiced, voiced, record_attempt, record_attempt]

theorem voiced_bind_of_done {a : α} (hrun : m.run w = (.done a, u)) :
    (m >>= f).voiced w = m.voiced w ++ (f a).voiced u :=
  record_bind_of_done hrun

/-- A part that ended well inside another run did so by itself. -/
theorem exists_of_run_bind_eq_done {b : β} (h : (m >>= f).run w = (.done b, u)) :
    ∃ a v, m.run w = (.done a, v) ∧ (f a).run v = (.done b, u) := by
  rw [run_bind] at h
  rcases hm : m.run w with ⟨a | failure | message, v⟩
  · rw [hm] at h
    exact ⟨a, v, rfl, h⟩
  · rw [hm] at h
    exact nomatch h
  · rw [hm] at h
    exact nomatch h

/-- A failure that is caught is one of the part. -/
theorem run_of_run_attempt {ended : Except Failure α} (h : m.attempt.run w = (.done ended, u)) :
    (∃ a, ended = .ok a ∧ m.run w = (.done a, u))
      ∨ ∃ failure, ended = .error failure ∧ m.run w = (.failed failure, u) := by
  rw [run_attempt] at h
  rcases hm : m.run w with ⟨a | failure | message, v⟩
  · rw [hm] at h
    injection h with hended hworld
    injection hended with hended
    exact .inl ⟨a, hended.symm, by rw [hworld]⟩
  · rw [hm] at h
    injection h with hended hworld
    injection hended with hended
    exact .inr ⟨failure, hended.symm, by rw [hworld]⟩
  · rw [hm] at h
    exact nomatch h

/-- Pieces of which none is refused are printed one after the other, and that is all. -/
theorem run_printAll_of_clean {pieces : List Bytes} {w : World}
    (hclean : (printAll pieces).refused w = []) :
    (printAll pieces).printed w = pieces.flatten
      ∧ ((printAll pieces).run w).1 = .done () := by
  induction pieces generalizing w with
  | nil => exact ⟨rfl, rfl⟩
  | cons piece pieces ih =>
    have hcons : printAll (piece :: pieces) = Action.request (.print piece) fun result =>
        orGiveUp result >>= fun _ => printAll pieces := rfl
    rw [hcons] at hclean ⊢
    rw [refused, record] at hclean
    rw [printed_request, run_request]
    revert hclean
    rcases (w.answer (.print piece)).1 with e | ⟨⟩
    · exact fun hclean => absurd hclean (List.cons_ne_nil _ _)
    · intro hclean
      obtain ⟨hprinted, hrun⟩ := ih (List.append_eq_nil_iff.mp hclean).2
      constructor
      · exact congrArg (piece ++ ·) hprinted
      · exact hrun

end Action

/-! ## The error stream -/

theorem World.errors_answer {w : World} (h : w.errors.room = none) (r : Request) :
    (w.answer r).2.errors = w.errors.append r.voiced := by
  have hquiet : w.errors = w.errors.append [] := (Console.append_nil _).symm
  cases r with
  | print data =>
    have hprint : (w.print data).2.errors = w.errors := by
      unfold print
      split <;> rfl
    exact hprint.trans hquiet
  | complain data =>
    show (w.complain data).2.errors = w.errors.append data
    rw [complain, Console.write_eq_append h]
  | readUntil b => exact (w.readUntil_frame b).2.2.trans hquiet
  | inputLeft => exact hquiet
  | confirm question =>
    have hconfirm : (w.confirm question).2.errors = w.errors := by
      unfold confirm
      rcases w.respondent with (_ | ⟨answer, answers⟩) | _ <;> rfl
    exact hconfirm.trans hquiet
  | environment => exact hquiet
  | setEnvironment env => exact hquiet
  | files call => exact hquiet

/-- An error stream without a limit gets what is voiced. -/
theorem Action.run_errors {α : Type} (a : Action α) {w : World} (h : w.errors.room = none) :
    (a.run w).2.errors = w.errors.append (a.voiced w) := by
  induction a generalizing w with
  | done a => exact (Console.append_nil _).symm
  | fail failure => exact (Console.append_nil _).symm
  | panic message => exact (Console.append_nil _).symm
  | request r next ih =>
    have hstep := World.errors_answer h r
    rw [run_request, ih _ (by rw [hstep]; exact h), hstep, Console.append_append]
    rfl

end LineShell
