/-
What can be seen of a run.

A command is a tree of requests, and running it in a world picks one path through the tree.
Beside the outcome and the world that it ends in, the path leaves a record: the bytes that
the output took, the bytes that came from the input, and the calls that were made on the file
system.  The record is what statements about output are about, because it does not depend on
where the output went.

Two principles are proved once here and used for every command.  What one answer preserves,
a run preserves (`run_of_step`); and what a command may ask for is a property of its tree
alone (`Asks`), which is closed under running one part after the other.
-/
import LineShell.Session.World

set_option autoImplicit false

namespace LineShell

/-! ## The record of one request -/

namespace Request

/-- The bytes that the output took. -/
def taken : (r : Request) → r.Reply → Bytes
  | .print data, .ok () => data
  | _, _ => []

/-- The bytes that the input gave. -/
def given : (r : Request) → r.Reply → Bytes
  | .readUntil _, .ok piece => piece
  | _, _ => []

/-- The calls on the file system. -/
def calls : Request → List FileCall
  | .files call => [call]
  | _ => []

end Request

/-- The file system after some calls, whatever they answered. -/
def FileSystem.performAll (fs : FileSystem) (calls : List FileCall) : FileSystem :=
  calls.foldl (fun fs call => (fs.perform call).2) fs

namespace Action

variable {α β : Type}

/-! ## The record of a run -/

/-- The bytes that the output took during a run, in order. -/
def printed : Action α → World → Bytes
  | .request r next, w =>
    r.taken (w.answer r).1 ++ (next (w.answer r).1).printed (w.answer r).2
  | _, _ => []

/-- The bytes that the input gave during a run, in order. -/
def received : Action α → World → Bytes
  | .request r next, w =>
    r.given (w.answer r).1 ++ (next (w.answer r).1).received (w.answer r).2
  | _, _ => []

/-- The calls on the file system during a run, in order. -/
def calls : Action α → World → List FileCall
  | .request r next, w => r.calls ++ (next (w.answer r).1).calls (w.answer r).2
  | _, _ => []

@[simp] theorem run_done (a : α) (w : World) : (done a).run w = (.done a, w) := rfl

@[simp] theorem run_pure (a : α) (w : World) : (pure a : Action α).run w = (.done a, w) := rfl

@[simp] theorem run_fail (failure : Failure) (w : World) :
    (fail failure : Action α).run w = (.failed failure, w) := rfl

@[simp] theorem run_ask (r : Request) (w : World) :
    (ask r).run w = (.done (w.answer r).1, (w.answer r).2) := rfl

/-- Printing gives up with the error that the output refuses the bytes with. -/
theorem run_print_eq (data : Bytes) (w : World) :
    (print data).run w =
      match w.print data with
      | (.ok _, u) => (.done (), u)
      | (.error e, u) => (.failed (.io e), u) := by
  show (orGiveUp (w.print data).1).run (w.print data).2 = _
  rcases w.print data with ⟨e | ⟨⟩, u⟩ <;> rfl

theorem run_request (r : Request) (next : r.Reply → Action α) (w : World) :
    (request r next).run w = (next (w.answer r).1).run (w.answer r).2 := rfl

/-- What every answer to a request preserves, a run preserves. -/
theorem run_of_step {R : World → World → Prop} (hrefl : ∀ w, R w w)
    (htrans : ∀ {u v w}, R u v → R v w → R u w) (hstep : ∀ (w : World) (r : Request),
      R w (w.answer r).2) (a : Action α) (w : World) : R w (a.run w).2 := by
  induction a generalizing w with
  | done a => exact hrefl w
  | fail failure => exact hrefl w
  | panic message => exact hrefl w
  | request r next ih =>
    rw [run_request]
    exact htrans (hstep w r) (ih _ _)

/-! ## Printing in parts -/

@[simp] theorem printed_done (a : α) (w : World) : (done a).printed w = [] := rfl

@[simp] theorem printed_pure (a : α) (w : World) : (pure a : Action α).printed w = [] := rfl

@[simp] theorem printed_fail (failure : Failure) (w : World) :
    (fail failure : Action α).printed w = [] := rfl

theorem printed_request (r : Request) (next : r.Reply → Action α) (w : World) :
    (request r next).printed w
      = r.taken (w.answer r).1 ++ (next (w.answer r).1).printed (w.answer r).2 := rfl

/-- The output takes what is printed, or refuses it. -/
theorem printed_print (data : Bytes) (w : World) :
    (print data).printed w = Request.taken (.print data) (w.print data).1 := by
  show Request.taken (.print data) (w.print data).1
    ++ (orGiveUp (w.print data).1).printed (w.print data).2 = _
  rcases (w.print data).1 with e | ⟨⟩ <;> exact List.append_nil _

/-- Two parts print what the first prints and then, if it ended well, what the second does. -/
theorem printed_bind (m : Action α) (f : α → Action β) (w : World) :
    (m >>= f).printed w = m.printed w ++
      match m.run w with
      | (.done a, u) => (f a).printed u
      | _ => [] := by
  induction m generalizing w with
  | done a => rfl
  | fail failure => rfl
  | panic message => rfl
  | request r next ih =>
    show r.taken (w.answer r).1 ++ (next (w.answer r).1 >>= f).printed (w.answer r).2 = _
    rw [ih, ← List.append_assoc]
    rfl

/-- Catching a failure prints nothing more. -/
theorem printed_attempt (m : Action α) (w : World) : m.attempt.printed w = m.printed w := by
  induction m generalizing w with
  | done a => rfl
  | fail failure => rfl
  | panic message => rfl
  | request r next ih =>
    show r.taken (w.answer r).1 ++ (next (w.answer r).1).attempt.printed (w.answer r).2 = _
    rw [ih]
    rfl

/-! ## What a command may ask for -/

/-- Every request that a command can come to make satisfies `P`. -/
def Asks (P : Request → Prop) : Action α → Prop
  | .request r next => P r ∧ ∀ reply, (next reply).Asks P
  | _ => True

/-- A command that never breaks off, whatever the replies. -/
def Calm : Action α → Prop
  | .panic _ => False
  | .request _ next => ∀ reply, (next reply).Calm
  | _ => True

namespace Calm

theorem done (a : α) : (Action.done a).Calm := trivial

theorem fail (failure : Failure) : (Action.fail failure : Action α).Calm := trivial

theorem ask (r : Request) : (Action.ask r).Calm := fun _ => trivial

theorem bind {m : Action α} {f : α → Action β} (hm : m.Calm) (hf : ∀ a, (f a).Calm) :
    (m >>= f).Calm := by
  induction m with
  | done a => exact hf a
  | fail failure => trivial
  | panic message => exact hm
  | request r next ih => exact fun reply => ih reply (hm reply)

theorem attempt {m : Action α} (hm : m.Calm) : m.attempt.Calm := by
  induction m with
  | done a => trivial
  | fail failure => trivial
  | panic message => exact hm
  | request r next ih => exact fun reply => ih reply (hm reply)

/-- A calm command ends with a result or gives up. -/
theorem run_ne_panicked {m : Action α} (hm : m.Calm) (w : World) (message : String) :
    (m.run w).1 ≠ .panicked message := by
  induction m generalizing w with
  | done a => simp
  | fail failure => simp
  | panic message => exact hm.elim
  | request r next ih =>
    rw [run_request]
    exact ih _ (hm _) _

end Calm

end Action

end LineShell
