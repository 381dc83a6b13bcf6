/-
The command around a body.

Two rules stand around the body of every built-in verb: the words are read as its operands, and a
failure that the body gives up with is complained about and becomes status 1.  Words that name
operands and nothing else reach the body as they are (`Builtin.handler_of_lists`).  Around the body
nothing is printed, nothing is refused and the files stay as they are; there is one complaint more
if the body gives up, and otherwise nothing is added at all.
-/
import LineShell.Proofs.Session.Complaints
import LineShell.Proofs.Verbs.Parts

set_option autoImplicit false

namespace LineShell

open LineShell.Text

/-! ## Words for operands -/

/-- Words behind a verb that name operands, and nothing else. -/
structure Lists (words operands : List String) : Prop where
  flags_eq : flagsOf words = []
  operands_eq : operandsOf words = operands

theorem Signature.readOperands_eq {sig : Signature} (h : sig.operands = true) (help : Bool)
    (args : Arguments) (words : List String) :
    sig.readOperands help args words
      = finish help { args with operands := args.operands ++ words } := by
  induction words generalizing args with
  | nil => simp [readOperands]
  | cons word words ih =>
    rw [readOperands, if_pos h, ih]
    simp [Arguments.addOperand]

/-- A verb that takes operands gets the operands that the words name. -/
theorem Builtin.handler_of_lists {b : Builtin} (hb : b.signature.operands = true) {verb : String}
    {words operands : List String} (h : Lists words operands) :
    b.handler (verb :: words) = reporting (b.body ⟨[], operands⟩) := by
  have hread : b.signature.read (flagsFirst words) = .accepted ⟨[], operands⟩ := by
    rw [flagsFirst, h.flags_eq, h.operands_eq, List.nil_append, Signature.read,
      Signature.readFrom, if_neg (by decide), if_pos rfl]
    exact Signature.readOperands_eq hb false .none operands
  unfold handler
  rw [List.tail_cons, hread]

/-! ## Complaints -/

namespace Action

variable {α β : Type} {w : World}

/-- An error stream that takes everything takes a complaint. -/
theorem run_complain (h : w.errors.room = none) (message : String) :
    (complain message).run w
      = (.done (), { w with errors := w.errors.append (encode message ++ [newline]) }) := by
  have hanswer : w.answer (.complain (encode message ++ [newline]))
      = (.ok (), { w with errors := w.errors.append (encode message ++ [newline]) }) := by
    show w.complain _ = _
    rw [World.complain, Console.write_eq_append h]
  rw [complain, run_bind, run_ask, hanswer]
  rfl

theorem voiced_complain (message : String) (w : World) :
    (complain message).voiced w = encode message ++ [newline] := by
  unfold complain voiced
  rw [record_bind_unnoted fun _ => .orGiveUp _, record_ask]
  rfl

theorem run_room (a : Action α) (h : w.errors.room = none) : (a.run w).2.errors.room = none := by
  rw [a.run_errors h]
  exact h

/-- A command that has no complaint, whatever the world. -/
def Mute (a : Action α) : Prop := ∀ w, a.voiced w = []

theorem Mute.bind {m : Action α} {f : α → Action β} (hm : m.Mute) (hf : ∀ a, (f a).Mute) :
    (m >>= f).Mute :=
  Unnoted.bind hm hf

theorem Mute.sequential : Sequential fun _ => Mute where
  done := fun _ _ => rfl
  fail := fun _ _ => rfl
  bind := Mute.bind
  ask := by
    intro r _ hcomplain _ w
    rw [voiced, record_ask]
    cases r with
    | complain data => exact absurd rfl (hcomplain data)
    | _ => rfl

/-- Only complaining complains. -/
theorem Mute.lineSequential : LineSequential fun _ => Mute :=
  Mute.sequential.lines fun _ => Mute.bind (fun _ => rfl) fun _ => Mute.sequential.orGiveUp _

end Action

/-! ## Reporting -/

namespace Builtin

variable {body other : Action Int} {w u : World} {status : Int} {failure : Failure}

/-- Around a body nothing is noted but a complaint. -/
theorem record_reporting {M : Type} {note : World → Request → List M}
    (h : ∀ w data, note w (.complain data) = []) (body : Action Int) (w : World) :
    (reporting body).record note w = body.record note w := by
  unfold reporting
  rw [Action.record_bind_unnoted, Action.record_attempt]
  intro ended
  cases ended with
  | ok status => exact Action.Unnoted.pure status
  | error failure =>
    apply Action.Unnoted.bind (Action.Unnoted.complain h _)
    intro _
    exact Action.Unnoted.pure 1

theorem printed_reporting (body : Action Int) (w : World) :
    (reporting body).printed w = body.printed w := by
  rw [Action.printed_eq_record, Action.printed_eq_record]
  apply record_reporting
  intro w data
  rfl

theorem refused_reporting (body : Action Int) (w : World) :
    (reporting body).refused w = body.refused w := by
  apply record_reporting
  intro w data
  rfl

theorem run_reporting_congr (h : body.run w = other.run w) :
    (reporting body).run w = (reporting other).run w := by
  unfold reporting
  rw [Action.run_bind, Action.run_bind, Action.run_attempt, Action.run_attempt, h]

theorem run_reporting_of_done (h : body.run w = (.done status, u)) :
    (reporting body).run w = (.done status, u) := by
  rw [reporting, Action.run_bind, Action.run_attempt, h]
  rfl

/-- A failure of the body is complained about, and becomes status 1. -/
theorem run_reporting_of_failed (hroom : w.errors.room = none)
    (h : body.run w = (.failed failure, u)) :
    (reporting body).run w = (.done 1,
      { u with errors := u.errors.append (encode failure.message ++ [newline]) }) := by
  have hroomAfter := Action.run_room body hroom
  rw [h] at hroomAfter
  rw [reporting, Action.run_bind, Action.run_attempt, h]
  simp only
  rw [Action.run_bind, Action.run_complain hroomAfter]
  rfl

/-- A status other than 1 is that of the body. -/
theorem run_of_run_reporting (h : (reporting body).run w = (.done status, u))
    (hstatus : status ≠ 1) : body.run w = (.done status, u) := by
  obtain ⟨ended, v, hattempt, hrest⟩ := Action.exists_of_run_bind_eq_done h
  rcases Action.run_of_run_attempt hattempt with ⟨own, rfl, hrun⟩ | ⟨failure, rfl, -⟩
  · injection hrest with hended hworld
    injection hended with hended
    rw [hrun, hended, hworld]
  · exfalso
    obtain ⟨told, v', -, hone⟩ := Action.exists_of_run_bind_eq_done hrest
    injection hone with hended
    injection hended with hended
    exact hstatus hended.symm

theorem voiced_reporting_of_done (h : body.run w = (.done status, u)) :
    (reporting body).voiced w = body.voiced w := by
  have hattempt : body.attempt.run w = (.done (.ok status), u) := by
    rw [Action.run_attempt, h]
  rw [reporting, Action.voiced_bind_of_done hattempt, Action.voiced, Action.record_attempt]
  exact List.append_nil _

theorem voiced_reporting_of_failed (h : body.run w = (.failed failure, u)) :
    (reporting body).voiced w = body.voiced w ++ (encode failure.message ++ [newline]) := by
  have hattempt : body.attempt.run w = (.done (.error failure), u) := by
    rw [Action.run_attempt, h]
  have hcomplain := Action.voiced_complain failure.message u
  rw [reporting, Action.voiced_bind_of_done hattempt]
  unfold Action.voiced at hcomplain ⊢
  rw [Action.record_attempt, Action.record_bind_unnoted fun _ => .pure 1, hcomplain]

end Builtin

end LineShell
