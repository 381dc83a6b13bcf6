/-
Which commands read the input.

Of the built-in verbs `cat` alone reads, and it does so exactly if it is given no file
(`Verbs.readings_program_iff`).  Its reads go to the session's own input unless a pipe has put
something in its place.  Besides, a question that is put to a user takes the next line of that
input.  There is no other way in which a command takes something from there, so it can be told from
the commands of a line, and from the questions that are asked, whether the line leaves the input
alone (`Session.leavesInput_standard_iff`).
-/
import LineShell.Proofs.Session.Undrawn
import LineShell.Proofs.Verbs.Consent
import LineShell.Proofs.Verbs.Indifference
import LineShell.Proofs.Verbs.Reporting

set_option autoImplicit false

namespace LineShell

open LineShell.Text

/-- A request to the current input. -/
def Request.readings : Request → List Request
  | .readUntil b => [.readUntil b]
  | .inputLeft => [.inputLeft]
  | _ => []

/-! ## What goes to the session's own input -/

theorem Input.SameStream.session_iff {i later : Input} (h : i.SameStream later) :
    i = .session ↔ later = .session := by
  rcases i with _ | reader <;> rcases later with _ | reader'
  all_goals first
    | exact h.elim
    | simp

namespace World

theorem draws_eq_nil_iff (w : World) (r : Request) :
    w.draws r = [] ↔ (w.input = .session → r.readings = [])
      ∧ (w.respondent = .user → r.inquiries = []) := by
  cases r with
  | readUntil b =>
    rw [draws_readUntil, ite_eq_right_iff]
    exact ⟨fun h => ⟨h, fun _ => rfl⟩, And.left⟩
  | inputLeft =>
    rw [draws_inputLeft, ite_eq_right_iff]
    exact ⟨fun h => ⟨h, fun _ => rfl⟩, And.left⟩
  | confirm question =>
    rw [draws_confirm, ite_eq_right_iff]
    exact ⟨fun h => ⟨fun _ => rfl, fun huser => absurd (h huser) (List.cons_ne_nil _ _)⟩,
      fun h huser => absurd (h.2 huser) (List.cons_ne_nil _ _)⟩
  | _ => exact ⟨fun _ => ⟨fun _ => rfl, fun _ => rfl⟩, fun _ => rfl⟩

/-- Who answers questions stays the same. -/
theorem respondent_answer_iff (w : World) (r : Request) :
    (w.answer r).2.respondent = .user ↔ w.respondent = .user := by
  obtain ⟨huser, hscripted⟩ := w.asked_answer r
  constructor
  · intro h
    by_contra hnot
    exact (hscripted hnot).1 h
  · exact fun h => (huser h).1

end World

/-- A run leaves the session's own input alone if it does not read, or reads something else, and
asks nothing, or does not ask a user. -/
theorem Action.draws_eq_nil_iff {α : Type} (a : Action α) (w : World) :
    a.record World.draws w = [] ↔
      (w.input = .session → a.record (fun _ r => r.readings) w = [])
        ∧ (w.respondent = .user → a.inquiries w = []) := by
  induction a generalizing w with
  | done a => exact ⟨fun _ => ⟨fun _ => rfl, fun _ => rfl⟩, fun _ => rfl⟩
  | fail failure => exact ⟨fun _ => ⟨fun _ => rfl, fun _ => rfl⟩, fun _ => rfl⟩
  | panic message => exact ⟨fun _ => ⟨fun _ => rfl, fun _ => rfl⟩, fun _ => rfl⟩
  | request r next ih =>
    have hinput := (w.sameStreams_answer r).input.session_iff
    have hrespondent := w.respondent_answer_iff r
    have hrest := ih (w.answer r).1 (w.answer r).2
    rw [← hinput, hrespondent] at hrest
    show w.draws r ++ _ = [] ↔ (_ → r.readings ++ _ = []) ∧ (_ → r.inquiries ++ _ = [])
    rw [List.append_eq_nil_iff, w.draws_eq_nil_iff r, hrest]
    simp only [List.append_eq_nil_iff]
    exact ⟨fun ⟨h, h'⟩ => ⟨fun hi => ⟨h.1 hi, h'.1 hi⟩, fun hr => ⟨h.2 hr, h'.2 hr⟩⟩,
      fun h => ⟨⟨fun hi => (h.1 hi).1, fun hr => (h.2 hr).1⟩,
        fun hi => (h.1 hi).2, fun hr => (h.2 hr).2⟩⟩

/-! ## Verbs that do not read -/

/-- A command that does not read, whatever the world. -/
def Action.Unreading {α : Type} (a : Action α) : Prop := a.Unnoted fun _ r => r.readings

namespace Action.Unreading

variable {α β : Type} {m : Action α} {f : α → Action β}

theorem pure (a : α) : (Pure.pure a : Action α).Unreading := Unnoted.pure a

theorem fail (failure : Failure) : (Action.fail failure : Action α).Unreading :=
  Unnoted.fail failure

theorem bind (hm : m.Unreading) (hf : ∀ a, (f a).Unreading) : (m >>= f).Unreading :=
  Unnoted.bind hm hf

theorem ask {r : Request} (h : r.readings = []) : (Action.ask r).Unreading := Unnoted.ask fun _ => h

theorem call (c : FileCall) : (Action.call c).Unreading := ask rfl

theorem orFail (result : Except IoError α) (failure : IoError → Failure) :
    (Verbs.orFail result failure).Unreading := by
  cases result with
  | ok a => exact pure a
  | error e => exact fail _

theorem printLine (pieces : List String) : (Action.printLine pieces).Unreading :=
  Unnoted.printAll (fun _ _ => rfl) _

theorem complain (message : String) : (Action.complain message).Unreading :=
  Unnoted.complain (fun _ _ => rfl) message

theorem isThere (p : Path) : (Action.isThere p).Unreading := by
  apply bind (call _)
  intro reply
  split <;> exact pure _

theorem firstOperand (args : Arguments) (verb : String) : (args.firstOperand verb).Unreading := by
  unfold Arguments.firstOperand
  split
  · exact pure _
  · exact fail _

/-- Nothing that the verbs ask for between their changes is a read. -/
theorem overlooks : Verbs.Overlooks fun (_ : World) (r : Request) => r.readings :=
  ⟨fun _ => rfl, fun _ _ => rfl, fun _ _ => rfl, fun _ _ => rfl⟩

/-- Doing something that may fail and saying a line about it. -/
theorem changeAndSay {γ : Type} (c : FileCall) (result : c.Reply → Except IoError γ)
    (failure : IoError → Failure) (pieces : List String) :
    (Action.call c >>= fun reply => Verbs.orFail (result reply) failure >>= fun _ =>
      Action.printLine pieces >>= fun _ => (Pure.pure 0 : Action Int)).Unreading :=
  bind (call c) fun _ => bind (orFail _ _) fun _ => bind (printLine _) fun _ => pure 0

theorem makeDirectory (operand : String) : (Verbs.makeDirectory operand).Unreading := by
  apply bind (overlooks.locate operand)
  intro p
  apply bind (isThere p)
  intro there
  split
  · exact fail _
  · exact changeAndSay (.makeDirectory p) id _ _

theorem removeDirectory (operand : String) : (Verbs.removeDirectory operand).Unreading := by
  apply bind (overlooks.locate operand)
  intro p
  apply bind (overlooks.isDirectory p)
  intro directory
  split
  · apply bind (call _)
    intro reply
    apply bind (orFail _ _)
    intro names
    split
    · exact changeAndSay (.removeDirectory p) id _ _
    · exact fail _
  · exact fail _

theorem touchFile (operand : String) : (Verbs.touchFile operand).Unreading := by
  apply bind (overlooks.locate operand)
  intro p
  exact changeAndSay (.touch p) id _ _

theorem removeFile (operand : String) : (Verbs.removeFile operand).Unreading := by
  apply bind (overlooks.locate operand)
  intro p
  apply bind (call _)
  intro reply
  split
  · exact fail _
  · exact fail _
  · exact changeAndSay (.removeFile p) id _ _

theorem changeDirectory (operand : Option String) : (Verbs.changeDirectory operand).Unreading := by
  apply bind (ask rfl)
  intro env
  split
  · exact fail _
  · apply bind (overlooks.isDirectory _)
    intro directory
    split
    · exact bind (ask rfl) fun _ => bind (printLine _) fun _ => pure 0
    · exact fail _

theorem printNames (names : List String) : (Verbs.printNames names).Unreading := by
  induction names with
  | nil => exact pure ()
  | cons name names ih => exact bind (printLine _) fun _ => ih

theorem listDirectory (shown : String) (dir : Path) (all reversed : Bool) :
    (Verbs.listDirectory shown dir all reversed).Unreading := by
  apply bind (overlooks.isDirectory dir)
  intro directory
  split
  · apply bind (call _)
    intro reply
    split
    · exact fail _
    · exact bind (printLine _) fun _ => bind (printNames _) fun _ => pure 0
  · exact fail _

theorem print (data : Bytes) : (Action.print data).Unreading :=
  bind (ask rfl) fun _ => Unnoted.orGiveUp _

theorem printFile (operand : String) : (Verbs.printFile operand).Unreading := by
  apply bind (overlooks.locate operand)
  intro p
  apply bind (call _)
  intro reply
  split
  · apply bind
    · apply bind (print _)
      intro _
      split
      · exact print _
      · exact pure ()
    · exact fun _ => pure 0
  · exact bind (complain _) fun _ => pure 1

theorem printFiles (status : Int) (operands : List String) :
    (Verbs.printFiles status operands).Unreading := by
  induction operands generalizing status with
  | nil => exact pure status
  | cons operand operands ih => exact bind (printFile operand) fun _ => ih _

theorem moveEntry (shown : String) (source target : Path) :
    (Verbs.moveEntry shown source target).Unreading := by
  apply bind
  · apply bind (isThere target)
    intro there
    split
    · exact ask rfl
    · exact pure true
  · intro allowed
    split
    · exact bind (Verbs.unnoted_renameOrCopy (fun _ _ => rfl) source target) fun _ =>
        bind (orFail _ _) fun _ => printLine _
    · exact printLine _

theorem mv (args : Arguments) : (Verbs.mv.body args).Unreading := by
  intro w
  rw [overlooks.mv]
  apply List.flatMap_eq_nil_iff.mpr
  intro m _
  exact moveEntry m.shown m.source m.target m.before

end Action.Unreading

/-! ## Commands -/

/-- A command that is `cat` with no file to print. -/
def EchoesInput (command : String) : Prop :=
  ∃ words args, tokenize command = Verbs.cat.verb :: words
    ∧ Verbs.cat.signature.read (flagsFirst words) = .accepted args ∧ args.operands = []

namespace Builtin

open LineShell.Action

variable {b : Builtin} {words : List String} {args : Arguments}

/-- The body of a built-in verb does not read, unless it is that of `cat` with no file to print. -/
theorem body_unreading (hb : b ∈ VerbTable.builtins)
    (hfiles : b = Verbs.cat → args.operands ≠ []) : (b.body args).Unreading := by
  simp only [VerbTable.builtins, List.mem_cons, List.not_mem_nil, or_false] at hb
  rcases hb with rfl | rfl | rfl | rfl | rfl | rfl | rfl | rfl | rfl | rfl | rfl
  · exact .bind (.print _) fun _ => .bind (.ask rfl) fun _ => .bind (.ask rfl) fun _ => .pure 0
  · exact .bind (.printLine _) fun _ => .pure 0
  · exact .bind (.firstOperand args _) fun _ => .makeDirectory _
  · exact .bind (.firstOperand args _) fun _ => .removeDirectory _
  · exact .bind (.firstOperand args _) fun _ => .touchFile _
  · exact .bind (.firstOperand args _) fun _ => .removeFile _
  · have hsome := List.isEmpty_eq_false_iff.mpr (hfiles rfl)
    show Unreading (if args.operands.isEmpty = true then _ else Verbs.printFiles 0 args.operands)
    rw [hsome]
    exact .printFiles 0 args.operands
  · exact .mv args
  · apply Unreading.bind (.ask rfl)
    intro env
    split <;> exact .listDirectory _ _ _ _
  · exact .bind (.ask rfl) fun _ => .bind (.printLine _) fun _ => .pure 0
  · exact .changeDirectory _

/-- Around a body nothing is read either. -/
theorem handler_unreading (hb : b ∈ VerbTable.builtins)
    (hfiles : ∀ args, b = Verbs.cat → b.signature.read (flagsFirst words) = .accepted args →
      args.operands ≠ []) : (b.handler (b.verb :: words)).Unreading := by
  unfold handler
  split
  · rename_i args hread
    intro w
    rw [record_reporting fun _ _ => rfl]
    exact body_unreading hb (fun hcat => hfiles args hcat hread) w
  · exact .bind (.printLine _) fun _ => .pure 0
  · exact .bind (.complain _) fun _ => .pure 1

end Builtin

namespace Verbs

variable {command : String}

/-- The echo asks first how much there is. -/
theorem readings_cat {args : Arguments} (h : args.operands = []) (w : World) :
    (cat.body args).record (fun _ r => r.readings) w ≠ [] := by
  show Action.record _ (if args.operands.isEmpty = true then echo.attempt >>= _ else _) w ≠ []
  rw [if_pos (List.isEmpty_iff.mpr h), Action.record_bind, Action.record_attempt, echo,
    Action.record_bind, Action.record_ask]
  exact List.append_ne_nil_of_left_ne_nil
    (List.append_ne_nil_of_left_ne_nil (List.cons_ne_nil _ _) _) _

/-- With the standard table a command reads exactly if it is `cat` with no file to print. -/
theorem readings_program_iff (w : World) :
    (Session.program .standard command).record (fun _ r => r.readings) w = []
      ↔ ¬ EchoesInput command := by
  have htell : ∀ r, (Session.tell r).Unreading :=
    fun r => .bind (.ask rfl) fun _ => .pure ()
  constructor
  · rintro hnone ⟨words, args, htokens, hread, hoperands⟩
    have hfound : VerbTable.standard.find? cat.verb = some cat.handler := rfl
    have hhandler : cat.handler (cat.verb :: words) = Builtin.reporting (cat.body args) :=
      Builtin.handler_of_accepted hread
    rw [Session.program, htokens] at hnone
    simp only [hfound] at hnone
    rw [Action.record_bind, Action.record_attempt, hhandler,
      Builtin.record_reporting fun _ _ => rfl] at hnone
    exact readings_cat hoperands w (List.append_eq_nil_iff.mp hnone).1
  · intro hother
    rw [Session.program]
    rcases htokens : tokenize command with _ | ⟨verb, words⟩
    · rfl
    · simp only
      rcases hfound : VerbTable.standard.find? verb with _ | handler
      · exact htell _ w
      · obtain ⟨b, hb, rfl, rfl⟩ :=
          (@VerbTable.builtin_of_find?_extended [] _ _ hfound).resolve_left List.not_mem_nil
        have hhandler : (b.handler (b.verb :: words)).Unreading := by
          apply Builtin.handler_unreading hb
          rintro args rfl hread hoperands
          exact hother ⟨words, args, htokens, hread, hoperands⟩
        rw [Action.record_bind_unnoted, Action.record_attempt]
        · exact hhandler w
        · intro ended
          cases ended with
          | ok status => exact Action.Unnoted.pure ()
          | error failure => exact htell _

end Verbs

/-- **With the standard table a line leaves the session's own input alone** exactly if no command of
it is `cat` with no file to print, but for one that reads what a pipe has captured, and if no user
is asked. -/
theorem Session.leavesInput_standard_iff {job : Job} {s : Session} :
    LeavesInput .standard job s ↔ ∀ x ∈ stages .standard job s,
      (x.before.world.input = .session → ¬ EchoesInput x.command)
        ∧ (x.before.world.respondent = .user →
          (program .standard x.command).inquiries x.before.world = []) := by
  unfold LeavesInput
  simp only [Action.draws_eq_nil_iff, Verbs.readings_program_iff]

end LineShell
