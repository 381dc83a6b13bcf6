/-
What the status of a verb tells.

A verb that ends with 0 has printed without a refusal and has nothing to complain about; any other
status is 1, and then there was a complaint.  For most verbs this is so because they give up at the
first trouble, and the complaint is the one about giving up.  `cat` and `mv` go on behind a
file that cannot be read or moved, and have complained about it by then; their loops carry the
status along, and the invariant is that it has changed only behind a complaint.
-/
import LineShell.Proofs.Session.Complaints
import LineShell.Proofs.Verbs.Lines

set_option autoImplicit false

namespace LineShell

open LineShell.Text

namespace Action

variable {α β : Type} {m : Action α} {f : α → Action β} {w u : World}

/-! ## Parts without a complaint -/

/-- A command that ends with a result only if there was no trouble. -/
def Strict (a : Action α) : Prop := ∀ w b u, a.run w = (.done b, u) → a.Untroubled w

namespace Strict

theorem pure (a : α) : (Pure.pure a : Action α).Strict := fun w _ _ _ => .pure a w

theorem fail (failure : Failure) : (Action.fail failure : Action α).Strict :=
  fun _ _ _ h => nomatch h

theorem bind (hm : m.Strict) (hf : ∀ a, (f a).Strict) : (m >>= f).Strict := by
  intro w b u h
  obtain ⟨a, v, hrun, hrest⟩ := exists_of_run_bind_eq_done h
  exact (hm w a v hrun).bind hrun (hf a v b u hrest)

/-- A print that is not taken gives up. -/
theorem print (data : Bytes) : (Action.print data).Strict := by
  intro w b u h
  obtain ⟨reply, v, hask, hrest⟩ := exists_of_run_bind_eq_done h
  rcases reply with e | taken
  · exact nomatch hrest
  · refine Untroubled.bind ⟨?_, rfl⟩ hask (.pure _ v)
    rw [run_ask] at hask
    have htaken : (w.answer (.print data)).1 = .ok taken := by
      injection hask with hreply
      injection hreply
    rw [refused, record_ask, htaken]
    rfl

/-- Other requests than to write bring no trouble. -/
theorem ask (r : Request) (hprint : ∀ data, r ≠ .print data)
    (hcomplain : ∀ data, r ≠ .complain data) : (Action.ask r).Strict := by
  intro w b u _
  rw [Untroubled, refused, voiced, record_ask, record_ask]
  cases r with
  | print data => exact absurd rfl (hprint data)
  | complain data => exact absurd rfl (hcomplain data)
  | _ => exact ⟨rfl, rfl⟩

theorem sequential : LineSequential fun _ => Strict :=
  Sequential.lines
    { done := pure
      fail := fail
      bind := bind
      ask := fun r hprint hcomplain _ => ask r hprint hcomplain }
    print

end Strict

/-! ## Bodies -/

/-- A command that ends with the status `before`, and then without trouble, or with 1, and then it
has complained. -/
def Accounts (before : Int) (a : Action Int) : Prop :=
  ∀ w status u, a.run w = (.done status, u) →
    (status = before ∧ a.Untroubled w) ∨ (status = 1 ∧ a.voiced w ≠ [])

/-- A command that ends with 1 if it ends, and then it has complained. -/
def Complaining (a : Action Int) : Prop :=
  ∀ w status u, a.run w = (.done status, u) → status = 1 ∧ a.voiced w ≠ []

variable {before : Int} {next : α → Action Int}

theorem voiced_ne_nil_of_left {a : α} (hrun : m.run w = (.done a, u)) (h : m.voiced w ≠ []) :
    (m >>= f).voiced w ≠ [] := by
  rw [voiced_bind_of_done hrun]
  exact List.append_ne_nil_of_left_ne_nil h _

theorem voiced_ne_nil_of_right {a : α} (hrun : m.run w = (.done a, u))
    (h : (f a).voiced u ≠ []) : (m >>= f).voiced w ≠ [] := by
  rw [voiced_bind_of_done hrun]
  exact List.append_ne_nil_of_right_ne_nil _ h

namespace Complaining

theorem fail (failure : Failure) : Complaining (.fail failure) := fun _ _ _ h => nomatch h

theorem accounts {a : Action Int} (h : a.Complaining) : Accounts before a :=
  fun w status u hrun => .inr (h w status u hrun)

/-- Behind a complaint the status is 1, and remains so. -/
theorem complain (message : String) {rest : Action Int} (hrest : Accounts 1 rest) :
    Complaining (Action.complain message >>= fun _ => rest) := by
  intro w status u h
  obtain ⟨a, v, hrun, hended⟩ := exists_of_run_bind_eq_done h
  refine ⟨(hrest v status u hended).elim And.left And.left, voiced_ne_nil_of_left hrun ?_⟩
  -- a message is written with its newline, so it is not empty
  obtain ⟨reply, v', hask, -⟩ := exists_of_run_bind_eq_done hrun
  refine voiced_ne_nil_of_left hask ?_
  rw [voiced, record_ask]
  exact List.append_ne_nil_of_right_ne_nil _ (List.cons_ne_nil newline [])

end Complaining

namespace Accounts

theorem pure (status : Int) : Accounts status (Pure.pure status) := by
  intro w final u h
  injection h with h
  injection h with h
  exact .inl ⟨h.symm, .pure status w⟩

theorem andThen (hm : m.Strict) (hnext : ∀ a, Accounts before (next a)) :
    Accounts before (m >>= next) := by
  intro w status u h
  obtain ⟨a, v, hrun, hrest⟩ := exists_of_run_bind_eq_done h
  rcases hnext a v status u hrest with ⟨hstatus, hclean⟩ | ⟨hstatus, hvoiced⟩
  · exact .inl ⟨hstatus, (hm w a v hrun).bind hrun hclean⟩
  · exact .inr ⟨hstatus, voiced_ne_nil_of_right hrun hvoiced⟩

/-- What follows a part is told by its status. -/
theorem bind {first : Action Int} {next : Int → Action Int} (hfirst : Accounts 0 first)
    (hgood : Accounts before (next 0)) (hbad : Accounts 1 (next 1)) :
    Accounts before (first >>= next) := by
  intro w status u h
  obtain ⟨own, v, hrun, hrest⟩ := exists_of_run_bind_eq_done h
  rcases hfirst w own v hrun with ⟨rfl, hclean⟩ | ⟨rfl, hvoiced⟩
  · rcases hgood v status u hrest with ⟨hstatus, hrestClean⟩ | ⟨hstatus, hvoiced⟩
    · exact .inl ⟨hstatus, hclean.bind hrun hrestClean⟩
    · exact .inr ⟨hstatus, voiced_ne_nil_of_right hrun hvoiced⟩
  · exact .inr ⟨(hbad v status u hrest).elim And.left And.left, voiced_ne_nil_of_left hrun hvoiced⟩

/-- A failure that is caught has to be complained about. -/
theorem catching {next : Except Failure α → Action Int} (hm : m.Strict)
    (hok : ∀ a, Accounts before (next (.ok a)))
    (herror : ∀ failure, (next (.error failure)).Complaining) :
    Accounts before (m.attempt >>= next) := by
  intro w status u h
  obtain ⟨ended, v, hrun, hrest⟩ := exists_of_run_bind_eq_done h
  rcases run_of_run_attempt hrun with ⟨a, rfl, hdone⟩ | ⟨failure, rfl, -⟩
  · have hclean := untroubled_attempt.mpr (hm w a v hdone)
    rcases hok a v status u hrest with ⟨hstatus, hrestClean⟩ | ⟨hstatus, hvoiced⟩
    · exact .inl ⟨hstatus, hclean.bind hrun hrestClean⟩
    · exact .inr ⟨hstatus, voiced_ne_nil_of_right hrun hvoiced⟩
  · obtain ⟨hstatus, hvoiced⟩ := herror failure v status u hrest
    exact .inr ⟨hstatus, voiced_ne_nil_of_right hrun hvoiced⟩

/-- A body that gives up complains in the end. -/
theorem reporting {body : Action Int} (hbody : Accounts 0 body) :
    Accounts 0 (Builtin.reporting body) := by
  intro w status u h
  obtain ⟨ended, v, hrun, hrest⟩ := exists_of_run_bind_eq_done h
  rcases run_of_run_attempt hrun with ⟨own, rfl, hdone⟩ | ⟨failure, rfl, -⟩
  · obtain ⟨rfl, rfl⟩ : own = status ∧ v = u := by
      injection hrest with hown hworld
      injection hown with hown
      exact ⟨hown, hworld⟩
    rcases hbody w own v hdone with ⟨hstatus, hclean⟩ | ⟨hstatus, hvoiced⟩
    · exact .inl ⟨hstatus, (untroubled_attempt.mpr hclean).bind hrun (.pure own v)⟩
    · refine .inr ⟨hstatus, voiced_ne_nil_of_left hrun ?_⟩
      rwa [voiced, record_attempt]
  · obtain ⟨hstatus, hvoiced⟩ := Complaining.complain failure.message (pure 1) v status u hrest
    exact .inr ⟨hstatus, voiced_ne_nil_of_right hrun hvoiced⟩

/-! ## The two loops -/

theorem printFile (operand : String) : Accounts 0 (Verbs.printFile operand) := by
  refine andThen (Strict.sequential.locate operand) fun p =>
    andThen (Strict.sequential.call _) fun reply => ?_
  split
  · exact andThen (Strict.sequential.printText _) fun _ => pure 0
  · exact (Complaining.complain _ (pure 1)).accounts

theorem printFiles (status : Int) (operands : List String) :
    Accounts status (Verbs.printFiles status operands) := by
  induction operands generalizing status with
  | nil => exact pure status
  | cons operand operands ih => exact bind (printFile operand) (ih status) (ih 1)

theorem moveAll (status : Int) (dest : Path) (sources : List String) :
    Accounts status (Verbs.moveAll status dest sources) := by
  induction sources generalizing status with
  | nil => exact pure status
  | cons shown sources ih =>
    exact catching (Strict.sequential.moveInto shown dest) (fun _ => ih status)
      fun failure => Complaining.complain failure.message (ih 1)

/-- All bodies are put together so that the status tells of their complaints. -/
theorem composable : StatusComposable (fun _ => Strict) (Accounts 0) where
  toLineSequential := Strict.sequential
  zero := pure 0
  giveUp := fun failure => (Complaining.fail failure).accounts
  andThen := andThen
  reword := fun words hm =>
    catching hm (fun _ => pure 0) fun failure => Complaining.fail (words failure)
  printFiles := printFiles 0
  moveAll := moveAll 0

end Accounts

/-! ## Complaints are lines -/

/-- A command that writes whole lines to the error stream. -/
def VoicesLines (a : Action α) : Prop := ∀ w, EndsLine (a.voiced w)

namespace VoicesLines

theorem bind (hm : m.VoicesLines) (hf : ∀ a, (f a).VoicesLines) : (m >>= f).VoicesLines := by
  intro w
  rw [voiced, record_bind]
  refine (hm w).append ?_
  split
  · exact hf _ _
  · exact .inl rfl

theorem sequential : Sequential fun _ => VoicesLines where
  done := fun _ _ => .inl rfl
  fail := fun _ _ => .inl rfl
  bind := bind
  ask := fun r _ hcomplain _ w => by
    rw [voiced, record_ask]
    cases r with
    | complain data => exact absurd rfl (hcomplain data)
    | _ => exact .inl rfl

theorem composable : LineComposable fun _ => VoicesLines where
  toLineSequential := sequential.lines fun data =>
    bind (fun _ => .inl rfl) fun _ => sequential.orGiveUp _
  attempt := fun hm w => by
    rw [voiced, record_attempt]
    exact hm w
  voice := fun message w => by
    rw [voiced, record_ask]
    exact .inr (by rw [Request.voiced, List.getLast?_append]; rfl)

end VoicesLines

end Action

/-! ## Verbs -/

namespace Builtin

open LineShell.Action

/-- If a built-in verb ends with 0, everything it printed was taken, and it has no complaint; if it
ends with another status, that is 1, and it has complained. -/
theorem handler_accounts {b : Builtin} (hb : b ∈ VerbTable.builtins) (tokens : List String) :
    Accounts 0 (b.handler tokens) := by
  unfold handler
  split
  · exact Accounts.reporting (Accounts.composable.body hb
      (fun _ _ => Strict.ask _ (fun _ => nofun) fun _ => nofun) _)
  · exact Accounts.andThen (Strict.sequential.printLine _) fun _ => .pure 0
  · exact (Complaining.complain _ (.pure 1)).accounts

end Builtin
end LineShell
