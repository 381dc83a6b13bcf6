/-
What the parts of the verbs do.

The questions of a verb leave the world as it is and their answers are read off the file system, so
a run of a verb can be followed part by part.  Most parts print nothing (`Silent`), and what
prints nothing can be left out when the printed bytes of a run are put together.
-/
import LineShell.Proofs.Files.Transfer
import LineShell.Proofs.Session.Streams
import LineShell.Proofs.Verbs.Composed

set_option autoImplicit false

namespace LineShell

open LineShell.Text

/-! ## Questions and moves -/

namespace Action

variable {α β γ : Type} {w : World}

theorem bind_assoc (m : Action α) (f : α → Action β) (g : β → Action γ) :
    (m >>= f) >>= g = m >>= fun a => f a >>= g := by
  induction m with
  | done a => rfl
  | fail failure => rfl
  | panic message => rfl
  | request r next ih => exact congrArg (Action.request r) (funext fun reply => ih reply)

theorem bind_done (m : Action α) : m >>= Action.done = m := by
  induction m with
  | done a => rfl
  | fail failure => rfl
  | panic message => rfl
  | request r next ih => exact congrArg (Action.request r) (funext fun reply => ih reply)

theorem run_isThere (p : Path) (w : World) :
    (isThere p).run w = (.done (w.files.status p).isOk, w) := by
  have hanswer : w.answer (.files (.status p)) = (w.files.status p, w) := rfl
  rw [isThere, run_bind, call, run_ask, hanswer]
  rcases w.files.status p with e | kind <;> rfl

theorem run_isEntry (p : Path) (w : World) :
    (isEntry p).run w = (.done (w.files.entryStatus p).isOk, w) := by
  have hanswer : w.answer (.files (.entryStatus p)) = (w.files.entryStatus p, w) := rfl
  rw [isEntry, run_bind, call, run_ask, hanswer]
  rcases w.files.entryStatus p with e | kind <;> rfl

end Action

/-- Whether a path leads to a directory. -/
def FileSystem.isDirectory (fs : FileSystem) (p : Path) : Bool :=
  match fs.status p with
  | .ok kind => kind == Kind.directory
  | .error _ => false

theorem Action.run_isDirectory (p : Path) (w : World) :
    (isDirectory p).run w = (.done (w.files.isDirectory p), w) := by
  have hanswer : w.answer (.files (.status p)) = (w.files.status p, w) := rfl
  rw [isDirectory, run_bind, call, run_ask, hanswer, FileSystem.isDirectory]
  rcases w.files.status p with e | kind <;> rfl

/-- The environment sees an operand; nothing else is touched. -/
theorem Action.run_locate (operand : String) (w : World) :
    (locate operand).run w = (.done (w.env.locate operand), w) := rfl

/-- Where a single source goes when its destination is `dest`. -/
def FileSystem.destination (fs : FileSystem) (source dest : Path) : Path :=
  match source.fileName? with
  | some name => if fs.isDirectory dest then dest.join ⟨name⟩ else dest
  | none => dest

namespace Verbs

theorem run_targetOf (source dest : Path) (w : World) :
    (targetOf source dest).run w = (.done (w.files.destination source dest), w) := by
  unfold targetOf FileSystem.destination
  rcases source.fileName? with _ | name
  · rfl
  · simp only
    rw [Action.run_bind, Action.run_isDirectory]
    rcases w.files.isDirectory dest with _ | _ <;> rfl

/-- Asking leaves the files and the output alone. -/
theorem run_mayOverwrite (target : Path) (w : World) :
    ∃ allowed u, (mayOverwrite target).run w = (.done allowed, u) ∧ u.files = w.files
      ∧ u.output = w.output := by
  rw [mayOverwrite, Action.run_bind, Action.run_isThere]
  rcases (w.files.status target).isOk with _ | _
  · exact ⟨true, w, rfl, rfl, rfl⟩
  · obtain ⟨houtput, -, hfiles⟩ := w.confirm_frame (overwriteQuestion target)
    exact ⟨_, _, rfl, hfiles, houtput⟩

/-- Renaming, or else copying and removing, is a transfer of the file system. -/
theorem run_renameOrCopy (source target : Path) (w : World) :
    (renameOrCopy source target).run w
      = (.done (w.files.transfer source target).1,
        { w with files := (w.files.transfer source target).2 }) := by
  have hrename : w.answer (.files (.rename source target))
      = ((w.files.commit (w.files.rename source target)).1,
        { w with files := (w.files.commit (w.files.rename source target)).2 }) := rfl
  unfold renameOrCopy FileSystem.transfer
  rw [Action.run_bind, Action.call, Action.run_ask, hrename]
  rcases w.files.rename source target with e | renamed
  · show ((Action.isRegular source >>= _).run w) = _
    have hstatus : w.answer (.files (.status source)) = (w.files.status source, w) := rfl
    rw [Action.run_bind, Action.isRegular, Action.run_bind, Action.call, Action.run_ask, hstatus]
    rcases w.files.status source with _ | (_ | _ | _ | _)
    · rfl
    · rfl
    · have hcopy : w.answer (.files (.copy source target))
          = ((w.files.copy source target).1,
            { w with files := (w.files.copy source target).2 }) := rfl
      show ((Action.call (.copy source target) >>= _).run w) = _
      rw [Action.run_bind, Action.call, Action.run_ask, hcopy]
      rcases w.files.copy source target with ⟨_ | _, copied⟩ <;> rfl
    · rfl
    · rfl
  · rfl

end Verbs

/-! ## Parts that print nothing -/

namespace Action

variable {α β : Type} {m : Action α} {f : α → Action β}

/-- A command that prints nothing, whatever the world. -/
def Silent (a : Action α) : Prop := ∀ w, a.printed w = []

namespace Silent

theorem pure (a : α) : (Pure.pure a : Action α).Silent := fun _ => rfl

theorem bind (hm : m.Silent) (hf : ∀ a, (f a).Silent) : (m >>= f).Silent := by
  intro w
  rw [printed_bind, hm w, List.nil_append]
  split
  · exact hf _ _
  · rfl

/-- What prints nothing can be left out at the end. -/
theorem printed_bind (m : Action α) (hf : ∀ a, (f a).Silent) (w : World) :
    (m >>= f).printed w = m.printed w := by
  rw [Action.printed_bind]
  split
  · rw [hf, List.append_nil]
  · exact List.append_nil _

/-- Only a request to print prints. -/
theorem composable : Composable fun _ => Silent where
  done := fun _ _ => rfl
  fail := fun _ _ => rfl
  bind := bind
  ask := fun r hr _ _ w => by
    cases r with
    | print data => exact absurd rfl (hr data)
    | _ => rfl
  attempt := fun hm w => (printed_attempt _ w).trans (hm w)
  voice := fun _ _ => rfl

end Silent

/-- A line is printed from its first piece on, or not at all. -/
theorem printed_printLine (first : String) (pieces : List String) (w : World) :
    (printLine (first :: pieces)).printed w = []
      ∨ encode first <+: (printLine (first :: pieces)).printed w := by
  rw [printLine, List.map_cons, List.cons_append, printAll, printed_bind, printed_print,
    run_print_eq]
  rcases w.print (encode first) with ⟨e | _, u⟩
  · exact .inl rfl
  · exact .inr (List.prefix_append _ _)

/-- Printing changes files only if the output is one. -/
theorem files_printAll {w : World} (hout : ∀ sink, w.output ≠ .file sink) (pieces : List Bytes) :
    ((printAll pieces).run w).2.files = w.files := by
  induction pieces generalizing w with
  | nil => rfl
  | cons piece pieces ih =>
    have hprint : (w.print piece).2.files = w.files
        ∧ ∀ sink, (w.print piece).2.output ≠ .file sink := by
      unfold World.print
      rcases houtput : w.output with _ | buffer | sink
      · exact ⟨rfl, nofun⟩
      · exact ⟨rfl, nofun⟩
      · exact absurd houtput (hout sink)
    obtain ⟨hfiles, hout⟩ := hprint
    have hanswer : w.answer (.print piece) = w.print piece := rfl
    rw [printAll, run_bind, print, run_bind, run_ask, hanswer]
    revert hfiles hout
    rcases w.print piece with ⟨_ | _, u⟩
    · exact fun hfiles _ => hfiles
    · exact fun hfiles hout => (ih hout).trans hfiles

end Action

end LineShell
