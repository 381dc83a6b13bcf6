/-
Moves that fail.

`mv` takes its sources in turn.  A source is not there, or has no name, or a move is made for it;
and a move whose output is taken fails only if its transfer does, which then has changed nothing
(`FileSystem.transfer_error`).  So a turn that fails leaves the files as it found them.

A run is a chain of such turns (`Leads`), and what it writes to the error stream is one message for
each turn that failed, in order.  What is reported as a failure is therefore exactly what has been
left alone, and whatever a run does change is the work of the turns that are not reported.
-/
import LineShell.Proofs.Files.FailedTransfer
import LineShell.Proofs.Verbs.Batches

set_option autoImplicit false

namespace LineShell

open LineShell.Text

/-- An output that takes everything refuses nothing. -/
theorem Action.refused_of_takes {α : Type} (a : Action α) {w : World} (h : w.Takes) :
    a.refused w = [] := by
  induction a generalizing w with
  | done a => rfl
  | fail failure => rfl
  | panic message => rfl
  | request r next ih =>
    have hfirst : r.refused (w.answer r).1 = [] := by
      cases r with
      | print data =>
        show (Request.print data).refused (w.print data).1 = []
        rw [h.print data]
        rfl
      | _ => rfl
    show r.refused (w.answer r).1 ++ (next (w.answer r).1).refused (w.answer r).2 = []
    rw [hfirst, ih _ (h.answer r), List.nil_append]

namespace Verbs

/-! ## Turns -/

/-- The turn of one source: what is tried for it, and the world in which this begins. -/
structure Turn where
  /-- The source as it was typed. -/
  shown : String
  attempt : Action Unit
  before : World

namespace Turn

/-- The turn ends with a failure. -/
def Fails (t : Turn) (failure : Failure) : Prop := (t.attempt.run t.before).1 = .failed failure

/-- The files behind the turn. -/
def after (t : Turn) : FileSystem := (t.attempt.run t.before).2.files

/-- What is written about the turn to the error stream. -/
def complaint (t : Turn) : Bytes :=
  match (t.attempt.run t.before).1 with
  | .failed failure => encode failure.message ++ [newline]
  | _ => []

end Turn

/-- The turns of several sources, each of which begins where the one before it has ended. -/
def turnsOfAll (dest : Path) : List String → World → List Turn
  | [], _ => []
  | shown :: sources, w =>
    ⟨shown, moveInto shown dest, w⟩ ::
      match (tryMove shown dest).run w with
      | (.done _, w) => turnsOfAll dest sources w
      | _ => []

/-- The turns of sources on their way to the destination that is called `shown`. -/
def turnsTo (sources : List String) (shown : String) (w : World) : List Turn :=
  let dest := w.env.locate shown
  match sources with
  | [source] => [⟨source, moveOne source dest >>= fun _ => pure (), w⟩]
  | sources => if w.files.isDirectory dest then turnsOfAll dest sources w else []

/-- The turns of a run of `mv`. There are none where it gives up before its first source. -/
def turns (args : Arguments) (w : World) : List Turn :=
  match args.operands.reverse with
  | target :: source :: before => turnsTo (source :: before).reverse target w
  | _ => []

/-- Turns lead from one state of the files to another if each begins where the one before it has
ended. -/
def Leads (final : FileSystem) : FileSystem → List Turn → Prop
  | start, [] => final = start
  | start, t :: turns => t.before.files = start ∧ Leads final t.after turns

/-- Turns that all leave the files alone lead nowhere. -/
theorem Leads.eq_of_idle {start final : FileSystem} {turns : List Turn}
    (h : Leads final start turns) (hidle : ∀ t ∈ turns, t.after = t.before.files) :
    final = start := by
  induction turns generalizing start with
  | nil => exact h
  | cons t turns ih =>
    obtain ⟨rfl, hrest⟩ := h
    rw [ih hrest fun t ht => hidle t (List.mem_cons_of_mem _ ht), hidle t List.mem_cons_self]

/-! ## One turn -/

variable {shown : String} {dest : Path} {w : World} {t : Turn} {args : Arguments}

/-- A turn is one of the given moves, or the failure of a source for which there is none. -/
def Turn.Makes (t : Turn) (moves : List Move) : Prop :=
  (∃ m ∈ moves, m.shown = t.shown ∧ m.before = t.before
      ∧ t.attempt.run t.before = m.action.run m.before)
    ∨ t.attempt.run t.before = (.failed (.noFile "mv" t.shown), t.before)
    ∨ t.attempt.run t.before = (.failed (.namelessSource t.shown), t.before)

theorem Turn.Makes.mono {few many : List Move} (h : t.Makes few) (hsub : few ⊆ many) :
    t.Makes many := by
  rcases h with ⟨m, hm, hmove⟩ | hfailed
  · exact .inl ⟨m, hsub hm, hmove⟩
  · exact .inr hfailed

theorem makes_of_one (shown : String) (dest : Path) (w : World) :
    Turn.Makes ⟨shown, moveOne shown dest >>= fun _ => pure (), w⟩ (moveOfOne shown dest w) := by
  unfold Turn.Makes
  rw [Action.run_bind, run_moveOne, moveOfOne]
  split
  · left
    refine ⟨_, List.mem_singleton_self _, rfl, rfl, ?_⟩
    rw [Action.run_bind, Move.action]
    rcases (moveEntry shown (w.env.locate shown) _).run w with ⟨_ | _ | _, u⟩ <;> rfl
  · exact .inr (.inl rfl)

theorem makes_of_several (shown : String) (dest : Path) (w : World) :
    Turn.Makes ⟨shown, moveInto shown dest, w⟩ (moveOfSeveral shown dest w) := by
  unfold Turn.Makes moveInto moveOfSeveral
  rw [Action.run_bind, Action.run_locate]
  simp only
  rw [Action.run_bind, Action.run_isEntry]
  simp only
  split
  · cases (w.env.locate shown).fileName? with
    | none => exact .inr (.inr rfl)
    | some name => exact .inl ⟨_, List.mem_singleton_self _, rfl, rfl, rfl⟩
  · exact .inr (.inl rfl)

/-- A move that fails although everything printed is taken has changed nothing. -/
theorem Move.files_of_failed {m : Move} (hsound : m.before.files.Sound)
    (hclean : m.action.refused m.before = []) {failure : Failure}
    (hfails : (m.action.run m.before).1 = .failed failure) :
    (m.action.run m.before).2.files = m.before.files ∧ ∃ e, failure = .cannotMove m.shown e := by
  rcases Move.ends_of_clean hclean with ⟨hdone, -⟩ | ⟨e, hfailed, -, htransfer⟩
  · exact nomatch hdone.symm.trans hfails
  · refine ⟨FileSystem.transfer_error hsound htransfer, e, ?_⟩
    rw [hfailed] at hfails
    exact (Outcome.failed.inj hfails).symm

/-! ## All turns of a run -/

theorem makes_of_mem_turnsOfAll {sources : List String} (ht : t ∈ turnsOfAll dest sources w) :
    t.Makes (movesOfAll dest sources w) := by
  induction sources generalizing w with
  | nil => exact absurd ht List.not_mem_nil
  | cons shown sources ih =>
    rw [movesOfAll]
    rcases List.mem_cons.mp ht with rfl | ht
    · exact (makes_of_several shown dest w).mono (List.subset_append_left _ _)
    · revert ht
      rcases (tryMove shown dest).run w with ⟨moved | failure | message, u⟩
      · exact fun ht => (ih ht).mono (List.subset_append_right _ _)
      · exact fun ht => absurd ht List.not_mem_nil
      · exact fun ht => absurd ht List.not_mem_nil

theorem makes_of_mem_turnsTo {sources : List String} {shown : String}
    (ht : t ∈ turnsTo sources shown w) : t.Makes (movesTo sources shown w) := by
  unfold turnsTo at ht
  unfold movesTo
  rcases sources with _ | ⟨only, _ | ⟨next, sources⟩⟩
  case cons.nil =>
    rw [List.mem_singleton.mp ht]
    exact makes_of_one only _ w
  -- without a directory to go to there is no turn
  all_goals
    simp only at ht ⊢
    split at ht
    · rename_i hdir
      rw [if_pos hdir]
      exact makes_of_mem_turnsOfAll ht
    · exact nomatch ht

/-- The turns of a run make its moves. -/
theorem makes_of_mem_turns (ht : t ∈ turns args w) : t.Makes (moves args w) := by
  unfold turns at ht
  unfold moves
  generalize args.operands.reverse = operands at ht ⊢
  rcases operands with _ | ⟨target, _ | ⟨source, before⟩⟩
  · exact nomatch ht
  · exact nomatch ht
  · exact makes_of_mem_turnsTo ht

/-- Trying to move one of several sources is its turn, and a message if it fails. -/
theorem run_tryMove (hroom : w.errors.room = none) (shown : String) (dest : Path) :
    ∃ moved u, (tryMove shown dest).run w = (.done moved, u)
      ∧ u.files = Turn.after ⟨shown, moveInto shown dest, w⟩
      ∧ u.errors.room = none
      ∧ (tryMove shown dest).voiced w = Turn.complaint ⟨shown, moveInto shown dest, w⟩ := by
  have hmute : (moveInto shown dest).voiced w = [] :=
    Action.Mute.lineSequential.moveInto shown dest w
  have hroomAfter := Action.run_room (moveInto shown dest) hroom
  have hcalm := (Action.Calm.composable.moveInto shown dest).run_ne_panicked w
  rw [Action.voiced] at hmute
  unfold tryMove Turn.after Turn.complaint
  rw [Action.run_bind, Action.run_attempt, Action.voiced, Action.record_bind,
    Action.record_attempt, Action.run_attempt, hmute]
  revert hroomAfter hcalm
  rcases (moveInto shown dest).run w with ⟨⟨⟩ | failure | message, u⟩
  · intro hroomAfter _
    exact ⟨true, u, rfl, rfl, hroomAfter, rfl⟩
  · intro hroomAfter _
    simp only
    rw [Action.run_bind, Action.run_complain hroomAfter,
      Action.record_bind_unnoted fun _ => .pure _]
    exact ⟨false, _, rfl, rfl, hroomAfter, Action.voiced_complain failure.message u⟩
  · intro _ hcalm
    exact absurd rfl (hcalm message)

/-- The loop over several sources is its turns, and writes their messages. -/
theorem run_moveAll_turns (hroom : w.errors.room = none) (status : Int) (dest : Path)
    (sources : List String) :
    ∃ final u, (moveAll status dest sources).run w = (.done final, u)
      ∧ Leads u.files w.files (turnsOfAll dest sources w)
      ∧ (moveAll status dest sources).voiced w
        = (turnsOfAll dest sources w).flatMap Turn.complaint := by
  induction sources generalizing status w with
  | nil => exact ⟨status, w, rfl, rfl, rfl⟩
  | cons shown sources ih =>
    obtain ⟨moved, v, htry, hfiles, hroomAfter, hvoiced⟩ := run_tryMove hroom shown dest
    obtain ⟨final, u, hrun, hleads, hrest⟩ := ih hroomAfter (if moved then status else 1)
    refine ⟨final, u, ?_, ?_, ?_⟩
    · rw [moveAll_cons, Action.run_bind, htry]
      exact hrun
    · rw [turnsOfAll, htry]
      exact ⟨rfl, hfiles ▸ hleads⟩
    · rw [moveAll_cons, Action.voiced_bind_of_done htry, hvoiced, turnsOfAll, htry,
        List.flatMap_cons]
      exact congrArg _ hrest

/-- The check of a destination for several sources, and the loop behind it. -/
theorem run_several_turns (hroom : w.errors.room = none) (sources : List String) (shown : String)
    {body : Action Int}
    (hbody : body = Action.locate shown >>= fun dest => Action.isDirectory dest >>= fun there =>
      if there then moveAll 0 dest sources else .fail (.targetNotDirectory shown)) :
    let ran := if w.files.isDirectory (w.env.locate shown) then
      turnsOfAll (w.env.locate shown) sources w else []
    Leads ((Builtin.reporting body).run w).2.files w.files ran
      ∧ (ran ≠ [] → (Builtin.reporting body).voiced w = ran.flatMap Turn.complaint) := by
  have hbegun : body.run w = (if w.files.isDirectory (w.env.locate shown) then
      moveAll 0 (w.env.locate shown) sources else .fail (.targetNotDirectory shown)).run w := by
    rw [hbody, Action.run_bind, Action.run_locate]
    simp only
    rw [Action.run_bind, Action.run_isDirectory]
  have hquiet : body.voiced w = (if w.files.isDirectory (w.env.locate shown) then
      moveAll 0 (w.env.locate shown) sources else .fail (.targetNotDirectory shown)).voiced w := by
    have hlooks : Action.voiced (Action.isDirectory (w.env.locate shown)) w = [] :=
      Action.Mute.sequential.isDirectory _ w
    rw [hbody, Action.voiced_bind_of_done (Action.run_locate shown w),
      Action.voiced_bind_of_done (Action.run_isDirectory _ w), hlooks]
    rfl
  intro ran
  show Leads _ _ ran ∧ _
  by_cases hdir : w.files.isDirectory (w.env.locate shown) = true
  · have hran : ran = turnsOfAll (w.env.locate shown) sources w := if_pos hdir
    obtain ⟨final, u, hrun, hleads, hvoiced⟩ :=
      run_moveAll_turns hroom 0 (w.env.locate shown) sources
    rw [if_pos hdir, hrun] at hbegun
    rw [if_pos hdir, hvoiced] at hquiet
    rw [hran, Builtin.run_reporting_of_done hbegun, Builtin.voiced_reporting_of_done hbegun]
    exact ⟨hleads, fun _ => hquiet⟩
  · have hran : ran = [] := if_neg hdir
    rw [if_neg hdir] at hbegun
    rw [hran, Builtin.run_reporting_of_failed hroom hbegun]
    exact ⟨rfl, fun hne => absurd rfl hne⟩

/-- A run on its way to a destination is its turns, and writes their messages. -/
theorem run_moveTo_turns (hroom : w.errors.room = none) (sources : List String) (shown : String) :
    Leads ((Builtin.reporting (moveTo sources shown)).run w).2.files w.files
        (turnsTo sources shown w)
      ∧ (turnsTo sources shown w ≠ [] →
        (Builtin.reporting (moveTo sources shown)).voiced w
          = (turnsTo sources shown w).flatMap Turn.complaint) := by
  rcases sources with _ | ⟨only, _ | ⟨next, sources⟩⟩
  case cons.nil =>
    have hmute : (moveTo [only] shown).voiced w = [] := mute_body_single only shown w
    have hbody : (moveTo [only] shown).run w = (moveOne only (w.env.locate shown)).run w := rfl
    have hcalm := (Action.Calm.composable.status.moveOne only
      (w.env.locate shown)).run_ne_panicked w
    simp only [turnsTo, Leads, List.flatMap_singleton, Turn.after, Turn.complaint, Action.run_bind]
    revert hbody hcalm
    rcases (moveOne only (w.env.locate shown)).run w with ⟨status | failure | message, u⟩
    · intro hbody _
      rw [Builtin.run_reporting_of_done hbody, Builtin.voiced_reporting_of_done hbody, hmute]
      exact ⟨⟨trivial, rfl⟩, fun _ => rfl⟩
    · intro hbody _
      rw [Builtin.run_reporting_of_failed hroom hbody, Builtin.voiced_reporting_of_failed hbody,
        hmute]
      exact ⟨⟨trivial, rfl⟩, fun _ => rfl⟩
    · intro _ hcalm
      exact absurd rfl (hcalm message)
  · exact run_several_turns hroom [] shown rfl
  · exact run_several_turns hroom (only :: next :: sources) shown rfl

/-- A run is its turns. If there are any, it writes their messages to the error stream, and nothing
else. -/
theorem run_mv_turns (hroom : w.errors.room = none) (args : Arguments) :
    Leads ((Builtin.reporting (mv.body args)).run w).2.files w.files (turns args w)
      ∧ (turns args w ≠ [] → (Builtin.reporting (mv.body args)).voiced w
        = (turns args w).flatMap Turn.complaint) := by
  have hmissing : Leads ((Builtin.reporting (.fail (.missingOperand "mv"))).run w).2.files
      w.files [] := by
    rw [Builtin.run_reporting_of_failed hroom (Action.run_fail _ w)]
    rfl
  unfold mv turns
  dsimp only
  rcases args.operands.reverse with _ | ⟨target, _ | ⟨source, before⟩⟩
  · exact ⟨hmissing, fun hne => absurd rfl hne⟩
  · exact ⟨hmissing, fun hne => absurd rfl hne⟩
  · exact run_moveTo_turns hroom _ target

/-! ## Failures -/

/-- Where every print of a run is taken, so is every print of its moves. -/
theorem refused_of_mem_moves {m : Move} (hm : m ∈ moves args w)
    (hclean : (Builtin.reporting (mv.body args)).refused w = []) :
    m.action.refused m.before = [] := by
  have hoverlooks : Overlooks fun w r => r.refused (w.answer r).1 :=
    ⟨fun _ => rfl, fun _ _ => rfl, fun _ _ => rfl, fun _ _ => rfl⟩
  rw [Builtin.refused_reporting, Action.refused, hoverlooks.mv] at hclean
  exact List.flatMap_eq_nil_iff.mp hclean m hm

/-- **A move that fails leaves everything in place.**  A rename or copy that returns an error has
left the world as it was, whatever the error.  And a run of `mv` is a chain of turns, with one
message on the error stream for each turn that fails; where the output takes everything that is
printed, every turn that fails has left the files as it found them. -/
theorem failed_moves_keep_files (hsound : w.files.Sound) :
    (∀ (source target : Path) (e : IoError) (u : World),
        (renameOrCopy source target).run w = (.done (.error e), u) → u = w)
      ∧ ∀ args : Arguments, w.errors.room = none →
        let command := Builtin.reporting (mv.body args)
        Leads (command.run w).2.files w.files (turns args w)
          ∧ (turns args w ≠ [] →
            command.voiced w = (turns args w).flatMap Turn.complaint)
          ∧ (command.refused w = [] → ∀ t ∈ turns args w, ∀ failure, t.Fails failure →
            t.after = t.before.files
              ∧ (failure = .noFile "mv" t.shown ∨ failure = .namelessSource t.shown
                ∨ ∃ e, failure = .cannotMove t.shown e)) := by
  constructor
  · intro source target e u hrun
    rw [run_renameOrCopy] at hrun
    obtain ⟨houtcome, hworld⟩ := Prod.mk.inj hrun
    have hfiles : (w.files.transfer source target).2 = w.files :=
      FileSystem.transfer_error hsound (Prod.ext (Outcome.done.inj houtcome) rfl)
    rw [← hworld, hfiles]
  · intro args hroom command
    obtain ⟨hleads, hvoiced⟩ := run_mv_turns hroom args
    refine ⟨hleads, hvoiced, fun hclean t ht failure hfails => ?_⟩
    unfold Turn.Fails at hfails
    unfold Turn.after
    rcases makes_of_mem_turns ht with ⟨m, hm, hshown, hbefore, hrun⟩ | hrun | hrun
    · have hsoundBefore := preserved_of_mem_moves FileSystem.Sound.preserved hm hsound
      rw [hrun] at hfails ⊢
      obtain ⟨hfiles, hcannot⟩ :=
        Move.files_of_failed hsoundBefore (refused_of_mem_moves hm hclean) hfails
      rw [← hbefore, ← hshown]
      exact ⟨hfiles, .inr (.inr hcannot)⟩
    · rw [hrun] at hfails ⊢
      exact ⟨rfl, .inl (Outcome.failed.inj hfails).symm⟩
    · rw [hrun] at hfails ⊢
      exact ⟨rfl, .inr (.inl (Outcome.failed.inj hfails).symm)⟩

/-- A file is moved to a device that takes no byte.  The rename is refused, for it is on another
volume, the copy fails when it writes, and the file is still there. -/
theorem failed_moves_keep_files_full :
    twoVolumes.files.Sound ∧ twoVolumes.errors.room = none
      ∧ (Builtin.reporting (mv.body ⟨[], ["a", "/dev/full"]⟩)).voiced twoVolumes
        = encode "mv: failed to move a: No space left on device (os error 28)\n"
      ∧ ((Builtin.reporting (mv.body ⟨[], ["a", "/dev/full"]⟩)).run twoVolumes).2.files
        = twoVolumes.files := by
  obtain ⟨-, hruns⟩ := failed_moves_keep_files sound_twoVolumes
  obtain ⟨hleads, hvoiced, hkept⟩ := hruns ⟨[], ["a", "/dev/full"]⟩ rfl
  have htakes : twoVolumes.Takes := ⟨nofun, rfl⟩
  have hclean : (Builtin.reporting (mv.body ⟨[], ["a", "/dev/full"]⟩)).refused twoVolumes = [] :=
    Action.refused_of_takes _ htakes
  refine ⟨sound_twoVolumes, rfl, ?_, hleads.eq_of_idle fun t ht => ?_⟩
  · rw [hvoiced (List.cons_ne_nil _ _)]
    decide +kernel
  · refine (hkept hclean t ht (.cannotMove "a" (.os .noSpace)) ?_).1
    rw [List.mem_singleton.mp ht]
    show (_ : Outcome Unit) = _
    decide +kernel

end Verbs

end LineShell
