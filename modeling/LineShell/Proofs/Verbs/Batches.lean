/-
Moving several sources at once.

With several sources `mv` has a loop of its own, with its own checks and its own way to go on behind
a failure.  It is nevertheless the single moves one after the other.  A round of the loop and the
single move of its source ask the same, print the same and complain about the same, as long as the
source has a name and the destination is a directory, and they leave the same world (`run_single`).
From one round to the next the batch goes on (`Batch.round`): the environment is what it was, so the
destination stays the same path, and the error stream still takes everything, so no complaint ends
the batch early.
-/
import LineShell.Proofs.Verbs.Consent
import LineShell.Proofs.Verbs.Environments
import LineShell.Proofs.Verbs.Reporting

set_option autoImplicit false

namespace LineShell

open LineShell.Text

namespace Verbs

/-! ## A single move into a directory -/

variable {shown operand : String} {sources : List String} {w : World}

/-- Into a directory a single source moves as one of several does. -/
theorem run_moveOne_into {dest : Path} (hdir : w.files.isDirectory dest = true)
    (hname : (w.env.locate shown).fileName? ≠ none) :
    (moveOne shown dest).run w = (moveInto shown dest >>= fun _ => pure 0).run w := by
  obtain ⟨name, hname⟩ := Option.ne_none_iff_exists'.mp hname
  have htarget : w.files.destination (w.env.locate shown) dest = dest.join ⟨name⟩ := by
    simp only [FileSystem.destination, hname, if_pos hdir]
  unfold moveOne moveInto
  rw [Action.bind_assoc, Action.run_bind, Action.run_bind, Action.run_locate]
  simp only
  rw [Action.bind_assoc, Action.run_bind, Action.run_bind, Action.run_isEntry]
  simp only
  cases (w.files.entryStatus (w.env.locate shown)).isOk with
  | false => rfl
  | true =>
    simp only [if_pos, hname]
    rw [Action.run_bind, run_targetOf, htarget]

/-- The body of a single move. -/
theorem body_single (shown operand : String) (w : World) :
    (mv.body ⟨[], [shown, operand]⟩).run w = (moveOne shown (w.env.locate operand)).run w := rfl

theorem exists_reverse_operands (hseveral : 2 ≤ sources.length) (operand : String) :
    ∃ last before, (sources ++ [operand]).reverse = operand :: last :: before
      ∧ (last :: before).reverse = sources := by
  cases hreverse : sources.reverse with
  | nil =>
    rw [List.reverse_eq_nil_iff] at hreverse
    simp [hreverse] at hseveral
  | cons last before =>
    refine ⟨last, before, ?_, ?_⟩
    · simp [hreverse]
    · rw [← hreverse, List.reverse_reverse]

/-- With several sources there is a destination to check, and then the loop. -/
theorem body_batch (hseveral : 2 ≤ sources.length) (operand : String)
    (hdir : w.files.isDirectory (w.env.locate operand) = true) :
    (mv.body ⟨[], sources ++ [operand]⟩).run w
        = (moveAll 0 (w.env.locate operand) sources).run w
      ∧ moves ⟨[], sources ++ [operand]⟩ w = movesOfAll (w.env.locate operand) sources w := by
  obtain ⟨last, before, hoperands, hsources⟩ := exists_reverse_operands hseveral operand
  have hbody : mv.body ⟨[], sources ++ [operand]⟩ = moveTo sources operand := by
    unfold mv
    simp only [hoperands, hsources]
  have hmoves : moves ⟨[], sources ++ [operand]⟩ w = movesTo sources operand w := by
    unfold moves
    simp only [hoperands, hsources]
  rw [hbody, hmoves, moveTo, Action.run_bind, Action.run_locate]
  unfold movesTo
  rcases sources with _ | ⟨first, _ | ⟨second, rest⟩⟩
  · simp at hseveral
  · simp at hseveral
  · constructor
    · simp only
      rw [Action.run_bind, Action.run_isDirectory, hdir]
      rfl
    · simp only [hdir, if_pos]

/-- The single move of a source to what an operand names. -/
def single (operand shown : String) : Action Int :=
  Builtin.reporting (mv.body ⟨[], [shown, operand]⟩)

/-- A round of the loop leaves what the single move of its source leaves, and knows how it ended. -/
theorem run_single (hdir : w.files.isDirectory (w.env.locate operand) = true)
    (hname : (w.env.locate shown).fileName? ≠ none) (hroom : w.errors.room = none) :
    ∃ moved u, (tryMove shown (w.env.locate operand)).run w = (.done moved, u)
      ∧ (single operand shown).run w = (.done (if moved then 0 else 1), u) := by
  have hbody := (body_single shown operand w).trans (run_moveOne_into hdir hname)
  have hcalm := (Action.Calm.composable.moveInto shown (w.env.locate operand)).run_ne_panicked w
  rw [Action.run_bind] at hbody
  unfold tryMove single
  rw [Action.run_bind, Action.run_attempt]
  rcases hrun : (moveInto shown (w.env.locate operand)).run w with ⟨⟨⟩ | failure | message, u⟩
  · rw [hrun] at hbody
    refine ⟨true, u, rfl, ?_⟩
    exact Builtin.run_reporting_of_done hbody
  · rw [hrun] at hbody
    have hroomAfter := Action.run_room (moveInto shown (w.env.locate operand)) hroom
    rw [hrun] at hroomAfter
    refine ⟨false, _, ?_, Builtin.run_reporting_of_failed hroom hbody⟩
    simp only
    rw [Action.run_bind, Action.run_complain hroomAfter]
    rfl
  · rw [hrun] at hcalm
    exact absurd rfl (hcalm message)

/-! ## Rounds -/

/-- A source, and the world in which it is reached. -/
structure Round where
  shown : String
  before : World

/-- The sources of some commands that are run one after the other. -/
def rounds (command : String → Action Int) : List String → World → List Round
  | [], _ => []
  | shown :: sources, w => ⟨shown, w⟩ :: rounds command sources ((command shown).run w).2

/-- The world behind some commands that are run one after the other. -/
def worldBehind (command : String → Action Int) (sources : List String) (w : World) : World :=
  sources.foldl (fun w shown => ((command shown).run w).2) w

/-- The command of a round ended with status 1. -/
def Round.Fails (command : String → Action Int) (r : Round) : Prop :=
  ((command r.shown).run r.before).1 = .done 1

theorem mem_of_mem_rounds {command : String → Action Int} {r : Round}
    (h : r ∈ rounds command sources w) : r.shown ∈ sources := by
  induction sources generalizing w with
  | nil => exact nomatch h
  | cons shown sources ih =>
    rcases List.mem_cons.mp h with rfl | h
    · exact List.mem_cons_self
    · exact List.mem_cons_of_mem _ (ih h)

/-- Commands that are the same for the sources make the same rounds of them. -/
theorem rounds_congr {command command' : String → Action Int}
    (h : ∀ shown ∈ sources, command shown = command' shown) (w : World) :
    rounds command sources w = rounds command' sources w
      ∧ worldBehind command sources w = worldBehind command' sources w := by
  induction sources generalizing w with
  | nil => exact ⟨rfl, rfl⟩
  | cons shown sources ih =>
    obtain ⟨hrounds, hbehind⟩ := ih (fun s hs => h s (List.mem_cons_of_mem _ hs))
      ((command' shown).run w).2
    have hfirst := h shown List.mem_cons_self
    unfold worldBehind at hbehind ⊢
    constructor
    · rw [rounds, rounds, hfirst, hrounds]
    · rw [List.foldl_cons, List.foldl_cons, hfirst, hbehind]

theorem single_leavesEnvironment (operand shown : String) :
    (single operand shown).LeavesEnvironment :=
  Action.LeavesEnvironment.composable.reporting (Action.LeavesEnvironment.composable.status.mv _)

/-- Into a directory a single source asks for the same move as one of several does. -/
theorem moves_single (hdir : w.files.isDirectory (w.env.locate operand) = true)
    (hname : (w.env.locate shown).fileName? ≠ none) :
    moves ⟨[], [shown, operand]⟩ w = moveOfSeveral shown (w.env.locate operand) w := by
  obtain ⟨name, hname⟩ := Option.ne_none_iff_exists'.mp hname
  show moveOfOne shown (w.env.locate operand) w = _
  simp only [moveOfOne, moveOfSeveral, hname, FileSystem.destination, if_pos hdir]

/-- What the loop over the sources relies on, from one round to the next. -/
structure Batch (operand : String) (dest : Path) (sources : List String) (w : World) : Prop where
  /-- The destination is what the operand of the single moves names. -/
  dest_eq : w.env.locate operand = dest
  named : ∀ shown ∈ sources, (w.env.locate shown).fileName? ≠ none
  /-- No complaint ends the batch early. -/
  room : w.errors.room = none
  directory : ∀ r ∈ rounds (single operand) sources w, r.before.files.isDirectory dest = true

namespace Batch

variable {dest : Path}

/-- A round and the single move of its source leave the same world, and there the batch goes on. -/
theorem round (h : Batch operand dest (shown :: sources) w) :
    ∃ moved u, (tryMove shown dest).run w = (.done moved, u)
      ∧ (single operand shown).run w = (.done (if moved then 0 else 1), u)
      ∧ Batch operand dest sources u := by
  obtain ⟨rfl, hnamed, hroom, hdir⟩ := h
  have hthere := hdir ⟨shown, w⟩ List.mem_cons_self
  obtain ⟨moved, u, htry, hsingle⟩ := run_single hthere (hnamed _ List.mem_cons_self) hroom
  refine ⟨moved, u, htry, hsingle, ?_⟩
  have henv := single_leavesEnvironment operand shown w
  have hroomAfter := Action.run_room (single operand shown) hroom
  rw [hsingle] at henv hroomAfter
  simp only at henv hroomAfter
  rw [rounds, hsingle] at hdir
  constructor
  · rw [henv]
  · intro s hs
    rw [henv]
    exact hnamed s (List.mem_cons_of_mem _ hs)
  · exact hroomAfter
  · intro r hr
    exact hdir r (List.mem_cons_of_mem _ hr)

/-- The loop leaves what the single moves leave, one after the other. -/
theorem run_moveAll (h : Batch operand dest sources w) (status : Int) :
    ∃ final, (moveAll status dest sources).run w
        = (.done final, worldBehind (single operand) sources w)
      ∧ ((∃ r ∈ rounds (single operand) sources w, r.Fails (single operand)) ∧ final = 1
        ∨ (∀ r ∈ rounds (single operand) sources w, ¬ r.Fails (single operand))
          ∧ final = status) := by
  induction sources generalizing status w with
  | nil => exact ⟨status, rfl, .inr ⟨fun _ => nofun, rfl⟩⟩
  | cons shown sources ih =>
    obtain ⟨moved, u, htry, hsingle, hrest⟩ := h.round
    obtain ⟨final, hrun, hfinal⟩ := ih hrest (if moved then status else 1)
    refine ⟨final, ?_, ?_⟩
    · rw [moveAll_cons, Action.run_bind, htry]
      simp only
      rw [hrun, worldBehind, worldBehind, List.foldl_cons, hsingle]
    · have hfails : Round.Fails (single operand) ⟨shown, w⟩ ↔ moved = false := by
        unfold Round.Fails
        rw [hsingle]
        cases moved <;> simp
      rw [rounds, hsingle]
      simp only [List.mem_cons, exists_eq_or_imp, forall_eq_or_imp, hfails]
      cases moved <;> grind

/-- A single move of the batch ends with 0 or with 1. -/
theorem ends (h : Batch operand dest sources w) :
    ∀ r ∈ rounds (single operand) sources w,
      ((single operand r.shown).run r.before).1 = .done 0 ∨ r.Fails (single operand) := by
  induction sources generalizing w with
  | nil => exact fun _ => nofun
  | cons shown sources ih =>
    obtain ⟨moved, u, -, hsingle, hrest⟩ := h.round
    intro r hr
    rw [rounds, hsingle] at hr
    rcases List.mem_cons.mp hr with rfl | hr
    · unfold Round.Fails
      rw [hsingle]
      cases moved <;> simp
    · exact ih hrest r hr

/-- The moves of the loop are those of the single moves. -/
theorem moves_eq (h : Batch operand dest sources w) :
    movesOfAll dest sources w = (rounds (single operand) sources w).flatMap
      fun r => moves ⟨[], [r.shown, operand]⟩ r.before := by
  induction sources generalizing w with
  | nil => rfl
  | cons shown sources ih =>
    obtain ⟨moved, u, htry, hsingle, hrest⟩ := h.round
    have hthere := h.directory ⟨shown, w⟩ List.mem_cons_self
    have hfirst := h.named shown List.mem_cons_self
    obtain rfl := h.dest_eq
    rw [movesOfAll, htry, rounds, hsingle, List.flatMap_cons, moves_single hthere hfirst,
      ← ih hrest]

/-- The batch as a command ends with 0 or with 1, and with 1 exactly if a single move does. -/
theorem run_reporting (h : Batch operand (w.env.locate operand) sources w)
    (hseveral : 2 ≤ sources.length) :
    ∃ final, (Builtin.reporting (mv.body ⟨[], sources ++ [operand]⟩)).run w
        = (.done final, worldBehind (single operand) sources w)
      ∧ (final = 0 ∨ final = 1)
      ∧ (final = 1 ↔ ∃ r ∈ rounds (single operand) sources w, r.Fails (single operand))
      ∧ moves ⟨[], sources ++ [operand]⟩ w = (rounds (single operand) sources w).flatMap
        fun r => moves ⟨[], [r.shown, operand]⟩ r.before := by
  have hthere : w.files.isDirectory (w.env.locate operand) = true := by
    rcases sources with _ | ⟨first, rest⟩
    · simp at hseveral
    · exact h.directory ⟨first, w⟩ List.mem_cons_self
  obtain ⟨hbody, hmoves⟩ := body_batch hseveral operand hthere
  obtain ⟨final, hrun, hfinal⟩ := h.run_moveAll 0
  refine ⟨final, Builtin.run_reporting_of_done (hbody.trans hrun), ?_, ?_,
    hmoves.trans h.moves_eq⟩
  · rcases hfinal with ⟨-, rfl⟩ | ⟨-, rfl⟩ <;> simp
  · rcases hfinal with ⟨hfail, rfl⟩ | ⟨hnone, rfl⟩
    · exact ⟨fun _ => hfail, fun _ => rfl⟩
    · constructor
      · intro hone
        simp at hone
      · rintro ⟨r, hr, hfail⟩
        exact absurd hfail (hnone r hr)

end Batch

/-! ## Messages -/

/-- A move of which everything printed is taken is reported, or skipped, or it is a transfer that
has failed. -/
theorem Move.ends_of_clean {m : Move} (hclean : m.action.refused m.before = []) :
    ((m.action.run m.before).1 = .done () ∧ (m.printed = m.report ∨ m.printed = m.skip))
      ∨ ∃ e, (m.action.run m.before).1 = .failed (.cannotMove m.shown e) ∧ m.printed = []
        ∧ m.before.files.transfer m.source m.target
          = (.error e, (m.action.run m.before).2.files) := by
  obtain ⟨allowed, u, hasked, hfiles, -⟩ := run_mayOverwrite m.target m.before
  obtain ⟨hrun, hprinted, hclean'⟩ := run_of_asked hasked
  have hbehind := hclean' hclean
  rw [hrun, hprinted]
  cases allowed with
  | false =>
    obtain ⟨hprinted, hended⟩ := Action.run_printAll_of_clean hbehind
    exact .inl ⟨hended, .inr hprinted⟩
  | true =>
    have hmoving : (renameOrCopy m.source m.target).printed u = [] :=
      Action.Silent.composable.renameOrCopy _ _ _
    have htransfer := run_renameOrCopy m.source m.target u
    unfold behind at hbehind ⊢
    rw [if_pos rfl] at hbehind ⊢
    rw [Action.refused, Action.record_bind_of_done htransfer] at hbehind
    rw [Action.printed_bind, hmoving, Action.run_bind, htransfer, List.nil_append, ← hfiles]
    simp only
    have hlast := (List.append_eq_nil_iff.mp hbehind).2
    revert hlast
    rcases u.files.transfer m.source m.target with ⟨e | _, after⟩
    · exact fun _ => .inr ⟨e, rfl, rfl, rfl⟩
    · intro hlast
      obtain ⟨hprinted, hended⟩ := Action.run_printAll_of_clean hlast
      exact .inl ⟨hended, .inl hprinted⟩

/-- One message about a source: a line on the output, or a line on the error stream, and nothing
on the other. -/
inductive Tells (shown : String) (target : Path) (command : Action Int) (w : World) : Prop where
  | moved (hprinted : command.printed w
      = (["Moved: ", shown, " to ", target.display].map encode ++ [[newline]]).flatten)
      (hvoiced : command.voiced w = [])
  | skipped (hprinted : command.printed w
      = (["Skipped: ", shown].map encode ++ [[newline]]).flatten)
      (hvoiced : command.voiced w = [])
  | failed {failure : Failure} (hprinted : command.printed w = [])
      (hfailure : failure = .noFile "mv" shown ∨ ∃ e, failure = .cannotMove shown e)
      (hvoiced : command.voiced w = encode failure.message ++ [newline])

theorem mute_body_single (shown operand : String) : (mv.body ⟨[], [shown, operand]⟩).Mute := by
  apply Action.Mute.bind (Action.Mute.sequential.locate operand)
  intro dest
  apply Action.Mute.bind (Action.Mute.sequential.locate shown)
  intro source
  apply Action.Mute.bind (Action.Mute.sequential.isEntry source)
  intro there
  split
  · apply Action.Mute.bind (Action.Mute.sequential.targetOf source dest)
    intro target
    apply Action.Mute.bind (Action.Mute.lineSequential.moveEntry shown source target)
    intro _
    exact Action.Mute.sequential.pure 0
  · exact Action.Mute.sequential.fail _

/-- A single source is moved if its entry is there. -/
theorem run_moveOne (shown : String) (dest : Path) (w : World) :
    (moveOne shown dest).run w = if (w.files.entryStatus (w.env.locate shown)).isOk then
        (moveEntry shown (w.env.locate shown) (w.files.destination (w.env.locate shown) dest)
          >>= fun _ => pure 0).run w
      else (.failed (.noFile "mv" shown), w) := by
  unfold moveOne
  rw [Action.run_bind, Action.run_locate]
  simp only
  rw [Action.run_bind, Action.run_isEntry]
  simp only
  split
  · rw [Action.run_bind, run_targetOf]
  · rfl

/-- A single move of which everything printed is taken makes one message. -/
theorem tells_single (hclean : (single operand shown).refused w = []) :
    Tells shown (w.files.destination (w.env.locate shown) (w.env.locate operand))
      (single operand shown) w := by
  have hmute : (mv.body ⟨[], [shown, operand]⟩).voiced w = [] := mute_body_single shown operand w
  have hoverlooks : Overlooks fun w r => r.refused (w.answer r).1 :=
    ⟨fun _ => rfl, fun _ _ => rfl, fun _ _ => rfl, fun _ _ => rfl⟩
  have hmoves : moves ⟨[], [shown, operand]⟩ w = moveOfOne shown (w.env.locate operand) w := rfl
  have hbody := (body_single shown operand w).trans (run_moveOne shown _ w)
  have hprinted := (Builtin.printed_reporting _ w).trans (printed_mv ⟨[], [shown, operand]⟩ w)
  rw [single, Builtin.refused_reporting, Action.refused, hoverlooks.mv] at hclean
  rw [hmoves, moveOfOne] at hprinted hclean
  by_cases hthere : (w.files.entryStatus (w.env.locate shown)).isOk = true
  · rw [if_pos hthere, List.flatMap_singleton] at hprinted hclean
    rw [if_pos hthere, Action.run_bind] at hbody
    have hends := Move.ends_of_clean hclean
    unfold Move.action at hends
    simp only at hends
    revert hbody hends
    rcases (moveEntry shown (w.env.locate shown)
      (w.files.destination (w.env.locate shown) (w.env.locate operand))).run w with ⟨ended, u⟩
    rintro hbody (⟨rfl, htold⟩ | ⟨e, rfl, hquiet, -⟩)
    · have hvoiced := (Builtin.voiced_reporting_of_done hbody).trans hmute
      rcases htold with htold | htold
      · exact .moved (hprinted.trans htold) hvoiced
      · exact .skipped (hprinted.trans htold) hvoiced
    · have hvoiced := Builtin.voiced_reporting_of_failed hbody
      rw [hmute, List.nil_append] at hvoiced
      exact .failed (hprinted.trans hquiet) (.inr ⟨e, rfl⟩) hvoiced
  · rw [if_neg hthere] at hprinted hbody
    have hvoiced := Builtin.voiced_reporting_of_failed hbody
    rw [hmute, List.nil_append] at hvoiced
    exact .failed hprinted (.inl rfl) hvoiced

/-! ## The batch -/

/-- Several sources are moved as the single moves of them, one after the other, would move them:
the world behind is the same, so are the moves that are made, and the status tells whether one of
the single moves has failed.  A single move ends with 0 or 1, and makes one message if everything it
prints is taken.  This is so however the operands are put into words. -/
theorem batch_eq_singles {write : List String → List String} {w : World} {operand : String}
    {sources : List String} (hseveral : 2 ≤ sources.length)
    (hbatch : Lists (write (sources ++ [operand])) (sources ++ [operand]))
    (hsingles : ∀ shown ∈ sources, Lists (write [shown, operand]) [shown, operand])
    (hnamed : ∀ shown ∈ sources, (w.env.locate shown).fileName? ≠ none)
    (hdir : ∀ r ∈ rounds (fun shown => mv.handler ("mv" :: write [shown, operand])) sources w,
      r.before.files.isDirectory (w.env.locate operand) = true)
    (hroom : w.errors.room = none) :
    let command := fun shown => mv.handler ("mv" :: write [shown, operand])
    let batch := mv.handler ("mv" :: write (sources ++ [operand]))
    (batch.run w).2 = worldBehind command sources w
      ∧ ((batch.run w).1 = .done 0 ∨ (batch.run w).1 = .done 1)
      ∧ ((batch.run w).1 = .done 1 ↔ ∃ r ∈ rounds command sources w, r.Fails command)
      ∧ moves ⟨[], sources ++ [operand]⟩ w = (rounds command sources w).flatMap
        (fun r => moves ⟨[], [r.shown, operand]⟩ r.before)
      ∧ ∀ r ∈ rounds command sources w,
        (((command r.shown).run r.before).1 = .done 0 ∨ r.Fails command)
        ∧ ((command r.shown).refused r.before = [] →
          Tells r.shown (r.before.files.destination (r.before.env.locate r.shown)
            (r.before.env.locate operand)) (command r.shown) r.before) := by
  intro command batch
  have hcommand : ∀ shown ∈ sources, command shown = single operand shown :=
    fun shown h => Builtin.handler_of_lists rfl (hsingles shown h)
  obtain ⟨hrounds, hbehind⟩ := rounds_congr hcommand w
  have hfails : ∀ r ∈ rounds (single operand) sources w,
      r.Fails command ↔ r.Fails (single operand) := by
    intro r hr
    unfold Round.Fails
    rw [hcommand r.shown (mem_of_mem_rounds hr)]
  change ∀ r ∈ rounds command sources w, _ at hdir
  rw [hrounds] at hdir
  have hall : Batch operand (w.env.locate operand) sources w := ⟨rfl, hnamed, hroom, hdir⟩
  obtain ⟨final, hrun, hstatus, hone, hmoves⟩ := hall.run_reporting hseveral
  have hbatchRun : batch.run w = (.done final, worldBehind (single operand) sources w) := by
    show (mv.handler ("mv" :: write (sources ++ [operand]))).run w = _
    rw [Builtin.handler_of_lists rfl hbatch]
    exact hrun
  rw [hbatchRun, hbehind, hrounds]
  refine ⟨rfl, ?_, ?_, hmoves, ?_⟩
  · rcases hstatus with rfl | rfl <;> simp
  · simp only [Outcome.done.injEq, hone]
    constructor
    · rintro ⟨r, hr, hfail⟩
      exact ⟨r, hr, (hfails r hr).mpr hfail⟩
    · rintro ⟨r, hr, hfail⟩
      exact ⟨r, hr, (hfails r hr).mp hfail⟩
  · intro r hr
    rw [hfails r hr, hcommand r.shown (mem_of_mem_rounds hr)]
    exact ⟨hall.ends r hr, tells_single⟩

/-- A session with two files, a directory that holds a file of the name of one of them, and a user
who says no. -/
def twoFiles : World where
  env := .startingIn (Path.ofString "/r") none
  files := .ofSeeds (.fresh (encode "r") [])
    [.file (Path.ofString "/r/a") (encode "A"), .file (Path.ofString "/r/b") (encode "B"),
      .file (Path.ofString "/r/d/b") (encode "old")]
  console := .blank none
  errors := .blank none
  source := .ofBytes []
  output := .console
  input := .session
  respondent := .scripted ["n"]
  asked := []

/-- Of three sources one is moved, one is missing and one is declined.  The batch fails, and leaves
what the three single moves leave. -/
theorem batch_eq_singles_mixed :
    (mv.handler ["mv", "a", "gone", "b", "d"]).run twoFiles
        = (.done 1, worldBehind (fun shown => mv.handler ["mv", shown, "d"]) ["a", "gone", "b"]
          twoFiles)
      ∧ ((mv.handler ["mv", "a", "gone", "b", "d"]).run twoFiles).2.asked
        = ["Overwrite b? (y/n): "] := by
  have hsingles : ∀ shown ∈ ["a", "gone", "b"], Lists (id [shown, "d"]) [shown, "d"] := by
    intro shown hshown
    simp only [List.mem_cons, List.not_mem_nil, or_false] at hshown
    rcases hshown with rfl | rfl | rfl <;> exact ⟨by decide +kernel, by decide +kernel⟩
  obtain ⟨hworld, -, hstatus, -, -⟩ := @batch_eq_singles id twoFiles "d" ["a", "gone", "b"]
    (by decide) ⟨by decide +kernel, by decide +kernel⟩ hsingles (by decide +kernel)
    (by decide +kernel) rfl
  have hfails : ((mv.handler ["mv", "a", "gone", "b", "d"]).run twoFiles).1 = .done 1 := by
    apply hstatus.mpr
    refine ⟨_, List.mem_cons_of_mem _ List.mem_cons_self, ?_⟩
    unfold Round.Fails
    decide +kernel
  exact ⟨Prod.ext hfails hworld, by decide +kernel⟩

end Verbs

end LineShell
