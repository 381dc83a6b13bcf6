/-
The moves of `mv`.

A run of `mv` is a sequence of moves, one for each source that is there, and between two
of them nothing happens but that a failure is reported.  The moves are listed here with the worlds
in which they begin (`moves`), and what the verb prints is what they print (`printed_mv`).

A move that reports success has changed the file system as `FileSystem.transfer` says, also
where its report goes to a file afterwards (`Move.of_reported`).  So what holds of
transfers holds of every move that any run of `mv` reports: where the file is put, and
what becomes of its bytes.
-/
import LineShell.Proofs.Files.Moved
import LineShell.Proofs.Session.Complaints
import LineShell.Proofs.Verbs.Parts

set_option autoImplicit false

namespace LineShell

open LineShell.Text

namespace Verbs

/-! ## One move -/

/-- One move of a run, and the world in which it begins. -/
structure Move where
  /-- The source as it was typed. -/
  shown : String
  source : Path
  target : Path
  before : World
  deriving DecidableEq

namespace Move

variable {m : Move}

/-- What is done. -/
def action (m : Move) : Action Unit := moveEntry m.shown m.source m.target

/-- What the output takes of it. -/
def printed (m : Move) : Bytes := m.action.printed m.before

/-- The report of success. -/
def report (m : Move) : Bytes :=
  (["Moved: ", m.shown, " to ", m.target.display].map encode ++ [[newline]]).flatten

/-- The move is reported as a success. -/
def Reported (m : Move) : Prop := m.printed = m.report

instance (m : Move) : Decidable m.Reported := inferInstanceAs (Decidable (_ = _))

/-- The file system when the move is done and its report is not yet printed. -/
def after (m : Move) : FileSystem :=
  ((renameOrCopy m.source m.target).run ((mayOverwrite m.target).run m.before).2).2.files

theorem after_eq (m : Move) : m.after = (m.before.files.transfer m.source m.target).2 := by
  obtain ⟨allowed, u, hrun, hfiles, -⟩ := run_mayOverwrite m.target m.before
  rw [after, hrun, run_renameOrCopy, hfiles]

/-- A move that is reported was allowed, and has gone through. -/
theorem of_reported (h : m.Reported) :
    (∃ u, (mayOverwrite m.target).run m.before = (.done true, u) ∧ u.files = m.before.files
        ∧ u.output = m.before.output)
      ∧ m.before.files.transfer m.source m.target = (.ok (), m.after) := by
  have hsilent : (mayOverwrite m.target).printed m.before = [] :=
    Action.Silent.composable.mayOverwrite _ _
  obtain ⟨allowed, u, hrun, hfiles, houtput⟩ := run_mayOverwrite m.target m.before
  have hhead : m.report.head? = some 77 := rfl
  rw [Reported, printed, action, moveEntry, Action.printed_bind, hsilent, hrun,
    List.nil_append] at h
  rcases allowed with _ | _
  · -- what is printed of a move that was declined begins with another letter
    rcases Action.printed_printLine "Skipped: " [m.shown] u with hnone | ⟨rest, hrest⟩
    · rw [← h] at hhead
      exact nomatch (congrArg List.head? hnone).symm.trans hhead
    · rw [← h] at hhead
      exact nomatch (congrArg List.head? hrest).trans hhead
  · refine ⟨⟨u, hrun, hfiles, houtput⟩, ?_⟩
    have hsilent : (renameOrCopy m.source m.target).printed u = [] :=
      Action.Silent.composable.renameOrCopy _ _ _
    have hgone : ∀ e, (m.before.files.transfer m.source m.target).1 ≠ .error e := by
      intro e he
      simp only [if_pos] at h
      rw [Action.printed_bind, hsilent, run_renameOrCopy, hfiles, he] at h
      rw [← h] at hhead
      exact nomatch hhead
    rw [after_eq]
    rcases htransfer : m.before.files.transfer m.source m.target with ⟨e | _, after⟩
    · exact absurd (by rw [htransfer]) (hgone e)
    · rfl

/-- Where the output is no file, the report of a move does not change the files any more. -/
theorem files_run (h : m.Reported) (hout : m.before.output.IsFileless) :
    (m.action.run m.before).2.files = m.after := by
  obtain ⟨⟨u, hrun, hfiles, houtput⟩, htransfer⟩ := of_reported h
  rw [action, moveEntry, Action.run_bind, hrun]
  simp only [if_pos]
  rw [Action.run_bind, run_renameOrCopy, hfiles, htransfer]
  exact Action.files_printAll (by rw [← houtput] at hout; exact hout) _

end Move

/-! ## The moves of a run -/

/-- The move that a single source asks for. -/
def moveOfOne (shown : String) (dest : Path) (w : World) : List Move :=
  let source := w.env.locate shown
  if (w.files.entryStatus source).isOk then
    [⟨shown, source, w.files.destination source dest, w⟩]
  else []

/-- The move that one of several sources asks for. -/
def moveOfSeveral (shown : String) (dest : Path) (w : World) : List Move :=
  let source := w.env.locate shown
  if (w.files.entryStatus source).isOk then
    match source.fileName? with
    | some name => [⟨shown, source, dest.join ⟨name⟩, w⟩]
    | none => []
  else []

/-- Tries to move one of several sources, and reports a failure. -/
def tryMove (shown : String) (dest : Path) : Action Bool := do
  match ← (moveInto shown dest).attempt with
  | .ok () => pure true
  | .error failure =>
    Action.complain failure.message
    pure false

/-- The moves of several sources, each of which begins where the one before it has ended. -/
def movesOfAll (dest : Path) : List String → World → List Move
  | [], _ => []
  | shown :: sources, w =>
    moveOfSeveral shown dest w ++
      match (tryMove shown dest).run w with
      | (.done _, w) => movesOfAll dest sources w
      | _ => []

/-- The moves of sources to the destination that is called `shown`. -/
def movesTo (sources : List String) (shown : String) (w : World) : List Move :=
  let dest := w.env.locate shown
  match sources with
  | [source] => moveOfOne source dest w
  | sources => if w.files.isDirectory dest then movesOfAll dest sources w else []

/-- The moves of a run of `mv`. -/
def moves (args : Arguments) (w : World) : List Move :=
  match args.operands.reverse with
  | target :: source :: before => movesTo (source :: before).reverse target w
  | _ => []

theorem moveAll_cons (status : Int) (dest : Path) (shown : String) (sources : List String) :
    moveAll status dest (shown :: sources)
      = tryMove shown dest >>= fun moved => moveAll (if moved then status else 1) dest sources := by
  rw [moveAll, tryMove, Action.bind_assoc]
  refine congrArg (Bind.bind _) (funext fun ended => ?_)
  rcases ended with failure | _
  · show (Action.complain failure.message >>= fun _ => moveAll 1 dest sources)
      = (Action.complain failure.message >>= fun _ => pure false) >>= _
    rw [Action.bind_assoc]
    rfl
  · rfl

/-! ## What is noted of a run -/

section Noted

variable {M : Type} {note : World → Request → List M}

/-- A record that leaves out what the verb asks for between its moves. -/
structure Overlooks (note : World → Request → List M) : Prop where
  environment : ∀ w, note w .environment = []
  status : ∀ w p, note w (.files (.status p)) = []
  entryStatus : ∀ w p, note w (.files (.entryStatus p)) = []
  complain : ∀ w data, note w (.complain data) = []

namespace Overlooks

variable (h : Overlooks note)
include h

theorem locate (operand : String) : (Action.locate operand).Unnoted note :=
  Action.Unnoted.bind (.ask h.environment) fun _ => .pure _

theorem isDirectory (p : Path) : (Action.isDirectory p).Unnoted note := by
  apply Action.Unnoted.bind (.ask fun w => h.status w p)
  intro reply
  split <;> exact Action.Unnoted.pure _

theorem isEntry (p : Path) : (Action.isEntry p).Unnoted note := by
  apply Action.Unnoted.bind (.ask fun w => h.entryStatus w p)
  intro reply
  split <;> exact Action.Unnoted.pure _

theorem targetOf (source dest : Path) : (targetOf source dest).Unnoted note := by
  unfold Verbs.targetOf
  split
  · apply Action.Unnoted.bind (h.isDirectory dest)
    intro directory
    split <;> exact Action.Unnoted.pure _
  · exact Action.Unnoted.pure _

theorem moveOne (shown : String) (dest : Path) (w : World) :
    (moveOne shown dest).record note w
      = (moveOfOne shown dest w).flatMap fun m => m.action.record note m.before := by
  unfold Verbs.moveOne moveOfOne
  rw [(h.locate shown).record_bind (Action.run_locate shown w),
    (h.isEntry _).record_bind (Action.run_isEntry _ w)]
  simp only
  by_cases hthere : (w.files.entryStatus (w.env.locate shown)).isOk = true
  · rw [if_pos hthere, if_pos hthere, (h.targetOf _ dest).record_bind (run_targetOf _ dest w),
      Action.record_bind_unnoted fun _ => .pure 0]
    simp [Move.action]
  · rw [if_neg hthere, if_neg hthere]
    rfl

theorem moveInto (shown : String) (dest : Path) (w : World) :
    (moveInto shown dest).record note w
      = (moveOfSeveral shown dest w).flatMap fun m => m.action.record note m.before := by
  unfold Verbs.moveInto moveOfSeveral
  rw [(h.locate shown).record_bind (Action.run_locate shown w),
    (h.isEntry _).record_bind (Action.run_isEntry _ w)]
  simp only
  by_cases hthere : (w.files.entryStatus (w.env.locate shown)).isOk = true
  · rw [if_pos hthere, if_pos hthere]
    cases (w.env.locate shown).fileName? with
    | none => rfl
    | some name => simp [Move.action]
  · rw [if_neg hthere, if_neg hthere]
    rfl

theorem tryMove (shown : String) (dest : Path) (w : World) :
    (tryMove shown dest).record note w
      = (moveOfSeveral shown dest w).flatMap fun m => m.action.record note m.before := by
  unfold Verbs.tryMove
  rw [Action.record_bind_unnoted, Action.record_attempt, h.moveInto]
  intro ended
  cases ended with
  | ok _ => exact Action.Unnoted.pure true
  | error failure => exact Action.Unnoted.bind (.complain h.complain _) fun _ => .pure false

theorem moveAll (status : Int) (dest : Path) (sources : List String) (w : World) :
    (moveAll status dest sources).record note w
      = (movesOfAll dest sources w).flatMap fun m => m.action.record note m.before := by
  induction sources generalizing status w with
  | nil => rfl
  | cons shown sources ih =>
    rw [moveAll_cons, Action.record_bind, h.tryMove, movesOfAll, List.flatMap_append]
    rcases (Verbs.tryMove shown dest).run w with ⟨_ | _ | _, u⟩
    · exact congrArg _ (ih _ u)
    · rfl
    · rfl

theorem moveTo (sources : List String) (shown : String) (w : World) :
    (moveTo sources shown).record note w
      = (movesTo sources shown w).flatMap fun m => m.action.record note m.before := by
  have hseveral : (do
        if ← Action.isDirectory (w.env.locate shown) then
          Verbs.moveAll 0 (w.env.locate shown) sources
        else .fail (.targetNotDirectory shown) : Action Int).record note w
      = (if w.files.isDirectory (w.env.locate shown) then
          movesOfAll (w.env.locate shown) sources w else []).flatMap
            fun m => m.action.record note m.before := by
    rw [(h.isDirectory _).record_bind (Action.run_isDirectory _ w)]
    by_cases hthere : w.files.isDirectory (w.env.locate shown) = true
    · rw [if_pos hthere, if_pos hthere]
      exact h.moveAll 0 _ _ w
    · rw [if_neg hthere, if_neg hthere]
      rfl
  unfold Verbs.moveTo
  rw [(h.locate shown).record_bind (Action.run_locate shown w)]
  unfold movesTo
  rcases sources with _ | ⟨source, _ | ⟨next, sources⟩⟩
  · exact hseveral
  · exact h.moveOne _ _ w
  · exact hseveral

/-- What is noted of a run of `mv` is what is noted of its moves, one after the other. -/
theorem mv (args : Arguments) (w : World) :
    (mv.body args).record note w
      = (moves args w).flatMap fun m => m.action.record note m.before := by
  unfold Verbs.mv moves
  dsimp only
  rcases args.operands.reverse with _ | ⟨target, _ | ⟨source, before⟩⟩
  · rfl
  · rfl
  · exact h.moveTo _ _ w

end Overlooks

end Noted

variable {m : Move} {args : Arguments} {w : World}

/-- What `mv` prints is what its moves print, one after the other. -/
theorem printed_mv (args : Arguments) (w : World) :
    (mv.body args).printed w = (moves args w).flatMap Move.printed := by
  have hoverlooks : Overlooks fun w r => r.taken (w.answer r).1 :=
    ⟨fun _ => rfl, fun _ _ => rfl, fun _ _ => rfl, fun _ _ => rfl⟩
  rw [Action.printed_eq_record, hoverlooks.mv]
  congr 1
  funext m
  rw [Move.printed, Action.printed_eq_record]

/-! ## Where moves begin -/

theorem before_of_mem_moveOfOne {shown : String} {dest : Path} (hm : m ∈ moveOfOne shown dest w) :
    m.before = w := by
  unfold moveOfOne at hm
  simp only at hm
  split at hm
  · rw [List.mem_singleton.mp hm]
  · exact nomatch hm

theorem before_of_mem_moveOfSeveral {shown : String} {dest : Path}
    (hm : m ∈ moveOfSeveral shown dest w) : m.before = w := by
  unfold moveOfSeveral at hm
  simp only at hm
  split at hm
  · split at hm
    · rw [List.mem_singleton.mp hm]
    · exact nomatch hm
  · exact nomatch hm

variable {R : FileSystem → FileSystem → Prop} (hR : FileSystem.Preserved R)
include hR

theorem preserved_of_mem_movesOfAll {dest : Path} {sources : List String}
    (hm : m ∈ movesOfAll dest sources w) : R w.files m.before.files := by
  induction sources generalizing w with
  | nil => exact nomatch hm
  | cons shown sources ih =>
    rcases List.mem_append.mp hm with hm | hm
    · rw [before_of_mem_moveOfSeveral hm]
      exact hR.refl _
    · have hstep := hR.run (tryMove shown dest) w
      revert hm hstep
      rcases (tryMove shown dest).run w with ⟨_ | _ | _, u⟩
      · exact fun hm hstep => hR.trans hstep (ih hm)
      · exact fun hm => nomatch hm
      · exact fun hm => nomatch hm

/-- What no change of a file system breaks holds between the start of the verb and that of each of
its moves. -/
theorem preserved_of_mem_moves (hm : m ∈ moves args w) : R w.files m.before.files := by
  unfold moves movesTo at hm
  split at hm
  · simp only at hm
    split at hm
    · rw [before_of_mem_moveOfOne hm]
      exact hR.refl _
    · split at hm
      · exact preserved_of_mem_movesOfAll hR hm
      · exact nomatch hm
  · exact nomatch hm

omit hR

/-! ## What a reported move has done -/

/-- A move of a regular file that is reported has put it in the place of the target's entry, with
nothing else changed, exactly if both are on one volume or no link and no device stands
there.  Otherwise the entry of the target has stayed as it was.  This is what the move leaves, but
for its report where that goes to a file. -/
theorem reported_placed_iff (hsound : w.files.Sound) (hm : m ∈ moves args w)
    (hreported : m.Reported) {S : Location} {id : FileId}
    (hfile : m.before.files.resolveEntry m.source = .ok (S, .file id)) :
    ∃ T, m.before.files.Names m.target T
      ∧ (m.before.files.Placed m.after S T (m.before.files.data id).content
          ↔ m.before.files.TakesPlace S T)
      ∧ (¬ m.before.files.TakesPlace S T → m.after.node? T = m.before.files.node? T)
      ∧ (m.before.output.IsFileless → (m.action.run m.before).2.files = m.after) := by
  have hbefore : m.before.files.Sound := preserved_of_mem_moves FileSystem.Sound.preserved hm hsound
  obtain ⟨hnames, hresolve⟩ := FileSystem.names_of_resolveEntry hfile
  have hstands := (FileSystem.names_of_resolve hresolve).1
  obtain ⟨S', T, hS', hT, -, hmoved⟩ :=
    FileSystem.transfer_cases hbefore hresolve (Move.of_reported hreported).2
  obtain rfl := hS'.eq hnames
  refine ⟨T, hT, hmoved.placed_iff hbefore hstands, fun hplace => ?_, Move.files_run hreported⟩
  exact (hmoved.keeps_target (FileSystem.ne_nil_of_node? hstands nofun) hplace).1

/-- A session with a file `/r/a` on one volume, and on another a file and two links, one to that
file and one back to `/r/a`. -/
def twoVolumes : World where
  env := .startingIn (Path.ofString "/r") none
  files := .ofSeeds (.fresh (encode "r") [encode "o"])
    [.file (Path.ofString "/r/a") (encode "hi"), .file (Path.ofString "/o/x") (encode "old"),
      .link (Path.ofString "/o/l") (Path.ofString "x"),
      .link (Path.ofString "/o/k") (Path.ofString "/r/a")]
  console := .blank none
  errors := .blank none
  source := .ofBytes []
  output := .console
  input := .session
  respondent := .scripted ["y"]
  asked := []

theorem sound_twoVolumes : twoVolumes.files.Sound :=
  FileSystem.sound_ofSeeds (FileSystem.sound_fresh (by decide +kernel)) _

/-- The move of `/r/a` to a path. -/
def moveOfA (target : String) : Move :=
  ⟨"a", Path.ofString "/r/a", Path.ofString target, twoVolumes⟩

/-- A file is moved onto a link on another volume. The link is left, and the file is gone. -/
theorem reported_placed_iff_link :
    moveOfA "/o/l" ∈ moves ⟨[], ["a", "/o/l"]⟩ twoVolumes ∧ (moveOfA "/o/l").Reported
      ∧ twoVolumes.files.resolveEntry (moveOfA "/o/l").source
        = .ok ([encode "a", encode "r"], .file 0)
      ∧ twoVolumes.files.Names (moveOfA "/o/l").target [encode "l", encode "o"]
      ∧ ¬ twoVolumes.files.Placed (moveOfA "/o/l").after [encode "a", encode "r"]
        [encode "l", encode "o"] (encode "hi")
      ∧ (moveOfA "/o/l").after.node? [encode "l", encode "o"]
        = some (.link (Path.ofString "x"))
      ∧ ((moveOfA "/o/l").action.run twoVolumes).2.files = (moveOfA "/o/l").after := by
  have hm : moveOfA "/o/l" ∈ moves ⟨[], ["a", "/o/l"]⟩ twoVolumes := by decide +kernel
  have hreported : (moveOfA "/o/l").Reported := by decide +kernel
  have hfile : twoVolumes.files.resolveEntry (moveOfA "/o/l").source
      = .ok ([encode "a", encode "r"], .file 0) := rfl
  have hnames : twoVolumes.files.Names (moveOfA "/o/l").target [encode "l", encode "o"] :=
    ⟨[encode "o"], encode "l", rfl, rfl⟩
  obtain ⟨T, hT, hplaced, hkeeps, hafter⟩ :=
    reported_placed_iff sound_twoVolumes hm hreported hfile
  obtain rfl := hT.eq hnames
  have hlink : twoVolumes.files.node? [encode "l", encode "o"]
      = some (.link (Path.ofString "x")) := by decide +kernel
  have hplace :
      ¬ twoVolumes.files.TakesPlace [encode "a", encode "r"] [encode "l", encode "o"] := by
    rintro (hvolume | hnone | ⟨id, hother⟩)
    · exact absurd hvolume (by decide +kernel)
    · exact nomatch hnone.symm.trans hlink
    · exact nomatch hother.symm.trans hlink
  have hcontent : (twoVolumes.files.data 0).content = encode "hi" := by decide +kernel
  rw [← hcontent]
  exact ⟨hm, hreported, hfile, hnames, fun h => hplace (hplaced.mp h),
    (hkeeps hplace).trans hlink, hafter fun _ => nofun⟩

/-- After a move that is reported, some regular file holds the bytes that the source led to exactly
if the move is not one of those that take them away, or another file held the same.  This is what
the move leaves, but for its report where that goes to a file. -/
theorem reported_holds_iff (hsound : w.files.Sound) (hm : m ∈ moves args w)
    (hreported : m.Reported) {l : Location} {id : FileId}
    (hread : m.before.files.resolve m.source = .ok (l, .file id)) :
    ∃ S T, m.before.files.Names m.source S ∧ m.before.files.Names m.target T
      ∧ ((∃ k, m.after.HoldsAt k (m.before.files.data id).content) ↔
          ¬ m.before.files.Clobbers m.target S T l id
            ∨ ∃ k, k ≠ l ∧ m.before.files.HoldsAt k (m.before.files.data id).content)
      ∧ (m.before.output.IsFileless → (m.action.run m.before).2.files = m.after) := by
  have hbefore : m.before.files.Sound := preserved_of_mem_moves FileSystem.Sound.preserved hm hsound
  have hstands := (FileSystem.names_of_resolve hread).1
  obtain ⟨S, T, hS, hT, hentry, hmoved⟩ :=
    FileSystem.transfer_cases hbefore hread (Move.of_reported hreported).2
  exact ⟨S, T, hS, hT, FileSystem.Transferred.holds_iff hbefore hstands hentry hmoved,
    Move.files_run hreported⟩

/-- A file is moved onto a link on another volume that leads back to it. Its bytes are lost. -/
theorem reported_holds_iff_link_back :
    moveOfA "/o/k" ∈ moves ⟨[], ["a", "/o/k"]⟩ twoVolumes ∧ (moveOfA "/o/k").Reported
      ∧ twoVolumes.files.resolve (moveOfA "/o/k").source
        = .ok ([encode "a", encode "r"], .file 0)
      ∧ (twoVolumes.files.data 0).content = encode "hi"
      ∧ (¬ ∃ k, (moveOfA "/o/k").after.HoldsAt k (encode "hi"))
      ∧ ((moveOfA "/o/k").action.run twoVolumes).2.files = (moveOfA "/o/k").after := by
  have hm : moveOfA "/o/k" ∈ moves ⟨[], ["a", "/o/k"]⟩ twoVolumes := by decide +kernel
  have hreported : (moveOfA "/o/k").Reported := by decide +kernel
  have hread : twoVolumes.files.resolve (moveOfA "/o/k").source
      = .ok ([encode "a", encode "r"], .file 0) := rfl
  have hcontent : (twoVolumes.files.data 0).content = encode "hi" := by decide +kernel
  obtain ⟨S, T, hS, hT, hholds, hafter⟩ :=
    reported_holds_iff sound_twoVolumes hm hreported hread
  obtain rfl := hS.eq ⟨[encode "r"], encode "a", rfl, rfl⟩
  obtain rfl := hT.eq ⟨[encode "o"], encode "k", rfl, rfl⟩
  have hlost : twoVolumes.files.Clobbers (moveOfA "/o/k").target [encode "a", encode "r"]
      [encode "k", encode "o"] [encode "a", encode "r"] 0 :=
    @FileSystem.Clobbers.emptied _ _ _ _ _ _ twoVolumes.files (by decide +kernel) rfl (.inl rfl)
  -- the only other file holds something else
  have hother : ∀ k, k ≠ [encode "a", encode "r"] →
      ¬ twoVolumes.files.HoldsAt k (twoVolumes.files.data 0).content := by
    rintro k hk ⟨id, hfile, hbytes⟩
    have hlength : twoVolumes.files.files.length = 2 := by decide +kernel
    have hknown := sound_twoVolumes.numbered k id hfile
    rw [FileSystem.Knows, hlength] at hknown
    rcases Nat.le_one_iff_eq_zero_or_eq_one.mp (Nat.le_of_lt_succ hknown) with rfl | rfl
    · exact hk (sound_twoVolumes.unshared _ _ 0 hfile (by decide +kernel))
    · exact absurd hbytes (by decide +kernel)
  rw [← hcontent]
  refine ⟨hm, hreported, hread, rfl, fun hkept => ?_, hafter fun _ => nofun⟩
  rcases hholds.mp hkept with hsafe | ⟨k, hk, hk'⟩
  · exact hsafe hlost
  · exact hother k hk hk'

end Verbs

end LineShell
