/-
A file that calls pass by.

Two file systems may differ in the contents of one regular file and in nothing else.  Walking a path
never looks at contents, so every path leads to the same place in both.  A call that does not touch
the file where the contents differ therefore answers the same in both, and leaves two
file systems that differ in the same file only (`perform_withData`).

What touches a file is told by the call together with the file system in which it is made
(`FileCall.disturbs`): reading it, opening it, and removing, renaming or replacing its entry or a
directory above it.

The other way round, a sink on the file changes what the file holds and nothing else
(`FileSink.write_eq_withData`).
-/
import LineShell.Proofs.Files.Sound
import LineShell.Proofs.Stream.Sink

set_option autoImplicit false

namespace LineShell

namespace FileSystem

variable {fs after : FileSystem} {id : FileId} {d : FileData} {p source target : Path}
  {purpose : Purpose}

/-- The same file system with other contents under a number. -/
def withData (fs : FileSystem) (id : FileId) (d : FileData) : FileSystem :=
  { fs with files := fs.files.set id d }

/-! ## Other contents -/

@[simp] theorem node?_withData (l : Location) : (fs.withData id d).node? l = fs.node? l := rfl

@[simp] theorem isGone_withData (l : Location) : (fs.withData id d).isGone l = fs.isGone l := rfl

theorem withData_data (fs : FileSystem) (id : FileId) : fs.withData id (fs.data id) = fs := by
  have hset : fs.files.set id (fs.data id) = fs.files := by
    by_cases hknown : id < fs.files.length
    · rw [data, List.getD_eq_getElem?_getD, List.getElem?_eq_getElem hknown, Option.getD_some,
        List.set_getElem_self]
    · exact List.set_eq_of_length_le (Nat.le_of_not_lt hknown)
  rw [withData, hset]

theorem withData_withData (fs : FileSystem) (id : FileId) (first second : FileData) :
    (fs.withData id first).withData id second = fs.withData id second := by
  rw [withData, withData, withData, List.set_set]

theorem knows_withData {other : FileId} : (fs.withData id d).Knows other ↔ fs.Knows other := by
  simp only [Knows, withData, List.length_set]

theorem data_withData_self (h : fs.Knows id) (d : FileData) : (fs.withData id d).data id = d := by
  unfold Knows at h
  rw [data, withData, List.getD_eq_getElem?_getD, List.getElem?_set_self h]
  rfl

theorem data_withData_of_ne {other : FileId} (h : other ≠ id) :
    (fs.withData id d).data other = fs.data other := by
  rw [data, data, withData, List.getD_eq_getElem?_getD, List.getD_eq_getElem?_getD,
    List.getElem?_set_ne (Ne.symm h)]

theorem setContent_withData {other : FileId} (h : other ≠ id) (content : Bytes) :
    (fs.withData id d).setContent other content = (fs.setContent other content).withData id d := by
  rw [setContent, setContent, withData, withData, List.set_comm _ _ (Ne.symm h)]

theorem addFile_withData (h : fs.Knows id) (l : Location) :
    (fs.withData id d).addFile l = ((fs.addFile l).1, (fs.addFile l).2.withData id d) := by
  unfold Knows at h
  simp only [addFile, withData, insert, List.length_set, List.set_append_left _ _ h]

/-! ## Walking -/

theorem walkSteps_withData {onLink : Location → Path → List Step → Bool → Except Errno Spot}
    {slash : Bool} (dir : Location) (steps : List Step) :
    (fs.withData id d).walkSteps purpose onLink slash dir steps
      = fs.walkSteps purpose onLink slash dir steps := by
  induction steps generalizing dir with
  | nil => rfl
  | cons step rest ih =>
    rcases rest with _ | ⟨next, rest⟩
    · rcases step with _ | _ | n <;> rfl
    · rcases step with _ | _ | n
      · exact ih dir
      · exact ih dir.tail
      · simp only [walkSteps, node?_withData, ih]

theorem walk_withData (budget : Nat) (dir : Location) (steps : List Step) (slash : Bool) :
    (fs.withData id d).walk purpose budget dir steps slash
      = fs.walk purpose budget dir steps slash := by
  induction budget generalizing dir steps slash with
  | zero => rw [walk, walk, walkSteps_withData]
  | succ budget ih => simp only [walk, ih, walkSteps_withData]

/-- A path leads to the same place whatever the files hold. -/
theorem locate_withData : (fs.withData id d).locate purpose p = fs.locate purpose p := by
  unfold locate
  rw [walk_withData]
  rfl

theorem resolve_withData : (fs.withData id d).resolve p = fs.resolve p := by
  rw [resolve, resolve, locate_withData]
  rfl

theorem resolveEntry_withData : (fs.withData id d).resolveEntry p = fs.resolveEntry p := by
  rw [resolveEntry, resolveEntry, locate_withData]
  rfl

/-! ## What a call touches -/

/-- Whether reading a path reads a regular file. -/
def reads (fs : FileSystem) (p : Path) (id : FileId) : Bool :=
  match fs.resolve p with
  | .ok (_, .file other) => other == id
  | _ => false

/-- Whether opening a path for writing opens a regular file. -/
def opens (fs : FileSystem) (p : Path) (id : FileId) : Bool :=
  match fs.openForWriting p with
  | .ok (.file other, _) => other == id
  | _ => false

/-- The location of the entry that a path names, whether there is one or not. -/
def entryAt? (fs : FileSystem) (purpose : Purpose) (p : Path) : Option Location :=
  match fs.locate purpose p with
  | .ok ⟨dir, .name n, _⟩ => some (n :: dir)
  | _ => none

end FileSystem

/-- Whether a call touches a regular file that stands at a location: whether it reads or opens it,
or removes, renames or replaces its entry or renames a directory above it. -/
def FileCall.disturbs (call : FileCall) (fs : FileSystem) (l : Location) (id : FileId) : Bool :=
  match call with
  | .read p => fs.reads p id
  | .touch p => fs.opens p id
  | .copy source target => fs.reads source id || fs.opens target id
  | .removeFile p => fs.entryAt? .parent p == some l
  | .rename source target =>
    (fs.entryAt? .parent source).any (· <:+ l) || fs.entryAt? .parent target == some l
  | _ => false

namespace FileSystem

variable {fs after : FileSystem} {id : FileId} {d : FileData} {p source target : Path}
  {l : Location}

/-! ## Opening -/

theorem openForWriting_withData (hknown : fs.Knows id) :
    (fs.withData id d).openForWriting p
      = (fs.openForWriting p).map fun opened => (opened.1, opened.2.withData id d) := by
  unfold openForWriting
  rw [locate_withData]
  rcases fs.locate .create p with e | ⟨dir, last, slash⟩
  · rfl
  · rcases last with _ | _ | _ | n
    · rfl
    · rfl
    · rfl
    · show (if slash = true then _ else _) = Except.map _ (if slash = true then _ else _)
      rcases slash with _ | _
      · simp only [Bool.false_eq_true, if_false, isGone_withData, node?_withData,
          addFile_withData hknown]
        split
        · rfl
        · split
          · rfl
          · rcases fs.node? (n :: dir) with _ | _ | other | t | device <;> rfl
      · rfl

theorem openTarget_withData (hknown : fs.Knows id) {mode : Redirection}
    (hopens : fs.opens p id = false) :
    (fs.withData id d).openTarget p mode
      = (fs.openTarget p mode).map fun opened => (opened.1, opened.2.withData id d) := by
  unfold opens at hopens
  unfold openTarget
  rw [openForWriting_withData hknown]
  generalize fs.openForWriting p = reached at hopens ⊢
  rcases reached with e | ⟨other | device, after⟩
  · rfl
  · have hother : other ≠ id := by simpa using hopens
    rcases mode with _ | _
    · show Except.ok (_, (after.withData id d).setContent other []) = Except.ok (_, _)
      rw [setContent_withData hother]
    · rfl
  · rcases mode with _ | _ <;> rfl

/-- What is opened is not the file that the opening passes by. -/
theorem file?_of_opens {mode : Redirection} {handle : Handle}
    (hopen : fs.openTarget p mode = .ok (handle, after)) (hopens : fs.opens p id = false) :
    handle.file? ≠ some id := by
  unfold opens at hopens
  rcases openTarget_cases hopen with ⟨other, opened, hother, hmode⟩ | ⟨device, hdevice, rfl⟩
  · rw [hother] at hopens
    have hne : other ≠ id := by simpa using hopens
    rcases hmode with ⟨-, rfl, -⟩ | ⟨-, rfl, -⟩
    · exact fun h => hne (Option.some.inj h)
    · exact fun h => hne (Option.some.inj h)
  · exact nofun

end FileSystem

theorem Handle.write_withData {fs : FileSystem} {id : FileId} {d : FileData} {h : Handle}
    (hne : h.file? ≠ some id) (bytes : Bytes) :
    h.write bytes (fs.withData id d)
      = ((h.write bytes fs).1, (h.write bytes fs).2.1, (h.write bytes fs).2.2.withData id d) := by
  unfold write
  by_cases hbytes : bytes = []
  · rw [if_pos hbytes, if_pos hbytes]
  · rw [if_neg hbytes, if_neg hbytes]
    rcases h with other | ⟨other, offset⟩ | device
    · have hother : other ≠ id := fun h => hne (congrArg some h)
      simp only [FileSystem.setContent_withData hother, FileSystem.data_withData_of_ne hother]
    · have hother : other ≠ id := fun h => hne (congrArg some h)
      simp only [FileSystem.setContent_withData hother, FileSystem.data_withData_of_ne hother]
    · rcases device with _ | _ | _ <;> rfl

namespace FileSystem

variable {fs after : FileSystem} {id : FileId} {d : FileData} {p source target : Path}
  {l : Location} {purpose : Purpose}

/-! ## Calls -/

theorem commit_withData {result other : Except IoError FileSystem}
    (h : other = result.map fun after => after.withData id d) :
    (fs.withData id d).commit other
      = ((fs.commit result).1, (fs.commit result).2.withData id d) := by
  rw [h]
  rcases result with e | after <;> rfl

/-- A call that looks at the entry of its path and then adds or drops one. -/
theorem atSpot_withData {f g : Spot → Except IoError FileSystem}
    (h : ∀ spot, g spot = (f spot).map fun after => after.withData id d) :
    ((fs.withData id d).locate .parent p >>= g)
      = (fs.locate .parent p >>= f).map fun after => after.withData id d := by
  rw [locate_withData]
  rcases fs.locate .parent p with e | spot
  · rfl
  · exact h spot

theorem addEntry_withData {node : Node} :
    (fs.withData id d).addEntry p node
      = (fs.addEntry p node).map fun after => after.withData id d := by
  refine atSpot_withData fun ⟨dir, last, slash⟩ => ?_
  rcases last with _ | _ | _ | n
  · rfl
  · rfl
  · rfl
  · simp only [node?_withData]
    by_cases hgone : fs.isGone dir = true
    · rw [if_pos hgone, if_pos (show (fs.withData id d).isGone dir = true from hgone)]
      rfl
    · rw [if_neg hgone, if_neg (show ¬ (fs.withData id d).isGone dir = true from hgone)]
      by_cases hlong : maxName < n.length
      · rw [if_pos hlong, if_pos hlong]
        rfl
      · rw [if_neg hlong, if_neg hlong]
        rcases fs.node? (n :: dir) with _ | _ <;> rfl

theorem removeDirectory_withData :
    (fs.withData id d).removeDirectory p
      = (fs.removeDirectory p).map fun after => after.withData id d := by
  refine atSpot_withData fun ⟨dir, last, slash⟩ => ?_
  rcases last with _ | _ | _ | n
  · rfl
  · rfl
  · rfl
  · simp only [node?_withData]
    by_cases hlong : maxName < n.length
    · simp only [if_pos hlong]
      rfl
    · simp only [if_neg hlong]
      rcases fs.node? (n :: dir) with _ | _ | _ | _ | _
      · rfl
      · have hnames : (fs.withData id d).names (n :: dir) = fs.names (n :: dir) := rfl
        simp only [hnames]
        by_cases hempty : (fs.names (n :: dir)).isEmpty = true
        · simp only [if_pos hempty]
          rfl
        · simp only [if_neg hempty]
          rfl
      · rfl
      · rfl
      · rfl

theorem removeFile_withData :
    (fs.withData id d).removeFile p
      = (fs.removeFile p).map fun after => after.withData id d := by
  refine atSpot_withData fun ⟨dir, last, slash⟩ => ?_
  rcases last with _ | _ | _ | n
  · rfl
  · rfl
  · rfl
  · simp only [node?_withData]
    by_cases hlong : maxName < n.length
    · simp only [if_pos hlong]
      rfl
    · simp only [if_neg hlong]
      rcases fs.node? (n :: dir) with _ | _ | _ | _ | _
      · rfl
      · rfl
      all_goals rcases slash with _ | _ <;> rfl

theorem renameSpots_withData (a b : Spot) :
    (fs.withData id d).renameSpots a b
      = (fs.renameSpots a b).map fun after => after.withData id d := by
  unfold renameSpots
  by_cases hvolume : fs.spotVolume a ≠ fs.spotVolume b
  · rw [if_pos hvolume,
      if_pos (show (fs.withData id d).spotVolume a ≠ (fs.withData id d).spotVolume b from hvolume)]
    rfl
  rw [if_neg hvolume,
    if_neg (show ¬ (fs.withData id d).spotVolume a ≠ (fs.withData id d).spotVolume b from hvolume)]
  rcases a with ⟨dirA, lastA, slashA⟩
  rcases b with ⟨dirB, lastB, slashB⟩
  rcases lastA with _ | _ | _ | n
  · rfl
  · rfl
  · rfl
  rcases lastB with _ | _ | _ | m
  · rfl
  · rfl
  · rfl
  simp only [node?_withData]
  by_cases hlong : maxName < n.length
  · rw [if_pos hlong, if_pos hlong]
    rfl
  rw [if_neg hlong, if_neg hlong]
  rcases fs.node? (n :: dirA) with _ | node
  · rfl
  simp only
  by_cases hgone : fs.isGone dirB = true
  · rw [if_pos hgone, if_pos (show (fs.withData id d).isGone dirB = true from hgone)]
    rfl
  rw [if_neg hgone, if_neg (show ¬ (fs.withData id d).isGone dirB = true from hgone)]
  have hreplace : (fs.withData id d).mayReplace node (m :: dirB) = fs.mayReplace node (m :: dirB) :=
    rfl
  rw [hreplace]
  -- the tests that are left do not look at the file system
  split
  · rfl
  split
  · rfl
  split
  · rfl
  split
  · rfl
  split
  · rfl
  rcases fs.mayReplace node (m :: dirB) with _ | _ <;> rfl

theorem rename_withData :
    (fs.withData id d).rename source target
      = (fs.rename source target).map fun after => after.withData id d := by
  unfold rename
  rw [locate_withData, locate_withData]
  rcases fs.locate .parent source with e | a
  · rfl
  rcases fs.locate .parent target with e | b
  · rfl
  -- both ends lead to the same spots, so what is left is the change at them
  have hspots := @renameSpots_withData fs id d a b
  simp only [bind, Except.bind, hspots]
  rcases fs.renameSpots a b with _ | _ <;> rfl

theorem touch_withData (hknown : fs.Knows id) (hopens : fs.opens p id = false) :
    (fs.withData id d).touch p = (fs.touch p).map fun after => after.withData id d := by
  unfold opens at hopens
  unfold touch
  rw [openForWriting_withData hknown]
  generalize fs.openForWriting p = reached at hopens ⊢
  rcases reached with e | ⟨other | device, after⟩
  · rfl
  · have hother : other ≠ id := by simpa using hopens
    show Except.ok ((after.withData id d).setContent other
      ((after.withData id d).data other).content) = Except.ok _
    rw [data_withData_of_ne hother, setContent_withData hother]
  · rfl

theorem copy_withData (hknown : fs.Knows id) (hreads : fs.reads source id = false)
    (hopens : fs.opens target id = false) :
    (fs.withData id d).copy source target
      = ((fs.copy source target).1, (fs.copy source target).2.withData id d) := by
  unfold reads at hreads
  unfold copy
  rw [resolve_withData, openTarget_withData hknown hopens]
  generalize fs.resolve source = reached at hreads ⊢
  rcases reached with e | ⟨k, _ | other | t | device⟩
  · rfl
  · rfl
  · have hother : other ≠ id := by simpa using hreads
    rcases hopen : fs.openTarget target .overwrite with e | ⟨handle, after⟩
    · rfl
    · simp only [Except.map, data_withData_of_ne hother,
        Handle.write_withData (file?_of_opens hopen hopens)]
  · rfl
  · rfl

/-- A call that passes by a file answers as if the file held something else, and what it does is the
same. -/
theorem perform_withData {call : FileCall} (hknown : fs.Knows id)
    (hcall : call.disturbs fs l id = false) (d : FileData) :
    (fs.withData id d).perform call
      = ((fs.perform call).1, (fs.perform call).2.withData id d) := by
  cases call with
  | status p =>
    show ((fs.withData id d).status p, fs.withData id d) = _
    rw [status, resolve_withData]
    rfl
  | entryStatus p =>
    show ((fs.withData id d).entryStatus p, fs.withData id d) = _
    rw [entryStatus, resolveEntry_withData]
    rfl
  | list p =>
    show ((fs.withData id d).list p, fs.withData id d) = _
    rw [list, resolve_withData]
    rfl
  | read p =>
    show ((fs.withData id d).read p, fs.withData id d) = ((fs.read p), fs.withData id d)
    have hreads : fs.reads p id = false := hcall
    unfold reads at hreads
    rw [read, read, resolve_withData]
    generalize fs.resolve p = reached at hreads ⊢
    rcases reached with e | ⟨k, _ | other | t | device⟩
    · rfl
    · rfl
    · have hother : other ≠ id := by simpa using hreads
      show (Except.ok ((fs.withData id d).data other).content, _) = _
      rw [data_withData_of_ne hother]
      rfl
    · rfl
    · rfl
  | makeDirectory p => exact commit_withData addEntry_withData
  | removeDirectory p => exact commit_withData removeDirectory_withData
  | removeFile p => exact commit_withData removeFile_withData
  | touch p => exact commit_withData (touch_withData hknown hcall)
  | rename source target => exact commit_withData rename_withData
  | copy source target =>
    obtain ⟨hreads, hopens⟩ := Bool.or_eq_false_iff.mp hcall
    exact copy_withData hknown hreads hopens

/-! ## The entry of the file -/

theorem entryAt?_of_locate {dir : Location} {n : Name} {slash : Bool}
    (h : fs.locate purpose p = .ok ⟨dir, .name n, slash⟩) :
    fs.entryAt? purpose p = some (n :: dir) := by
  rw [entryAt?, h]

/-- A regular file that is opened stands where its path leads. -/
theorem exists_entry_of_openTarget {mode : Redirection} {handle : Handle}
    (h : fs.openTarget p mode = .ok (handle, after)) (hid : handle.file? = some id) :
    ∃ l, fs.entryAt? .create p = some l ∧ after.node? l = some (.file id) := by
  rcases openTarget_cases h with ⟨other, opened, hopen, hmode⟩ | ⟨device, -, rfl⟩
  · have hother : other = id ∧ ∀ l, after.node? l = opened.node? l := by
      rcases hmode with ⟨-, rfl, rfl⟩ | ⟨-, rfl, rfl⟩
      · exact ⟨Option.some.inj hid, fun _ => rfl⟩
      · exact ⟨Option.some.inj hid, fun _ => rfl⟩
    obtain ⟨rfl, hnode⟩ := hother
    obtain ⟨dir, n, hspot, -, -, hopens⟩ := openForWriting_cases hopen
    refine ⟨n :: dir, entryAt?_of_locate hspot, (hnode _).trans ?_⟩
    rcases hopens with ⟨-, hfile, rfl⟩ | ⟨_, hstands, hfile, rfl⟩ | ⟨_, -, hfile, -⟩
    · injection hfile with hfile
      rw [node?_addFile (List.cons_ne_nil n dir), if_pos rfl, hfile]
    · injection hfile with hfile
      rw [hstands, hfile]
    · exact nomatch hfile
  · exact nomatch hid

/-- Opening leaves what stands somewhere where it is. -/
theorem node?_openForWriting {opened : Opened} (h : fs.openForWriting p = .ok (opened, after))
    (hl : fs.node? l ≠ none) : after.node? l = fs.node? l := by
  obtain ⟨dir, n, -, -, -, ⟨hnone, -, rfl⟩ | ⟨_, -, -, rfl⟩ | ⟨_, -, -, rfl⟩⟩ :=
    openForWriting_cases h
  · rw [node?_addFile (List.cons_ne_nil n dir),
      if_neg fun heq : l = n :: dir => hl (by rw [heq, hnone])]
  · rfl
  · rfl

theorem node?_openTarget {mode : Redirection} {handle : Handle}
    (h : fs.openTarget p mode = .ok (handle, after)) (hl : fs.node? l ≠ none) :
    after.node? l = fs.node? l := by
  rcases openTarget_cases h with ⟨other, opened, hopen, ⟨-, -, rfl⟩ | ⟨-, -, rfl⟩⟩ | ⟨_, hopen, -⟩
  · show opened.node? l = fs.node? l
    exact node?_openForWriting hopen hl
  · exact node?_openForWriting hopen hl
  · exact node?_openForWriting hopen hl

theorem node?_write (h : Handle) (bytes : Bytes) (fs : FileSystem) (l : Location) :
    (h.write bytes fs).2.2.node? l = fs.node? l := by
  unfold Handle.write
  split
  · rfl
  · rcases h with _ | _ | (_ | _ | _) <;> rfl

theorem node?_copy (hl : fs.node? l ≠ none) : (fs.copy source target).2.node? l = fs.node? l := by
  unfold copy
  split
  · split
    · rfl
    · rename_i hopen
      exact (node?_write _ _ _ l).trans (node?_openTarget hopen hl)
  · rfl
  · rfl

theorem node?_commit {result : Except IoError FileSystem}
    (h : ∀ after, result = .ok after → after.node? l = fs.node? l) :
    (fs.commit result).2.node? l = fs.node? l := by
  rcases result with e | after
  · rfl
  · exact h after rfl

/-- A call that passes by a file leaves it where it stands. -/
theorem node?_perform {call : FileCall} (hsound : fs.Sound) (hl : fs.node? l = some (.file id))
    (hcall : call.disturbs fs l id = false) : (fs.perform call).2.node? l = fs.node? l := by
  have hstands : fs.node? l ≠ none := by
    rw [hl]
    exact Option.some_ne_none _
  cases call with
  | status p => rfl
  | entryStatus p => rfl
  | list p => rfl
  | read p => rfl
  | makeDirectory p =>
    refine node?_commit fun after h => ?_
    obtain ⟨dir, n, slash, -, -, -, hnone, rfl⟩ := addEntry_cases h
    rw [node?_insert (List.cons_ne_nil n dir),
      if_neg fun heq : l = n :: dir => hstands (by rw [heq, hnone])]
  | removeDirectory p =>
    refine node?_commit fun after h => ?_
    obtain ⟨dir, n, slash, -, hdir, -, rfl⟩ := removeDirectory_cases h
    rw [node?_erase (List.cons_ne_nil n dir), if_neg]
    rintro rfl
    rw [hl] at hdir
    exact nomatch hdir
  | removeFile p =>
    refine node?_commit fun after h => ?_
    obtain ⟨dir, n, node, hspot, -, -, rfl⟩ := removeFile_cases h
    rw [node?_erase (List.cons_ne_nil n dir), if_neg]
    rintro rfl
    have hentry := entryAt?_of_locate hspot
    simp [FileCall.disturbs, hentry] at hcall
  | touch p =>
    refine node?_commit fun after h => ?_
    rcases touch_cases h with ⟨other, opened, hopen, rfl⟩ | ⟨_, hopen⟩
    · show opened.node? l = fs.node? l
      exact node?_openForWriting hopen hstands
    · exact node?_openForWriting hopen hstands
  | rename source target =>
    refine node?_commit fun after h => ?_
    obtain ⟨dirS, n, slashS, dirT, m, slashT, node, hsource, htarget, hmay, -, hafter⟩ :=
      rename_cases h
    rcases hafter with ⟨-, rfl⟩ | ⟨hne, rfl⟩
    · rfl
    · have hentryS := entryAt?_of_locate hsource
      have hentryT := entryAt?_of_locate htarget
      simp only [FileCall.disturbs, hentryS, hentryT, Option.any_some, Bool.or_eq_false_iff,
        decide_eq_false_iff_not] at hcall
      obtain ⟨hbelow, hother⟩ := hcall
      have hother : m :: dirT ≠ l := fun heq => by simp [heq] at hother
      -- what a directory is replaced by has nothing below it
      have habove : ¬ (m :: dirT) <:+ l := fun ht =>
        hstands (hsound.isFree (hmay.replace hne) l ht (Ne.symm hother))
      rw [hsound.node?_move hmay hne, if_neg habove, if_neg hbelow]
  | copy source target => exact node?_copy hstands

end FileSystem

/-! ## The file itself -/

section Written

variable {fs : FileSystem} {id : FileId}

theorem Handle.file?_opening (h : Handle) : h.opening.file? = h.file? := by
  rcases h with _ | _ | (_ | _ | _) <;> rfl

/-- Writing to a regular file changes what it holds and nothing else. -/
theorem Handle.write_eq_withData {h : Handle} (hid : h.file? = some id) (bytes : Bytes) :
    ∃ d, (h.write bytes fs).2.2 = fs.withData id d := by
  unfold write
  by_cases hbytes : bytes = []
  · rw [if_pos hbytes]
    exact ⟨fs.data id, (fs.withData_data id).symm⟩
  · rw [if_neg hbytes]
    rcases h with other | ⟨other, offset⟩ | device
    · obtain rfl := Option.some.inj hid
      exact ⟨_, rfl⟩
    · obtain rfl := Option.some.inj hid
      exact ⟨_, rfl⟩
    · exact nomatch hid

namespace FileSink

variable {s : FileSink}

theorem flush_eq_withData (hid : s.handle.file? = some id) :
    ∃ d, (s.flush fs).2.2 = fs.withData id d := by
  obtain ⟨d, hwrite⟩ := @Handle.write_eq_withData fs id s.handle hid s.held
  refine ⟨d, ?_⟩
  rw [← hwrite, flush]
  split <;> rename_i h <;> rw [h]

theorem makeRoom_eq_withData (hid : s.handle.file? = some id) (n : Nat) :
    (s.makeRoom n fs).2.1.handle.file? = some id
      ∧ ∃ d, (s.makeRoom n fs).2.2 = fs.withData id d := by
  unfold makeRoom
  split
  · refine ⟨?_, flush_eq_withData hid⟩
    rw [← Handle.file?_opening, opening_flush, Handle.file?_opening, hid]
  · exact ⟨hid, fs.data id, (fs.withData_data id).symm⟩

/-- Whichever way a write takes, it changes nothing but what the file of the sink holds. -/
theorem write_eq_withData (hid : s.handle.file? = some id) (data : Bytes) :
    ∃ d, (s.write data fs).2.2 = fs.withData id d := by
  unfold write
  by_cases hsmall : data.length < s.spare
  · rw [if_pos hsmall]
    exact ⟨fs.data id, (fs.withData_data id).symm⟩
  · obtain ⟨hroomy, d, hroom⟩ := @makeRoom_eq_withData fs id s hid data.length
    rw [if_neg hsmall, writeThrough]
    rcases hmade : s.makeRoom data.length fs with ⟨_ | _, roomy, after⟩
    · rw [hmade] at hroom
      exact ⟨d, hroom⟩
    · rw [hmade] at hroomy hroom
      simp only at hroomy hroom ⊢
      subst hroom
      by_cases hlarge : sinkCapacity ≤ data.length
      · rw [if_pos hlarge]
        obtain ⟨e, hwrite⟩ := @Handle.write_eq_withData (fs.withData id d) id _ hroomy data
        exact ⟨e, hwrite.trans (fs.withData_withData id d e)⟩
      · rw [if_neg hlarge]
        exact ⟨d, rfl⟩

end FileSink

end Written

end LineShell
