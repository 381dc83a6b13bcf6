/-
Changes that are undone.

An entry that is added under a free name is the only one there, so dropping it again leaves the list
of entries as it was.  What has to be seen is that the removing call finds the same entry as the
creating one.  Both walk to the entry and not through a link in its place, and an added entry stops
no walk.  A file is created by a walk that would follow a link, though; but at such a link an entry
would have stood before.

A file that is created leaves a row in the table of contents when its entry is gone.  No entry names
that row, so the tree does not show it (`FileSystem.SameTree`).
-/
import LineShell.Proofs.Files.Changes

set_option autoImplicit false

namespace LineShell

namespace FileSystem

variable {fs after : FileSystem} {p : Path} {l dir : Location} {n : Name} {node : Node}

/-! ## The same tree -/

/-- Two file systems with the same entries, of which every file holds the same. -/
structure SameTree (fs after : FileSystem) : Prop where
  entries_eq : after.entries = fs.entries
  volumes_eq : after.volumes = fs.volumes
  base_eq : after.base = fs.base
  data_eq : ∀ id, fs.Knows id → after.data id = fs.data id

theorem SameTree.node?_eq (h : fs.SameTree after) (l : Location) : after.node? l = fs.node? l := by
  rw [node?, node?, h.entries_eq]

/-- No difference is seen anywhere. -/
theorem SameTree.seenAt_eq (h : fs.SameTree after) (hnum : fs.Numbered) (l : Location) :
    after.seenAt l = fs.seenAt l := by
  rw [seenAt, seenAt, h.node?_eq]
  rcases hnode : fs.node? l with _ | _ | id | _ | _
  · rfl
  · rfl
  · show some (TreeEntry.file (after.data id).content _) = some (TreeEntry.file _ _)
    rw [h.data_eq id (hnum l id hnode)]
  · rfl
  · rfl

/-! ## An entry that was added -/

/-- Dropping what was added under a free name gives back the list of entries. -/
theorem entries_erase_insert (hl : l ≠ []) (hfree : fs.node? l = none) (node : Node) :
    ((fs.insert l node).erase l).entries = fs.entries := by
  have hothers : ∀ e ∈ fs.entries, decide (e.1 ≠ l) = true := by
    intro e he
    apply decide_eq_true
    rintro rfl
    rw [node?_eq_lookup hl] at hfree
    exact lookup_ne_none_of_mem he hfree
  show ((l, node) :: fs.entries).filter (fun e => decide (e.1 ≠ l)) = fs.entries
  rw [List.filter_cons_of_neg (by simp), List.filter_eq_self.mpr hothers]

/-! ## The calls that remove -/

/-- An empty directory is removed where the walk to the entry ends. -/
theorem removeDirectory_eq_ok {slash : Bool}
    (hspot : fs.locate .parent p = .ok ⟨dir, .name n, slash⟩) (hshort : n.length ≤ maxName)
    (hnode : fs.node? (n :: dir) = some .directory) (hempty : fs.names (n :: dir) = []) :
    fs.removeDirectory p = .ok (fs.erase (n :: dir)) := by
  rw [removeDirectory, hspot]
  show (if maxName < n.length then _ else _) = _
  rw [if_neg (Nat.not_lt.mpr hshort), hnode, hempty]
  rfl

/-- Anything else is removed there, if no slash asks for a directory. -/
theorem removeFile_eq_ok (hspot : fs.locate .parent p = .ok ⟨dir, .name n, false⟩)
    (hshort : n.length ≤ maxName) (hnode : fs.node? (n :: dir) = some node)
    (hleaf : node ≠ .directory) : fs.removeFile p = .ok (fs.erase (n :: dir)) := by
  rw [removeFile, hspot]
  show (if maxName < n.length then _ else _) = _
  rw [if_neg (Nat.not_lt.mpr hshort), hnode]
  cases node with
  | directory => exact absurd rfl hleaf
  | file id => rfl
  | link target => rfl
  | device d => rfl

/-! ## Directories -/

/-- **A directory that was made can be removed**: it is where its path leads, it is empty, and
without it everything is as before. -/
theorem removeDirectory_of_makeDirectory (hsound : fs.Sound) (h : fs.makeDirectory p = .ok after) :
    (∃ l, after.resolve p = .ok (l, .directory) ∧ after.names l = [])
      ∧ after.removeDirectory p = .ok fs := by
  obtain ⟨dir, n, slash, hspot, -, hshort, hfree, rfl⟩ := addEntry_cases h
  have hadds := addsDirectory_insert hsound hspot hshort hfree
  have hlater := locate_of_extends (hadds.alters.extends hfree) hspot
  have hthere : (fs.insert (n :: dir) .directory).node? (n :: dir) = some .directory := by
    rw [hadds.alters.node_eq, if_pos rfl]
  refine ⟨⟨n :: dir, hadds.leads, hadds.empty⟩, ?_⟩
  rw [removeDirectory_eq_ok hlater hshort hthere hadds.empty]
  have hentries := entries_erase_insert (List.cons_ne_nil n dir) hfree .directory
  show Except.ok { fs with
    entries := ((fs.insert (n :: dir) .directory).erase (n :: dir)).entries } = _
  rw [hentries]

/-! ## Files -/

/-- Where there is no entry, a file is created where the walk to the entry ends. -/
theorem locate_parent_of_create (hsound : fs.Sound) (hnone : (fs.entryStatus p).isOk = false)
    (h : fs.locate .create p = .ok ⟨dir, .name n, false⟩) (hshort : n.length ≤ maxName) :
    fs.locate .parent p = .ok ⟨dir, .name n, false⟩ ∧ fs.node? (n :: dir) = none := by
  obtain ⟨entry, hentry, hslash, hsame⟩ := locate_parent_of_locate h
  have hplain : entry.slash = false := Bool.eq_false_iff.mpr fun htrue => nomatch hslash htrue
  have hnothing : ∀ found, fs.resolveEntry p ≠ .ok found := by
    rintro ⟨l, node⟩ hfound
    rw [entryStatus_eq_ok_iff.mpr ⟨l, node, hfound, rfl⟩] at hnone
    exact nomatch hnone
  rw [resolveEntry_of_plain hentry ((slash_of_locate_parent hentry).symm.trans hplain)] at hnothing
  -- at a link an entry would stand
  have hends : fs.EndsAt .create entry := by
    obtain ⟨dir', last, slash⟩ := entry
    intro m target hlast hlink
    subst hlast hplain
    have hlinkShort := hsound.short m dir' (by rw [hlink]; exact Option.some_ne_none _)
    exact (hnothing (m :: dir', .link target)
      (nodeAt_name_iff.mpr ⟨rfl, hlinkShort, hlink, nofun⟩)).elim
  have hspot := hsame hends
  subst hspot
  refine ⟨hentry, ?_⟩
  rcases hnode : fs.node? (n :: dir) with _ | node
  · rfl
  · exact (hnothing (n :: dir, node) (nodeAt_name_iff.mpr ⟨rfl, hshort, hnode, nofun⟩)).elim

/-- Opening a path at which there is no entry adds an empty file there. -/
theorem openForWriting_adds {opened : Opened} (hsound : fs.Sound)
    (hnone : (fs.entryStatus p).isOk = false) (h : fs.openForWriting p = .ok (opened, after)) :
    ∃ dir n, fs.locate .parent p = .ok ⟨dir, .name n, false⟩ ∧ n.length ≤ maxName
      ∧ fs.node? (n :: dir) = none
      ∧ opened = .file fs.files.length ∧ after = (fs.addFile (n :: dir)).2 := by
  obtain ⟨dir, n, hspot, -, hshort, hopens⟩ := openForWriting_cases h
  obtain ⟨hparent, hfree⟩ := locate_parent_of_create hsound hnone hspot hshort
  refine ⟨dir, n, hparent, hshort, hfree, ?_⟩
  rcases hopens with ⟨-, hopened, hafter⟩ | ⟨_, hnode, -⟩ | ⟨_, hnode, -⟩
  · exact ⟨hopened, hafter⟩
  · rw [hfree] at hnode
    cases hnode
  · rw [hfree] at hnode
    cases hnode

/-- Touching a path at which there is no entry adds a file there. -/
theorem touch_adds (hsound : fs.Sound) (hnone : (fs.entryStatus p).isOk = false)
    (h : fs.touch p = .ok after) :
    ∃ dir n content, fs.locate .parent p = .ok ⟨dir, .name n, false⟩ ∧ n.length ≤ maxName
      ∧ fs.node? (n :: dir) = none
      ∧ after = (fs.addFile (n :: dir)).2.setContent fs.files.length content := by
  rcases touch_cases h with ⟨id, opened, hopen, rfl⟩ | ⟨d, hopen⟩
  · obtain ⟨dir, n, hparent, hshort, hfree, hid, rfl⟩ := openForWriting_adds hsound hnone hopen
    injection hid with hid
    subst hid
    exact ⟨dir, n, _, hparent, hshort, hfree, rfl⟩
  · -- a device is not opened where a file is added
    obtain ⟨_, _, -, -, -, hdevice, -⟩ := openForWriting_adds hsound hnone hopen
    cases hdevice

/-- **A file that was created can be removed**: it is the entry that its path names, and without it
the tree is as before. -/
theorem removeFile_of_touch (hsound : fs.Sound) (hnone : (fs.entryStatus p).isOk = false)
    (h : fs.touch p = .ok after) :
    after.entryStatus p = .ok .regular
      ∧ ∃ last, after.removeFile p = .ok last ∧ fs.SameTree last := by
  obtain ⟨dir, n, content, hspot, hshort, hfree, rfl⟩ := touch_adds hsound hnone h
  have hne := List.cons_ne_nil n dir
  have halters : fs.Alters ((fs.addFile (n :: dir)).2.setContent fs.files.length content)
      (n :: dir) (some (.file fs.files.length)) := ⟨node?_addFile hne, rfl, rfl⟩
  have hlater := locate_of_extends (halters.extends hfree) hspot
  have hthere := halters.node_eq (n :: dir)
  rw [if_pos rfl] at hthere
  refine ⟨?_, _, removeFile_eq_ok hlater hshort hthere nofun, ?_⟩
  · have hplain := (slash_of_locate_parent hspot).symm
    refine entryStatus_eq_ok_iff.mpr ⟨n :: dir, .file fs.files.length, ?_, rfl⟩
    rw [resolveEntry_of_plain hlater hplain]
    exact nodeAt_name_iff.mpr ⟨rfl, hshort, hthere, nofun⟩
  · refine ⟨entries_erase_insert hne hfree _, rfl, rfl, fun id hid => ?_⟩
    exact (data_setContent_of_ne (Nat.ne_of_gt hid) content).trans (data_addFile hid _)

end FileSystem

end LineShell
