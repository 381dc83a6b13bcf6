/-
The one change that a call makes.

Each of the calls that add, remove or touch an entry makes one change when it succeeds, and what it
changes can be said without the tests that came before.  Another node stands at one location, or
none does, and everything else is as it was (`FileSystem.Alters`).  A call that touches may leave
the entries alone and change the time of a file.

The location is the one that the path means.  A removed entry is the one that the path names, a
link in last place not followed.  A new directory is where its path leads afterwards, and so is a
new file, even if the path led through a link to where nothing stood: a walk for creating and a
walk for reading go the same way, and the second goes on when the first one has found nothing.
-/
import LineShell.Proofs.Files.Entries
import LineShell.Proofs.Files.Effects

set_option autoImplicit false

namespace LineShell

namespace FileSystem

variable {fs after : FileSystem} {p : Path} {l dir : Location} {n : Name} {node : Node}

/-! ## What can be changed -/

/-- Another node stands at a location, or none does; nothing else differs among the entries. -/
structure Alters (fs after : FileSystem) (l : Location) (there : Option Node) : Prop where
  node_eq : ∀ k, after.node? k = if k = l then there else fs.node? k
  volumes_eq : after.volumes = fs.volumes
  base_eq : after.base = fs.base

/-- An empty directory was added where the path leads. -/
structure AddsDirectory (fs : FileSystem) (p : Path) (after : FileSystem) (l : Location) :
    Prop where
  free : fs.node? l = none
  alters : fs.Alters after l (some .directory)
  contents : after.files = fs.files
  leads : after.resolve p = .ok (l, .directory)
  empty : after.names l = []

/-- A directory that held nothing was removed. It was the entry that the path names, not what a link
leads to. -/
structure DropsDirectory (fs : FileSystem) (p : Path) (after : FileSystem) (l : Location) :
    Prop where
  entry : fs.resolveEntry p = .ok (l, .directory)
  empty : fs.names l = []
  alters : fs.Alters after l none
  contents : after.files = fs.files

/-- An entry that is no directory was removed, a link in last place not followed. -/
structure DropsEntry (fs : FileSystem) (p : Path) (after : FileSystem) (l : Location)
    (node : Node) : Prop where
  entry : fs.resolveEntry p = .ok (l, node)
  leaf : node ≠ .directory
  alters : fs.Alters after l none
  contents : after.files = fs.files

/-- What touching a path comes to. -/
inductive Touches (fs : FileSystem) (p : Path) (after : FileSystem) : Prop where
  /-- An empty file was added where the path leads. -/
  | creates {l : Location} (free : fs.node? l = none)
      (alters : fs.Alters after l (some (.file fs.files.length)))
      (empty : after.data fs.files.length = ⟨[], true⟩)
      (others : ∀ id, fs.Knows id → after.data id = fs.data id)
      (leads : after.resolve p = .ok (l, .file fs.files.length))
  /-- The file where the path leads holds what it held, and its time was changed. -/
  | updates {l : Location} {id : FileId} (leads : fs.resolve p = .ok (l, .file id))
      (entries : after.entries = fs.entries) (volumes : after.volumes = fs.volumes)
      (base : after.base = fs.base) (same : after.data id = ⟨(fs.data id).content, true⟩)
      (others : ∀ other, other ≠ id → after.data other = fs.data other)
  /-- The path leads to a device, which has no time of its own. -/
  | device {l : Location} {d : Device} (leads : fs.resolve p = .ok (l, .device d))
      (same : after = fs)

/-! ## Where the change is made -/

theorem alters_insert (h : l ≠ []) (node : Node) : fs.Alters (fs.insert l node) l (some node) :=
  ⟨node?_insert h node, rfl, rfl⟩

theorem alters_erase (h : l ≠ []) : fs.Alters (fs.erase l) l none :=
  ⟨node?_erase h, rfl, rfl⟩

/-- What stood somewhere stands there still if an entry is added where none was. -/
theorem Alters.extends {there : Option Node} (h : fs.Alters after l there)
    (hfree : fs.node? l = none) : fs.Extends after where
  node_eq := by
    intro k hk
    rw [h.node_eq, if_neg]
    rintro rfl
    exact hk hfree
  base_eq := h.base_eq

/-- An entry that is no link is what a path means that names it, whether links are followed or
not. -/
theorem locate_nodeAt_of_not_link {purpose : Purpose} {slash : Bool}
    (h : fs.locate .parent p = .ok ⟨dir, .name n, slash⟩) (hnode : fs.node? (n :: dir) = some node)
    (hshort : n.length ≤ maxName) (hslash : slash = true → node = .directory)
    (hnolink : ∀ target, node ≠ .link target) :
    fs.locate purpose p >>= fs.nodeAt = .ok (n :: dir, node) := by
  have hends : fs.EndsAt purpose ⟨dir, .name n, slash⟩ := by
    intro m target hname hlink
    injection hname with hname
    subst hname
    rw [hnode, Option.some.injEq] at hlink
    exact absurd hlink (hnolink target)
  rw [locate_of_locate_parent h hends]
  exact nodeAt_name_iff.mpr ⟨rfl, hshort, hnode, hslash⟩

/-- Where nothing stands below, there are no names. -/
theorem names_eq_nil_of_isFree (h : fs.IsFree l) : fs.names l = [] := by
  apply List.eq_nil_iff_forall_not_mem.mpr
  intro n hn
  obtain ⟨⟨k, node⟩, hentry, hname⟩ := List.mem_filterMap.mp hn
  have hk : k = n :: l := by
    rcases k with _ | ⟨m, parent⟩
    · exact nomatch hname
    · simp only [nameIn?] at hname
      split at hname
      · rename_i hparent
        injection hname with hname
        rw [hname, hparent]
      · exact nomatch hname
  subst hk
  apply lookup_ne_none_of_mem hentry
  rw [← node?_eq_lookup (List.cons_ne_nil n l)]
  exact h _ (List.suffix_cons n l) (List.cons_ne_self n l)

/-! ## Directories -/

/-- A directory that is added under a free name is empty, and its path leads to it. -/
theorem addsDirectory_insert {slash : Bool} (hsound : fs.Sound)
    (hspot : fs.locate .parent p = .ok ⟨dir, .name n, slash⟩) (hshort : n.length ≤ maxName)
    (hfree : fs.node? (n :: dir) = none) :
    fs.AddsDirectory p (fs.insert (n :: dir) .directory) (n :: dir) := by
  have halters := @alters_insert fs _ (List.cons_ne_nil n dir) .directory
  have hnode : (fs.insert (n :: dir) .directory).node? (n :: dir) = some .directory := by
    rw [halters.node_eq, if_pos rfl]
  refine ⟨hfree, halters, rfl, ?_, ?_⟩
  · have hlater := locate_of_extends (halters.extends hfree) hspot
    exact locate_nodeAt_of_not_link hlater hnode hshort (fun _ => rfl) nofun
  · -- nothing stood below a location at which nothing stood
    apply names_eq_nil_of_isFree
    intro k hbelow hne
    rw [halters.node_eq, if_neg hne]
    exact hsound.isFree_of_ne_directory (by rw [hfree]; exact nofun) k hbelow hne

theorem makeDirectory_adds (hsound : fs.Sound) (h : fs.makeDirectory p = .ok after) :
    ∃ l, fs.AddsDirectory p after l := by
  obtain ⟨dir, n, slash, hspot, -, hshort, hfree, rfl⟩ := addEntry_cases h
  exact ⟨n :: dir, addsDirectory_insert hsound hspot hshort hfree⟩

theorem removeDirectory_drops (hsound : fs.Sound) (h : fs.removeDirectory p = .ok after) :
    ∃ l, fs.DropsDirectory p after l := by
  obtain ⟨dir, n, slash, hspot, hnode, hempty, rfl⟩ := removeDirectory_cases h
  have hshort := hsound.short n dir (by rw [hnode]; exact Option.some_ne_none _)
  refine ⟨n :: dir, ?_, hempty, alters_erase (List.cons_ne_nil n dir), rfl⟩
  exact locate_nodeAt_of_not_link hspot hnode hshort (fun _ => rfl) nofun

/-! ## Files -/

theorem removeFile_drops (hsound : fs.Sound) (h : fs.removeFile p = .ok after) :
    ∃ l node, fs.DropsEntry p after l node := by
  obtain ⟨dir, n, node, hspot, hnode, hleaf, rfl⟩ := removeFile_cases h
  have hshort := hsound.short n dir (by rw [hnode]; exact Option.some_ne_none _)
  refine ⟨n :: dir, node, ?_, hleaf, alters_erase (List.cons_ne_nil n dir), rfl⟩
  rw [resolveEntry_of_plain hspot (slash_of_locate_parent hspot).symm]
  exact nodeAt_name_iff.mpr ⟨rfl, hshort, hnode, nofun⟩

/-- A file that is there is where its path leads, when it is opened for writing. -/
theorem resolve_of_create (hafter : fs.Extends after)
    (hnew : ∀ l target, after.node? l = some (.link target) → fs.node? l = some (.link target))
    (h : fs.locate .create p = .ok ⟨dir, .name n, false⟩)
    (hnode : after.node? (n :: dir) = some node) (hshort : n.length ≤ maxName) :
    after.resolve p = .ok (n :: dir, node) := by
  rw [resolve, locate_follow_of_create hafter hnew rfl h]
  exact nodeAt_name_iff.mpr ⟨rfl, hshort, hnode, fun h => absurd h Bool.false_ne_true⟩

/-- A file that was created to be touched is empty, and nothing else differs. -/
theorem touches_addFile {id : FileId} (hid : id = fs.files.length)
    (hspot : fs.locate .create p = .ok ⟨dir, .name n, false⟩) (hshort : n.length ≤ maxName)
    (hfree : fs.node? (n :: dir) = none) :
    fs.Touches p ((fs.addFile (n :: dir)).2.setContent id
      ((fs.addFile (n :: dir)).2.data id).content) := by
  subst hid
  obtain ⟨hknows, hempty, -⟩ := fs.addFile_new (n :: dir)
  have halters : fs.Alters ((fs.addFile (n :: dir)).2.setContent fs.files.length
      ((fs.addFile (n :: dir)).2.data fs.files.length).content) (n :: dir)
      (some (.file fs.files.length)) :=
    ⟨node?_addFile (List.cons_ne_nil n dir), rfl, rfl⟩
  apply Touches.creates hfree halters
  · rw [data_setContent_self hknows, hempty]
  · intro id hid
    rw [data_setContent_of_ne (Nat.ne_of_gt hid), data_addFile hid]
  · apply resolve_of_create (halters.extends hfree) _ hspot _ hshort
    · intro k target hlink
      rw [halters.node_eq] at hlink
      split at hlink
      · exact nomatch hlink
      · exact hlink
    · rw [halters.node_eq, if_pos rfl]

theorem touch_touches (hsound : fs.Sound) (h : fs.touch p = .ok after) :
    fs.Touches p after := by
  -- where nothing is created, the path leads to what was opened
  have hleads : ∀ {dir n node}, fs.locate .create p = .ok ⟨dir, .name n, false⟩ →
      fs.node? (n :: dir) = some node → n.length ≤ maxName →
      fs.resolve p = .ok (n :: dir, node) := by
    intro dir n node hspot hnode hshort
    apply resolve_of_create ⟨fun _ _ => rfl, rfl⟩ _ hspot hnode hshort
    intro l target hlink
    exact hlink
  rcases touch_cases h with ⟨id, opened, hopen, rfl⟩ | ⟨d, hopen⟩
  · obtain ⟨dir, n, hspot, -, hshort, hopens⟩ := openForWriting_cases hopen
    rcases hopens with ⟨hfree, hid, rfl⟩ | ⟨_, hnode, hid, rfl⟩ | ⟨_, -, hid, -⟩
    · injection hid with hid
      exact touches_addFile hid hspot hshort hfree
    · injection hid with hid
      subst hid
      refine Touches.updates (hleads hspot hnode hshort) rfl rfl rfl ?_ ?_
      · exact data_setContent_self (hsound.numbered _ _ hnode) _
      · intro other hne
        exact data_setContent_of_ne (Ne.symm hne) _
    · exact nomatch hid
  · obtain ⟨dir, n, hspot, -, hshort, hopens⟩ := openForWriting_cases hopen
    rcases hopens with ⟨-, hid, -⟩ | ⟨_, -, hid, -⟩ | ⟨_, hnode, -, rfl⟩
    · exact nomatch hid
    · exact nomatch hid
    · exact .device (hleads hspot hnode hshort) rfl

end FileSystem

end LineShell
