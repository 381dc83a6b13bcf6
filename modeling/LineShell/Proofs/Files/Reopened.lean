/-
A file that is opened again and again.

Opening a path for writing creates the file where there is none.  The new entry is no link, so the
path still leads there when the file is there, and opening the path again finds the same file and
changes nothing (`openForWriting_again`).  What the file holds by then makes no difference to
where the path leads.  So all that opening a path and writing there can ever come to is the tree
with the file in it, with some contents in the file (`OpensTo`), and nothing looks
different in it but the one location (`sameAt_withData_of_opens`).
-/
import LineShell.Proofs.Files.Aside
import LineShell.Proofs.Files.Changes
import LineShell.Proofs.Files.Moved

set_option autoImplicit false

namespace LineShell

namespace FileSystem

variable {fs there : FileSystem} {p : Path} {id : FileId} {l k dir : Location} {n : Name}

theorem Sound.withData (h : fs.Sound) (id : FileId) (d : FileData) : (fs.withData id d).Sound where
  housed := h.housed
  short := h.short
  numbered := fun l other hl => knows_withData.mpr (h.numbered l other hl)
  unshared := h.unshared

/-! ## Opening again -/

/-- A regular file is opened where it stands. -/
theorem openForWriting_of_stands (hspot : fs.locate .create p = .ok ⟨dir, .name n, false⟩)
    (hdir : fs.node? dir = some .directory) (hshort : n.length ≤ maxName)
    (hnode : fs.node? (n :: dir) = some (.file id)) :
    fs.openForWriting p = .ok (.file id, fs) := by
  have hgone : ¬ fs.isGone dir = true := by simp [isGone, hdir]
  rw [openForWriting, hspot]
  simp only [bind, Except.bind, Bool.false_eq_true, if_false, if_neg hgone,
    if_neg (Nat.not_lt.mpr hshort), hnode]

/-- A file that was created stands where its path leads, also on the next walk. -/
theorem openForWriting_again (h : fs.openForWriting p = .ok (.file id, there)) :
    there.openForWriting p = .ok (.file id, there) := by
  obtain ⟨dir, n, hspot, hdir, hshort, ⟨hfree, hid, rfl⟩ | ⟨_, -, -, rfl⟩ | ⟨_, -, hid, -⟩⟩ :=
    openForWriting_cases h
  · injection hid with hid
    have halters : fs.Alters (fs.addFile (n :: dir)).2 (n :: dir) (some (.file id)) :=
      ⟨hid ▸ node?_addFile (List.cons_ne_nil n dir), rfl, rfl⟩
    refine @openForWriting_of_stands _ p id dir n ?_ ?_ hshort ?_
    · -- the only new entry is a file
      apply locate_create_of_extends (halters.extends hfree) _ hspot
      intro k target hlink
      rw [halters.node_eq] at hlink
      split at hlink
      · exact nomatch hlink
      · exact hlink
    · rw [halters.node_eq, if_neg, hdir]
      exact fun hsame => List.cons_ne_self n dir hsame.symm
    · rw [halters.node_eq, if_pos rfl]
  · exact h
  · exact nomatch hid

/-- Opening a path leads to a regular file in the given tree, whatever the file holds. -/
def OpensTo (fs : FileSystem) (p : Path) (id : FileId) (there : FileSystem) : Prop :=
  ∃ d, fs.openForWriting p = .ok (.file id, there.withData id d)

theorem opensTo_of_opens (h : fs.openForWriting p = .ok (.file id, there)) :
    fs.OpensTo p id there :=
  ⟨there.data id, h.trans (by rw [withData_data])⟩

/-- What was opened once opens to the same tree, whatever was written to the file meanwhile. -/
theorem opensTo_withData (hknown : there.Knows id)
    (h : fs.openForWriting p = .ok (.file id, there)) (d : FileData) :
    (there.withData id d).OpensTo p id there := by
  refine ⟨d, ?_⟩
  rw [openForWriting_withData hknown, openForWriting_again h]
  rfl

theorem OpensTo.openTarget (h : fs.OpensTo p id there) (mode : Redirection) :
    ∃ handle d, fs.openTarget p mode = .ok (handle, there.withData id d)
      ∧ handle.file? = some id := by
  obtain ⟨d, h⟩ := h
  rcases mode with _ | _
  · refine ⟨.atOffset id 0, ⟨[], true⟩, ?_, rfl⟩
    rw [FileSystem.openTarget, h]
    show Except.ok (_, (there.withData id d).withData id ⟨[], true⟩) = _
    rw [withData_withData]
  · refine ⟨.atEnd id, d, ?_, rfl⟩
    rw [FileSystem.openTarget, h]
    rfl

/-! ## What looks different -/

/-- Where a file was opened and written to, that location holds what was written, and no other one
looks different. -/
theorem sameAt_withData_of_opens (hsound : fs.Sound)
    (h : fs.openForWriting p = .ok (.file id, there)) :
    ∃ l, fs.entryAt? .create p = some l
      ∧ (∀ d, (there.withData id d).HoldsAt l d.content)
      ∧ ∀ d k, k ≠ l → fs.SameAt (there.withData id d) k := by
  obtain ⟨dir, n, hspot, -, -, hopens⟩ := openForWriting_cases h
  obtain ⟨hknown, -⟩ := content_of_openForWriting hsound.numbered h
  have hnode := hopens.node? (List.cons_ne_nil n dir)
  refine ⟨n :: dir, entryAt?_of_locate hspot, fun d => ⟨id, ?_, ?_⟩, fun d k hk => ⟨?_, ?_⟩⟩
  · rw [node?_withData, hnode, if_pos rfl]
    rfl
  · rw [data_withData_self hknown]
  · rw [node?_withData, hnode, if_neg hk]
  · intro other hother
    have hknownOther := hsound.numbered k other hother
    have hne : other ≠ id := by
      rintro rfl
      exact hk (hsound.unshared _ _ _ hother (hopens.of_known hknownOther).2)
    rw [data_withData_of_ne hne, (openForWriting_content h hknownOther).2]

/-- Two contents of a file that differ in the time at most look the same. -/
theorem sameAt_withData (hknown : there.Knows id) {d e : FileData} (h : d.content = e.content)
    (k : Location) : (there.withData id d).SameAt (there.withData id e) k := by
  refine ⟨rfl, fun other _ => ?_⟩
  by_cases hother : other = id
  · rw [hother, data_withData_self hknown, data_withData_self hknown, h]
  · rw [data_withData_of_ne hother, data_withData_of_ne hother]

end FileSystem

end LineShell
