/-
The contents of regular files.

Contents stand in a table of their own, under the number that an entry names.  Making,
removing and renaming entries leaves the table as it is, and creating a file adds a row at its
end.  So a file keeps its number and its bytes through every call but one: only a copy
writes bytes, into the file that its target opens.
-/
import LineShell.Proofs.Files.Effects

set_option autoImplicit false

namespace LineShell

namespace FileSystem

variable {fs after : FileSystem} {id : FileId} {p source target : Path}

/-- A number under which contents stand. -/
def Knows (fs : FileSystem) (id : FileId) : Prop := id < fs.files.length

/-! ## Writing contents -/

@[simp] theorem knows_setContent {other : FileId} {content : Bytes} :
    (fs.setContent other content).Knows id ↔ fs.Knows id := by
  simp only [Knows, setContent, List.length_set]

theorem data_setContent_self (h : fs.Knows id) (content : Bytes) :
    (fs.setContent id content).data id = ⟨content, true⟩ := by
  unfold Knows at h
  rw [data, setContent, List.getD_eq_getElem?_getD, List.getElem?_set_self h]
  rfl

theorem data_setContent_of_ne {other : FileId} (h : other ≠ id) (content : Bytes) :
    (fs.setContent other content).data id = fs.data id := by
  rw [data, data, setContent, List.getD_eq_getElem?_getD, List.getD_eq_getElem?_getD,
    List.getElem?_set_ne h]

/-- Writing what a file holds already changes no bytes. -/
theorem content_setContent_same (fs : FileSystem) (id other : FileId) :
    ((fs.setContent other (fs.data other).content).data id).content = (fs.data id).content := by
  by_cases hne : other = id
  · subst hne
    by_cases hknown : fs.Knows other
    · rw [data_setContent_self hknown]
    · have hset : fs.files.set other ⟨(fs.data other).content, true⟩ = fs.files :=
        List.set_eq_of_length_le (Nat.le_of_not_lt hknown)
      rw [setContent, hset]
  · rw [data_setContent_of_ne hne]

theorem data_addFile (h : fs.Knows id) (l : Location) : (fs.addFile l).2.data id = fs.data id := by
  unfold Knows at h
  rw [data, data, List.getD_eq_getElem?_getD, List.getD_eq_getElem?_getD]
  simp only [addFile]
  rw [List.getElem?_append_left h]

theorem knows_addFile (h : fs.Knows id) (l : Location) : (fs.addFile l).2.Knows id := by
  rw [Knows, addFile, List.length_append]
  exact Nat.lt_add_right 1 h

/-- A new file is known, and it is empty: reading the table behind its end gave no bytes before. -/
theorem addFile_new (fs : FileSystem) (l : Location) :
    (fs.addFile l).2.Knows fs.files.length
      ∧ ((fs.addFile l).2.data fs.files.length).content = []
      ∧ (fs.data fs.files.length).content = [] := by
  refine ⟨?_, ?_, ?_⟩
  · rw [Knows, addFile, List.length_append]
    exact Nat.lt_succ_self _
  · rw [data, addFile, List.getD_eq_getElem?_getD, List.getElem?_concat_length]
    rfl
  · rw [data, List.getD_eq_getElem?_getD, List.getElem?_eq_none (Nat.le_refl _)]
    rfl

/-! ## Opening -/

/-- Opening for writing keeps what is known, with its bytes. -/
theorem openForWriting_content {opened : Opened} (h : fs.openForWriting p = .ok (opened, after))
    (hknown : fs.Knows id) : after.Knows id ∧ after.data id = fs.data id := by
  obtain ⟨dir, n, -, -, -, h | ⟨_, -, -, rfl⟩ | ⟨_, -, -, rfl⟩⟩ := openForWriting_cases h
  · obtain ⟨-, -, rfl⟩ := h
    exact ⟨knows_addFile hknown _, data_addFile hknown _⟩
  · exact ⟨hknown, rfl⟩
  · exact ⟨hknown, rfl⟩

/-- The entries of a file system name contents that there are. -/
def Numbered (fs : FileSystem) : Prop := ∀ l id, fs.node? l = some (.file id) → fs.Knows id

/-- A regular file that was opened for writing is known, and holds what it held before; a new
one holds nothing. -/
theorem content_of_openForWriting (hnum : fs.Numbered)
    (h : fs.openForWriting p = .ok (.file id, after)) :
    after.Knows id ∧ (after.data id).content = (fs.data id).content := by
  obtain ⟨dir, n, -, -, -, h | ⟨other, hnode, hid, rfl⟩ | ⟨d, -, hid, -⟩⟩ := openForWriting_cases h
  · obtain ⟨-, hid, rfl⟩ := h
    injection hid with hid
    subst hid
    obtain ⟨hknown, hnew, hold⟩ := addFile_new fs (n :: dir)
    exact ⟨hknown, hnew.trans hold.symm⟩
  · injection hid with hid
    subst hid
    exact ⟨hnum _ _ hnode, rfl⟩
  · exact nomatch hid

/-! ## Calls -/

end FileSystem

/-- A call that writes no bytes. -/
def FileCall.KeepsContents : FileCall → Prop
  | .copy _ _ => False
  | _ => True

namespace FileSystem

variable {fs after : FileSystem} {id : FileId} {p source target : Path}

theorem commit_content {result : Except IoError FileSystem} (hknown : fs.Knows id)
    (h : ∀ after, result = .ok after →
      after.Knows id ∧ (after.data id).content = (fs.data id).content) :
    (fs.commit result).2.Knows id
      ∧ ((fs.commit result).2.data id).content = (fs.data id).content := by
  rcases result with e | after
  · exact ⟨hknown, rfl⟩
  · exact h after rfl

/-- A call that writes no bytes keeps every file that there is, with its bytes. -/
theorem perform_content {call : FileCall} (hcall : call.KeepsContents) (hknown : fs.Knows id) :
    (fs.perform call).2.Knows id
      ∧ ((fs.perform call).2.data id).content = (fs.data id).content := by
  cases call with
  | status p => exact ⟨hknown, rfl⟩
  | entryStatus p => exact ⟨hknown, rfl⟩
  | list p => exact ⟨hknown, rfl⟩
  | read p => exact ⟨hknown, rfl⟩
  | makeDirectory p =>
    refine commit_content hknown fun after h => ?_
    obtain ⟨dir, n, slash, -, -, -, -, rfl⟩ := addEntry_cases h
    exact ⟨hknown, rfl⟩
  | removeDirectory p =>
    refine commit_content hknown fun after h => ?_
    obtain ⟨dir, n, slash, -, -, -, rfl⟩ := removeDirectory_cases h
    exact ⟨hknown, rfl⟩
  | removeFile p =>
    refine commit_content hknown fun after h => ?_
    obtain ⟨dir, n, node, -, -, -, rfl⟩ := removeFile_cases h
    exact ⟨hknown, rfl⟩
  | touch p =>
    refine commit_content hknown fun after h => ?_
    rcases touch_cases h with ⟨other, opened, hopen, rfl⟩ | ⟨d, hopen⟩
    · obtain ⟨hk, hdata⟩ := openForWriting_content hopen hknown
      refine ⟨knows_setContent.mpr hk, ?_⟩
      rw [content_setContent_same, hdata]
    · obtain ⟨hk, hdata⟩ := openForWriting_content hopen hknown
      exact ⟨hk, by rw [hdata]⟩
  | rename source target =>
    refine commit_content hknown fun after h => ?_
    obtain ⟨dirS, n, slashS, dirT, m, slashT, node, -, -, -, -, h⟩ := rename_cases h
    rcases h with ⟨-, rfl⟩ | ⟨-, rfl⟩
    · exact ⟨hknown, rfl⟩
    · exact ⟨hknown, rfl⟩
  | copy source target => exact hcall.elim

end FileSystem

end LineShell
