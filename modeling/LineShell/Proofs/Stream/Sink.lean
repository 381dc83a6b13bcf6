/-
What a sink owes to its file.

A sink on a regular file writes at the file's end: a handle that appends does so by what it
is, and a handle that overwrites does so because its offset was the length of the file when it
was opened and has been since.  As long as no other hand changes the file, the bytes in
the file followed by the bytes held are everything that was ever written, in order, whichever
of the three routes each write has taken.
-/
import LineShell.Proofs.Files.Contents
import LineShell.Stream.FileSink

set_option autoImplicit false

namespace LineShell

namespace Handle

/-- The regular file that a handle writes to. -/
def file? : Handle → Option FileId
  | .atEnd id => some id
  | .atOffset id _ => some id
  | .device _ => none

/-- A handle on a regular file that writes behind what the file holds. -/
def Follows (h : Handle) (fs : FileSystem) (id : FileId) : Prop :=
  h = .atEnd id ∨ h = .atOffset id (fs.data id).content.length

theorem overlay_length (content written : Bytes) :
    overlay content content.length written = content ++ written := by
  rw [overlay, List.take_length, Nat.sub_self, List.replicate_zero, List.append_nil,
    List.drop_eq_nil_of_le (Nat.le_add_right _ _), List.append_nil]

/-- Writing behind what a file holds adds the bytes to it. -/
theorem write_of_follows {h : Handle} {fs : FileSystem} {id : FileId} (hf : h.Follows fs id)
    (hknown : fs.Knows id) (bytes : Bytes) :
    ∃ h' after, h.write bytes fs = (.ok (), h', after) ∧ h'.Follows after id ∧ after.Knows id
      ∧ (after.data id).content = (fs.data id).content ++ bytes := by
  unfold write
  by_cases hbytes : bytes = []
  · rw [if_pos hbytes]
    exact ⟨h, fs, rfl, hf, hknown, by rw [hbytes, List.append_nil]⟩
  · rw [if_neg hbytes]
    rcases hf with rfl | rfl
    · refine ⟨_, _, rfl, .inl rfl, FileSystem.knows_setContent.mpr hknown, ?_⟩
      rw [FileSystem.data_setContent_self hknown]
    · refine ⟨_, _, rfl, .inr ?_, FileSystem.knows_setContent.mpr hknown, ?_⟩
      · rw [FileSystem.data_setContent_self hknown, overlay_length, List.length_append]
      · rw [FileSystem.data_setContent_self hknown, overlay_length]

/-- A handle without what changes in it from write to write. -/
def opening : Handle → Handle
  | .atOffset id _ => .atOffset id 0
  | .device (.fitful _) => .device (.fitful [])
  | h => h

/-- Writing does not turn to another file. -/
theorem opening_write (h : Handle) (bytes : Bytes) (fs : FileSystem) :
    (h.write bytes fs).2.1.opening = h.opening := by
  unfold write
  split
  · rfl
  · rcases h with id | ⟨id, offset⟩ | d
    · rfl
    · rfl
    · rcases d with _ | _ | _ <;> rfl

end Handle

/-- What a redirection leaves in a regular file before it writes to it. -/
def FileSystem.keptBy (fs : FileSystem) (mode : Redirection) (id : FileId) : Bytes :=
  match mode with
  | .overwrite => []
  | .append => (fs.data id).content

namespace FileSink

variable {s : FileSink} {fs : FileSystem} {id : FileId}

/-- A sink that writes behind what a regular file holds. -/
structure Follows (s : FileSink) (fs : FileSystem) (id : FileId) : Prop where
  handle : s.handle.Follows fs id
  known : fs.Knows id

/-- The bytes in the file followed by the bytes that are waiting. -/
def owed (s : FileSink) (fs : FileSystem) (id : FileId) : Bytes := (fs.data id).content ++ s.held

/-- A sink that was opened on a regular file writes behind what the redirection leaves there. -/
theorem follows_of_openTarget {p : Path} {mode : Redirection} {handle : Handle}
    {after : FileSystem} (hnumbered : fs.Numbered)
    (hopen : fs.openTarget p mode = .ok (handle, after))
    (hfile : handle.file? = some id) :
    (FileSink.mk handle []).Follows after id
      ∧ (FileSink.mk handle []).owed after id = fs.keptBy mode id := by
  rcases FileSystem.openTarget_cases hopen with ⟨other, opened, hother, hmode⟩ | ⟨device, -, rfl⟩
  · obtain ⟨hknown, hcontent⟩ := FileSystem.content_of_openForWriting hnumbered hother
    rcases hmode with ⟨rfl, rfl, rfl⟩ | ⟨rfl, rfl, rfl⟩
    · obtain rfl := Option.some.inj hfile
      have hdata := FileSystem.data_setContent_self hknown []
      refine ⟨⟨.inr ?_, FileSystem.knows_setContent.mpr hknown⟩, ?_⟩
      · rw [hdata]
        rfl
      · rw [owed, hdata]
        rfl
    · obtain rfl := Option.some.inj hfile
      refine ⟨⟨.inl rfl, hknown⟩, ?_⟩
      rw [owed, hcontent]
      exact List.append_nil _
  · exact nomatch hfile

theorem opening_flush (s : FileSink) (fs : FileSystem) :
    (s.flush fs).2.1.handle.opening = s.handle.opening := by
  rw [← s.handle.opening_write s.held fs, flush]
  split <;> rename_i hwrite <;> rw [hwrite]

/-- Writing to a sink writes to the file that the sink was opened on. -/
theorem opening_write (s : FileSink) (data : Bytes) (fs : FileSystem) :
    (s.write data fs).2.1.handle.opening = s.handle.opening := by
  unfold write
  split
  · rfl
  · have hroom : (s.makeRoom data.length fs).2.1.handle.opening = s.handle.opening := by
      unfold makeRoom
      split
      · exact opening_flush s fs
      · rfl
    rw [← hroom]
    unfold writeThrough
    rcases s.makeRoom data.length fs with ⟨_ | _, roomy, after⟩
    · rfl
    · simp only
      split
      · exact roomy.handle.opening_write data after
      · rfl

/-- Holding more bytes leaves the file alone. -/
theorem hold_of_follows (h : s.Follows fs id) (data : Bytes) :
    (s.hold data).Follows fs id ∧ (s.hold data).owed fs id = s.owed fs id ++ data :=
  ⟨⟨h.handle, h.known⟩, (List.append_assoc _ _ _).symm⟩

/-- Flushing settles what is owed. -/
theorem flush_of_follows (h : s.Follows fs id) :
    ∃ settled after, s.flush fs = (.ok (), settled, after) ∧ settled.Follows after id
      ∧ settled.held = [] ∧ (after.data id).content = s.owed fs id := by
  obtain ⟨handle, after, hwrite, hfollows, hknown, hcontent⟩ :=
    Handle.write_of_follows h.handle h.known s.held
  refine ⟨⟨handle, []⟩, after, ?_, ⟨hfollows, hknown⟩, rfl, hcontent⟩
  rw [flush, hwrite]

/-- Making room changes nothing in what is owed, and for a large write it holds nothing back. -/
theorem makeRoom_of_follows (h : s.Follows fs id) (n : Nat) :
    ∃ roomy after, s.makeRoom n fs = (.ok (), roomy, after) ∧ roomy.Follows after id
      ∧ roomy.owed after id = s.owed fs id ∧ (sinkCapacity ≤ n → roomy.held = []) := by
  unfold makeRoom
  by_cases hn : s.spare < n
  · rw [if_pos hn]
    obtain ⟨settled, after, hflush, hfollows, hheld, hcontent⟩ := flush_of_follows h
    refine ⟨settled, after, hflush, hfollows, ?_, fun _ => hheld⟩
    rw [owed, hheld, hcontent, List.append_nil]
  · rw [if_neg hn]
    refine ⟨s, fs, rfl, h, rfl, fun hlarge => ?_⟩
    -- there is room for a whole buffer only if the buffer is empty
    have hpos : 0 < sinkCapacity := by decide
    unfold spare at hn
    exact List.eq_nil_of_length_eq_zero (by omega)

/-- What is written is owed to the file from then on, and writing does not fail. -/
theorem write_of_follows (h : s.Follows fs id) (data : Bytes) :
    ∃ s' after, s.write data fs = (.ok (), s', after) ∧ s'.Follows after id
      ∧ s'.owed after id = s.owed fs id ++ data := by
  unfold write
  by_cases hsmall : data.length < s.spare
  · rw [if_pos hsmall]
    obtain ⟨hfollows, howed⟩ := hold_of_follows h data
    exact ⟨_, fs, rfl, hfollows, howed⟩
  · obtain ⟨roomy, after, hroom, hfollows, howed, hheld⟩ := makeRoom_of_follows h data.length
    rw [if_neg hsmall, writeThrough, hroom]
    by_cases hlarge : sinkCapacity ≤ data.length
    · -- past the buffer, which is empty by now, so the order is kept
      obtain ⟨handle, written, hwrite, hhandle, hknown, hcontent⟩ :=
        Handle.write_of_follows hfollows.handle hfollows.known data
      refine ⟨{ roomy with handle := handle }, written, ?_, ⟨hhandle, hknown⟩, ?_⟩
      · simp only [if_pos hlarge, hwrite]
      · rw [← howed, owed, owed, hcontent, hheld hlarge, List.append_nil, List.append_nil]
    · obtain ⟨hheldFollows, hheldOwed⟩ := hold_of_follows hfollows data
      refine ⟨roomy.hold data, after, ?_, hheldFollows, hheldOwed.trans (by rw [howed])⟩
      simp only [if_neg hlarge]

end FileSink

end LineShell
