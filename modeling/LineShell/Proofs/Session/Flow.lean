/-
Where bytes go and where they come from.

The record of a run says what was printed, what was read and which calls were made.  These
lemmas relate it to the world behind the run: while the output is a sink on a regular
file, everything printed is owed to that file; while it is not a file, the files change by
calls alone; and what was read was taken from the current input, in order.
-/
import LineShell.Proofs.Session.Streams
import LineShell.Proofs.Stream.Chunked

set_option autoImplicit false

namespace LineShell

/-! ## To a file -/

namespace FileSink

/-- Nothing is lost when the file system changes around a file. -/
theorem Follows.of_content {s : FileSink} {fs after : FileSystem} {id : FileId}
    (h : s.Follows fs id) (hafter : after.Knows id)
    (hcontent : (after.data id).content = (fs.data id).content) :
    s.Follows after id ∧ s.owed after id = s.owed fs id := by
  refine ⟨⟨?_, hafter⟩, by rw [owed, owed, hcontent]⟩
  rcases h.handle with hend | hoffset
  · exact .inl hend
  · exact .inr (by rw [hcontent]; exact hoffset)

end FileSink

/-- A request that writes no bytes to files, except by printing. -/
def Request.KeepsContents : Request → Prop
  | .files call => call.KeepsContents
  | _ => True

namespace World

variable {w : World} {id : FileId}

/-- The output is a sink that writes behind what a regular file holds. -/
def WritesTo (w : World) (id : FileId) : Prop :=
  ∃ sink, w.output = .file sink ∧ sink.Follows w.files id

/-- The bytes in a file followed by those that the output holds back. -/
def owed (w : World) (id : FileId) : Bytes :=
  match w.output with
  | .file sink => sink.owed w.files id
  | _ => []

theorem writesTo_of_frame {u : World} (houtput : u.output = w.output) (hfiles : u.files = w.files)
    (h : w.WritesTo id) : u.WritesTo id ∧ u.owed id = w.owed id := by
  rw [WritesTo, owed, owed, houtput, hfiles]
  exact ⟨h, rfl⟩

theorem print_of_writesTo (h : w.WritesTo id) (data : Bytes) :
    (w.print data).1 = .ok () ∧ (w.print data).2.WritesTo id
      ∧ (w.print data).2.owed id = w.owed id ++ data := by
  obtain ⟨sink, houtput, hfollows⟩ := h
  obtain ⟨sink', after, hwrite, hafter, howed⟩ := FileSink.write_of_follows hfollows data
  have hprint : w.print data = (.ok (), { w with output := .file sink', files := after }) := by
    rw [print, houtput]
    simp only [hwrite]
  rw [hprint, owed, owed, houtput]
  exact ⟨rfl, ⟨sink', rfl, hafter⟩, howed⟩

/-- What one request adds to what the file is owed is what the output took. -/
theorem answer_of_writesTo {r : Request} (hr : r.KeepsContents) (h : w.WritesTo id) :
    (w.answer r).2.WritesTo id
      ∧ (w.answer r).2.owed id = w.owed id ++ r.taken (w.answer r).1 := by
  -- every request but two leaves both the output and the files alone
  have hframe : ∀ u : World, u.output = w.output → u.files = w.files →
      u.WritesTo id ∧ u.owed id = w.owed id ++ [] := by
    intro u houtput hfiles
    rw [List.append_nil]
    exact writesTo_of_frame houtput hfiles h
  cases r with
  | print data =>
    obtain ⟨hok, hwrites, howed⟩ := print_of_writesTo h data
    refine ⟨hwrites, ?_⟩
    show (w.print data).2.owed id = w.owed id ++ (Request.print data).taken (w.print data).1
    rw [hok]
    exact howed
  | complain data => exact hframe _ rfl rfl
  | readUntil b =>
    obtain ⟨houtput, hfiles, -⟩ := w.readUntil_frame b
    exact hframe _ houtput hfiles
  | inputLeft => exact hframe _ rfl rfl
  | confirm question =>
    obtain ⟨houtput, -, hfiles⟩ := w.confirm_frame question
    exact hframe _ houtput hfiles
  | environment => exact hframe _ rfl rfl
  | setEnvironment env => exact hframe _ rfl rfl
  | files call =>
    obtain ⟨sink, houtput, hfollows⟩ := h
    obtain ⟨hknown, hcontent⟩ := FileSystem.perform_content hr hfollows.known
    obtain ⟨hafter, howed⟩ := hfollows.of_content hknown hcontent
    refine ⟨⟨sink, houtput, hafter⟩, ?_⟩
    show World.owed { w with files := (w.files.perform call).2 } id = w.owed id ++ []
    rw [List.append_nil, owed, owed, houtput]
    exact howed

end World

namespace Action

variable {α : Type} {id : FileId}

/-- Everything that is printed while the output is a file is owed to that file. -/
theorem run_of_writesTo {a : Action α} (ha : a.Asks Request.KeepsContents) {w : World}
    (hw : w.WritesTo id) :
    (a.run w).2.WritesTo id ∧ (a.run w).2.owed id = w.owed id ++ a.printed w := by
  induction a generalizing w with
  | done a => exact ⟨hw, (List.append_nil _).symm⟩
  | fail failure => exact ⟨hw, (List.append_nil _).symm⟩
  | panic message => exact ⟨hw, (List.append_nil _).symm⟩
  | request r next ih =>
    obtain ⟨hwrites, howed⟩ := World.answer_of_writesTo ha.1 hw
    obtain ⟨hafter, hrest⟩ := ih (w.answer r).1 (ha.2 _) hwrites
    refine ⟨hafter, ?_⟩
    rw [run_request, hrest, howed, printed_request, List.append_assoc]

end Action

/-! ## Not to a file -/

/-- An output that no file is behind. -/
def Output.IsFileless (o : Output) : Prop := ∀ sink, o ≠ .file sink

theorem Output.IsFileless.of_sameStream {o later : Output} (h : o.IsFileless)
    (hsame : o.SameStream later) : later.IsFileless := by
  rintro sink rfl
  rcases o with _ | _ | earlier
  · exact hsame
  · exact hsame
  · exact h earlier rfl

theorem World.files_answer {w : World} (h : w.output.IsFileless) (r : Request) :
    (w.answer r).2.files = w.files.performAll r.calls := by
  cases r with
  | print data =>
    show (w.print data).2.files = w.files
    unfold print
    split
    · rfl
    · rfl
    · rename_i sink houtput
      exact absurd houtput (h sink)
  | complain data => rfl
  | readUntil b => exact (w.readUntil_frame b).2.1
  | inputLeft => rfl
  | confirm question => exact (w.confirm_frame question).2.2
  | environment => rfl
  | setEnvironment env => rfl
  | files call => rfl

/-- Where the output is not a file, the files change by calls alone. -/
theorem Action.run_files {α : Type} (a : Action α) {w : World} (h : w.output.IsFileless) :
    (a.run w).2.files = w.files.performAll (a.calls w) := by
  induction a generalizing w with
  | done a => rfl
  | fail failure => rfl
  | panic message => rfl
  | request r next ih =>
    have hafter := h.of_sameStream (w.sameStreams_answer r).output
    rw [run_request, ih _ hafter, World.files_answer h]
    show (w.files.performAll r.calls).performAll _ = w.files.performAll (r.calls ++ _)
    rw [FileSystem.performAll, FileSystem.performAll, FileSystem.performAll, List.foldl_append]

/-! ## From the input -/

namespace Source

/-- What a read delivers is what it takes, unless the input breaks off. -/
theorem readUntil_append (s : Source) (b : UInt8) :
    ∃ taken, s.bytes = taken ++ (s.readUntil b).2.bytes
      ∧ ∀ piece, (s.readUntil b).1 = .ok piece → piece = taken := by
  obtain ⟨hresult, hbytes, -⟩ := s.readUntil_eq b
  refine ⟨(cutAfter b s.bytes).1, ?_, fun piece h => ?_⟩
  · rw [hbytes, cutAfter_append]
  · rw [hresult, SourceEnd.deliver] at h
    split at h
    · injection h with h
      exact h.symm
    · cases h

end Source

namespace World

/-- The bytes that the current input still has. -/
def unread (w : World) : Bytes :=
  match w.input with
  | .session => w.source.bytes
  | .memory reader => reader.rest

/-- One request takes from the current input at most what it takes from its front. -/
theorem unread_answer (w : World) (r : Request) :
    ∃ taken, w.unread = taken ++ (w.answer r).2.unread
      ∧ (r.given (w.answer r).1).Sublist taken := by
  cases r with
  | print data =>
    have hprint : (w.print data).2.unread = w.unread := by
      unfold print
      split <;> rfl
    exact ⟨[], by rw [← hprint]; rfl, List.Sublist.refl _⟩
  | complain data => exact ⟨[], rfl, List.Sublist.refl _⟩
  | readUntil b =>
    show ∃ taken, w.unread = taken ++ (w.readUntil b).2.unread
      ∧ ((Request.readUntil b).given (w.readUntil b).1).Sublist taken
    rcases hinput : w.input with _ | reader
    · obtain ⟨taken, hbytes, hpiece⟩ := w.source.readUntil_append b
      have hread : w.readUntil b
          = ((w.source.readUntil b).1, { w with source := (w.source.readUntil b).2 }) := by
        rw [readUntil, hinput]
      refine ⟨taken, ?_, ?_⟩
      · rw [hread, unread, unread, hinput]
        exact hbytes
      · rw [hread]
        rcases hresult : (w.source.readUntil b).1 with e | piece
        · exact List.nil_sublist taken
        · rw [hpiece piece hresult]
          exact List.Sublist.refl taken
    · refine ⟨(cutAfter b reader.rest).1, ?_, ?_⟩
      · rw [readUntil, unread, unread, hinput]
        exact (cutAfter_append b reader.rest).symm
      · rw [readUntil, hinput]
        exact List.Sublist.refl _
  | inputLeft => exact ⟨[], rfl, List.Sublist.refl _⟩
  | confirm question =>
    show ∃ taken, w.unread = taken ++ (w.confirm question).2.unread ∧ ([] : Bytes).Sublist taken
    rcases hinput : w.input with _ | reader
    · rcases hrespondent : w.respondent with (_ | ⟨answer, answers⟩) | _
      · exact ⟨[], by rw [confirm, unread, unread, hrespondent]; rfl, List.Sublist.refl _⟩
      · exact ⟨[], by rw [confirm, unread, unread, hrespondent]; rfl, List.Sublist.refl _⟩
      · obtain ⟨taken, hbytes, -⟩ := w.source.readUntil_append Text.newline
        refine ⟨taken, ?_, List.nil_sublist taken⟩
        rw [confirm, unread, unread, hrespondent, hinput]
        exact hbytes
    · have hmemory : (w.confirm question).2.unread = w.unread := by
        rw [unread, unread, (w.confirm_frame question).2.1, hinput]
      exact ⟨[], by rw [← hmemory]; rfl, List.Sublist.refl _⟩
  | environment => exact ⟨[], rfl, List.Sublist.refl _⟩
  | setEnvironment env => exact ⟨[], rfl, List.Sublist.refl _⟩
  | files call => exact ⟨[], rfl, List.Sublist.refl _⟩

end World

/-- What a command reads it reads from the front of the input that it finds, in order. -/
theorem Action.run_unread {α : Type} (a : Action α) (w : World) :
    ∃ taken, w.unread = taken ++ (a.run w).2.unread ∧ (a.received w).Sublist taken := by
  induction a generalizing w with
  | done a => exact ⟨[], rfl, List.Sublist.refl _⟩
  | fail failure => exact ⟨[], rfl, List.Sublist.refl _⟩
  | panic message => exact ⟨[], rfl, List.Sublist.refl _⟩
  | request r next ih =>
    obtain ⟨first, hfirst, hgiven⟩ := w.unread_answer r
    obtain ⟨rest, hrest, hreceived⟩ := ih (w.answer r).1 (w.answer r).2
    refine ⟨first ++ rest, ?_, hgiven.append hreceived⟩
    rw [hfirst, hrest, List.append_assoc]
    rfl

end LineShell
