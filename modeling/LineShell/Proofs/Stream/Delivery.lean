/-
What of a sink's bytes reaches the file.

A sink stands between the one who writes and a file or device that may take only a part of what it
is given, and at some times nothing.  The bytes that have reached the file and the bytes that are
held are then no longer everything that was written, since a write that fails is lost.  But as long
as no write fails the balance holds, whichever of the three routes a write takes and however much of
the held bytes a flush has got rid of: what has reached the file, followed by what is held, is what
was written, in order.
-/
import LineShell.Proofs.Session.Complaints

set_option autoImplicit false

namespace LineShell

/-! ## Handles -/

namespace Handle

/-- The bytes of a write that reach the file. -/
def taken (h : Handle) (bytes : Bytes) : Bytes := bytes.take (h.accepts bytes.length)

/-- A write that does not fail gets all its bytes to the file. -/
theorem taken_of_ok {h : Handle} {bytes : Bytes} {fs : FileSystem}
    (hok : (h.write bytes fs).1 = .ok ()) : h.taken bytes = bytes := by
  by_cases hbytes : bytes = []
  · rw [taken, hbytes, List.take_nil]
  · refine List.take_of_length_le ?_
    unfold write at hok
    rw [if_neg hbytes] at hok
    rcases h with id | ⟨id, offset⟩ | d
    · exact Nat.le_refl _
    · exact Nat.le_refl _
    · rcases d with _ | _ | portions
      · exact Nat.le_refl _
      · exact nomatch hok
      · -- the portion was large enough
        have hfits : bytes.length ≤ portions.headD 0 := by
          by_contra hlong
          simp only [if_neg hlong] at hok
          exact nomatch hok
        exact Nat.le_min.mpr ⟨Nat.le_refl _, hfits⟩

end Handle

/-! ## Sinks -/

namespace FileSink

variable {s : FileSink} {fs : FileSystem} {data : Bytes}

/-- The held bytes that reach the file in a flush. -/
def flushed (s : FileSink) : Bytes := s.handle.taken s.held

/-- The bytes that reach the file while room is made. -/
def roomMade (s : FileSink) (n : Nat) : Bytes := if s.spare < n then s.flushed else []

/-- The bytes that reach the file during a write. -/
def delivered (s : FileSink) (data : Bytes) (fs : FileSystem) : Bytes :=
  if data.length < s.spare then []
  else
    s.roomMade data.length ++
      match s.makeRoom data.length fs with
      | (.ok (), roomy, _) => if sinkCapacity ≤ data.length then roomy.handle.taken data else []
      | (.error _, _, _) => []

/-- A flush loses nothing, not even if it fails. -/
theorem flushed_append (s : FileSink) (fs : FileSystem) :
    s.flushed ++ (s.flush fs).2.1.held = s.held := by
  unfold flush
  rcases hwrite : s.handle.write s.held fs with ⟨_ | _, h, after⟩
  · exact List.take_append_drop _ _
  · have hall : s.flushed = s.held := Handle.taken_of_ok (by rw [hwrite])
    rw [hall]
    exact List.append_nil _

theorem held_of_flush_ok (h : (s.flush fs).1 = .ok ()) : (s.flush fs).2.1.held = [] := by
  revert h
  unfold flush
  rcases s.handle.write s.held fs with ⟨_ | _, handle, after⟩
  · exact nofun
  · exact fun _ => rfl

theorem roomMade_append (s : FileSink) (n : Nat) (fs : FileSystem) :
    s.roomMade n ++ (s.makeRoom n fs).2.1.held = s.held := by
  unfold roomMade makeRoom
  split
  · exact s.flushed_append fs
  · rfl

/-- For a write as large as the buffer nothing is held back. -/
theorem held_of_makeRoom_ok {n : Nat} (hlarge : sinkCapacity ≤ n)
    (h : (s.makeRoom n fs).1 = .ok ()) : (s.makeRoom n fs).2.1.held = [] := by
  unfold makeRoom at h ⊢
  by_cases hn : s.spare < n
  · rw [if_pos hn] at h ⊢
    exact held_of_flush_ok h
  · rw [if_neg hn]
    have hpos : 0 < sinkCapacity := by decide
    unfold spare at hn
    show s.held = []
    exact List.eq_nil_of_length_eq_zero (by omega)

/-- As long as writing does not fail, what reaches the file and what is held are what was held and
written, in order. -/
theorem delivered_append (hok : (s.write data fs).1 = .ok ()) :
    s.delivered data fs ++ (s.write data fs).2.1.held = s.held ++ data := by
  unfold delivered
  unfold write at hok ⊢
  by_cases hsmall : data.length < s.spare
  · rw [if_pos hsmall, if_pos hsmall]
    rfl
  · rw [if_neg hsmall] at hok ⊢
    rw [if_neg hsmall]
    have hroom := s.roomMade_append data.length fs
    have hempty := @held_of_makeRoom_ok s fs data.length
    unfold writeThrough at hok ⊢
    generalize s.makeRoom data.length fs = made at hroom hempty hok ⊢
    rcases made with ⟨_ | _, roomy, after⟩
    · cases hok
    · simp only at hroom hempty hok ⊢
      by_cases hlarge : sinkCapacity ≤ data.length
      · -- past the buffer, in which nothing is left to be overtaken
        rw [if_pos hlarge] at hok ⊢
        rw [if_pos hlarge]
        have hall : roomy.handle.taken data = data := Handle.taken_of_ok hok
        rw [hempty hlarge trivial, List.append_nil] at hroom
        show _ ++ roomy.held = _
        rw [hall, hroom, hempty hlarge trivial, List.append_nil]
      · rw [if_neg hlarge, if_neg hlarge, List.append_nil, ← hroom, List.append_assoc]
        rfl

end FileSink

/-! ## Runs -/

namespace Request

theorem ok_of_refused {data : Bytes} {reply : Except IoError Unit}
    (h : (Request.print data).refused reply = []) : reply = .ok () := by
  rcases reply with e | _
  · exact nomatch h
  · rfl

/-- The bytes that are printed, taken or not. -/
def offered : Request → Bytes
  | .print data => data
  | _ => []

end Request

/-- The bytes that reach the file behind the output in the course of a request. -/
def World.delivered (w : World) (r : Request) : Bytes :=
  match w.output, r with
  | .file sink, .print data => sink.delivered data w.files
  | _, _ => []

theorem World.delivered_print {w : World} {sink : FileSink} (hout : w.output = .file sink)
    (data : Bytes) : w.delivered (.print data) = sink.delivered data w.files := by
  simp only [delivered, hout]

theorem World.delivered_of_ne_print {w : World} {r : Request} (h : ∀ data, r ≠ .print data) :
    w.delivered r = [] := by
  unfold delivered
  split
  · exact absurd rfl (h _)
  · rfl

namespace Action

variable {α : Type}

/-- The bytes that a run prints, taken or not. -/
def offered (a : Action α) (w : World) : Bytes := a.record (fun _ r => r.offered) w

/-- The bytes that reach the file behind the output during a run. -/
def delivered (a : Action α) (w : World) : Bytes := a.record World.delivered w

end Action

/-- Only printing changes the output. -/
theorem World.output_answer {w : World} {r : Request} (h : ∀ data, r ≠ .print data) :
    (w.answer r).2.output = w.output := by
  cases r with
  | print data => exact absurd rfl (h data)
  | readUntil b => exact (w.readUntil_frame b).1
  | confirm question => exact (w.confirm_frame question).1
  | _ => rfl

/-- One request keeps the balance of a sink, unless it is refused. -/
theorem World.delivered_answer {w : World} {sink : FileSink} (hout : w.output = .file sink)
    (r : Request) (hr : r.refused (w.answer r).1 = []) :
    ∃ later, (w.answer r).2.output = .file later
      ∧ w.delivered r ++ later.held = sink.held ++ r.offered := by
  by_cases hprint : ∃ data, r = .print data
  · obtain ⟨data, rfl⟩ := hprint
    have hanswer : w.answer (.print data)
        = ((sink.write data w.files).1, { w with
            output := .file (sink.write data w.files).2.1
            files := (sink.write data w.files).2.2 }) := by
      show w.print data = _
      rw [print, hout]
    have hok : (sink.write data w.files).1 = .ok () := by
      rw [hanswer] at hr
      exact Request.ok_of_refused hr
    refine ⟨(sink.write data w.files).2.1, by rw [hanswer], ?_⟩
    rw [delivered_print hout]
    exact FileSink.delivered_append hok
  · have hquiet : ∀ data, r ≠ .print data := fun data h => hprint ⟨data, h⟩
    refine ⟨sink, (output_answer hquiet).trans hout, ?_⟩
    rw [delivered_of_ne_print hquiet]
    cases r with
    | print data => exact absurd rfl (hquiet data)
    | _ => exact (List.append_nil _).symm

/-- Without a refusal everything was taken that was printed. -/
theorem Action.printed_eq_offered {α : Type} (a : Action α) {w : World}
    (hclean : a.refused w = []) : a.printed w = a.offered w := by
  induction a generalizing w with
  | done a => rfl
  | fail failure => rfl
  | panic message => rfl
  | request r next ih =>
    obtain ⟨hfirst, hrest⟩ := List.append_eq_nil_iff.mp hclean
    have htaken : r.taken (w.answer r).1 = r.offered := by
      cases r with
      | print data =>
        rw [Request.ok_of_refused hfirst]
        rfl
      | _ => rfl
    rw [printed_request, htaken, ih _ hrest]
    rfl

/-- A sink on a regular file refuses nothing. -/
theorem Action.refused_of_writesTo {α : Type} {a : Action α} {id : FileId}
    (ha : a.Asks Request.KeepsContents) {w : World} (hw : w.WritesTo id) : a.refused w = [] := by
  induction a generalizing w with
  | done a => rfl
  | fail failure => rfl
  | panic message => rfl
  | request r next ih =>
    refine List.append_eq_nil_iff.mpr ⟨?_, ih _ (ha.2 _) (World.answer_of_writesTo ha.1 hw).1⟩
    cases r with
    | print data =>
      show Request.refused (.print data) (w.print data).1 = []
      rw [(World.print_of_writesTo hw data).1]
      rfl
    | _ => rfl

/-- Without a refusal, what has reached the file and what is held are everything that was printed.
-/
theorem Action.run_delivered {α : Type} (a : Action α) {w : World} {sink : FileSink}
    (hout : w.output = .file sink) (hclean : a.refused w = []) :
    ∃ later, (a.run w).2.output = .file later
      ∧ a.delivered w ++ later.held = sink.held ++ a.offered w := by
  induction a generalizing w sink with
  | done a => exact ⟨sink, hout, (List.append_nil _).symm⟩
  | fail failure => exact ⟨sink, hout, (List.append_nil _).symm⟩
  | panic message => exact ⟨sink, hout, (List.append_nil _).symm⟩
  | request r next ih =>
    obtain ⟨hfirst, hrest⟩ := List.append_eq_nil_iff.mp hclean
    obtain ⟨between, houtput, hstep⟩ := World.delivered_answer hout r hfirst
    obtain ⟨later, hlater, hbalance⟩ := ih _ houtput hrest
    refine ⟨later, hlater, ?_⟩
    show w.delivered r ++ (next (w.answer r).1).delivered (w.answer r).2 ++ later.held
      = sink.held ++ (r.offered ++ (next (w.answer r).1).offered (w.answer r).2)
    rw [List.append_assoc, hbalance, ← List.append_assoc, hstep, List.append_assoc]

end LineShell
