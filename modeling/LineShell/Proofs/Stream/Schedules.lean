/-
Several sinks at once.

Whoever holds sinks opens, writes, flushes and closes them in any order, and each sink keeps a part
of what it was given for itself.  Which bytes have reached a file at some moment therefore depends
on the sizes of all writes so far, and the order of the bytes in the file is not the order of the
writes.  What can be said about it is kept as an account.  The bytes that the file has gained are
each tagged with the sink that they came from, and for every sink the bytes with its tag, followed
by the bytes that it still holds, are the bytes that were written to it (`Accounts`).

A single step keeps the account (`Accounts.step`).  A step on one sink gives the file the bytes
between what the sink held before and what it holds afterwards, and these come behind everything
that the file holds by then, whoever has written it: this is where appending differs from writing
at a remembered offset.  By induction a whole run keeps the account (`Accounts.run`), so the file
is always an interleaving of what the sinks have sent, and a sink that was flushed or closed has
sent everything (`appends_interleave`).
-/
import Mathlib.Data.List.Induction
import LineShell.Proofs.Files.Aside

set_option autoImplicit false

namespace LineShell

open LineShell.Text

/-! ## Interleavings -/

section Interleaving

variable {i j : Nat} {tagged : List (Nat × UInt8)}

/-- The bytes with one tag. -/
def fromStream (i : Nat) (tagged : List (Nat × UInt8)) : Bytes :=
  tagged.filterMap fun t => if t.1 = i then some t.2 else none

/-- Bytes that are put together from streams: each byte comes from one of them, and the bytes of
each stream are all there, in their order. -/
def Interleaves (streams : Nat → Bytes) (out : Bytes) : Prop :=
  ∃ tagged : List (Nat × UInt8), tagged.map Prod.snd = out ∧ ∀ i, fromStream i tagged = streams i

theorem fromStream_append (i : Nat) (tagged more : List (Nat × UInt8)) :
    fromStream i (tagged ++ more) = fromStream i tagged ++ fromStream i more :=
  List.filterMap_append

/-- Bytes of one stream that are sent in one go. -/
def tag (i : Nat) (data : Bytes) : List (Nat × UInt8) := data.map fun b => (i, b)

theorem map_snd_tag (i : Nat) (data : Bytes) : (tag i data).map Prod.snd = data := by
  rw [tag, List.map_map]
  exact List.map_id data

theorem fromStream_tag_self (i : Nat) (data : Bytes) : fromStream i (tag i data) = data := by
  rw [fromStream, tag, List.filterMap_map]
  have hall : ((fun t => if t.1 = i then some t.2 else none) ∘ fun b : UInt8 => (i, b)) = some :=
    funext fun _ => if_pos rfl
  rw [hall, List.filterMap_some]

theorem fromStream_tag_of_ne (h : i ≠ j) (data : Bytes) : fromStream j (tag i data) = [] := by
  rw [fromStream, tag, List.filterMap_map]
  exact List.filterMap_eq_nil_iff.mpr fun b _ => if_neg h

end Interleaving

/-! ## What opening keeps -/

namespace FileSystem

variable {fs after : FileSystem} {id : FileId} {p : Path} {mode : Redirection} {handle : Handle}

/-- Whatever is opened for writing, no file has other bytes than before. -/
theorem content_openForWriting {opened : Opened} (h : fs.openForWriting p = .ok (opened, after)) :
    (after.data id).content = (fs.data id).content := by
  obtain ⟨dir, n, -, -, -, ⟨-, -, rfl⟩ | ⟨_, -, -, rfl⟩ | ⟨_, -, -, rfl⟩⟩ := openForWriting_cases h
  · rcases Nat.lt_trichotomy id fs.files.length with hknown | rfl | hbeyond
    · rw [data_addFile hknown]
    · obtain ⟨-, hnew, hold⟩ := fs.addFile_new (n :: dir)
      rw [hnew, hold]
    · -- behind the new row the table has no rows, before and after
      have hold : fs.files[id]? = none := List.getElem?_eq_none (by omega)
      have hnew : (fs.addFile (n :: dir)).2.files[id]? = none := by
        apply List.getElem?_eq_none
        simp only [addFile, List.length_append, List.length_singleton]
        omega
      rw [data, data, List.getD_eq_getElem?_getD, List.getD_eq_getElem?_getD, hold, hnew]
  · rfl
  · rfl

/-- A target that opens empties no file but its own, and this one only for `>`. -/
theorem content_openTarget (hopen : fs.openTarget p mode = .ok (handle, after))
    (hspares : mode = .overwrite → fs.opens p id = false) :
    (after.data id).content = (fs.data id).content ∧ (fs.Knows id → after.Knows id) := by
  rcases openTarget_cases hopen with ⟨other, opened, hother, hmode⟩ | ⟨device, hdevice, -⟩
  · have hcontent := @content_openForWriting fs opened id p _ hother
    have hknows : fs.Knows id → opened.Knows id := fun h => (openForWriting_content hother h).1
    rcases hmode with ⟨hover, -, rfl⟩ | ⟨-, -, rfl⟩
    · have hne : other ≠ id := by
        have hopens := hspares hover
        unfold opens at hopens
        rw [hother] at hopens
        simpa using hopens
      rw [data_setContent_of_ne hne]
      exact ⟨hcontent, fun h => knows_setContent.mpr (hknows h)⟩
    · exact ⟨hcontent, hknows⟩
  · exact ⟨content_openForWriting hdevice, fun h => (openForWriting_content hdevice h).1⟩

/-- A handle on a file that was not opened for `>` appends to it. -/
theorem atEnd_of_openTarget (hsound : fs.Sound) (hopen : fs.openTarget p mode = .ok (handle, after))
    (hspares : mode = .overwrite → fs.opens p id = false) (hfile : handle.file? = some id) :
    handle = .atEnd id ∧ after.Knows id := by
  rcases openTarget_cases hopen with ⟨other, opened, hother, hmode⟩ | ⟨device, -, rfl⟩
  · rcases hmode with ⟨hover, rfl, -⟩ | ⟨-, rfl, rfl⟩
    · obtain rfl := Option.some.inj hfile
      have hopens := hspares hover
      unfold opens at hopens
      rw [hother] at hopens
      simp at hopens
    · obtain rfl := Option.some.inj hfile
      exact ⟨rfl, (content_of_openForWriting hsound.numbered hother).1⟩
  · exact nomatch hfile

end FileSystem

/-! ## What writing keeps -/

namespace Handle

variable {h : Handle} {id : FileId}

/-- A property that every write keeps that goes where this handle goes. -/
def Keeps (h : Handle) (P : FileSystem → Prop) : Prop :=
  ∀ (h' : Handle) (bytes : Bytes) (fs : FileSystem), h'.opening = h.opening → P fs →
    P (h'.write bytes fs).2.2

theorem keeps_sound (h : Handle) : h.Keeps FileSystem.Sound :=
  fun h' bytes _ _ hsound => hsound.write h' bytes

theorem keeps_knows (h : Handle) (id : FileId) : h.Keeps fun fs => fs.Knows id := by
  intro h' bytes fs _ hknown
  unfold write
  split
  · exact hknown
  · rcases h' with other | ⟨other, offset⟩ | d
    · exact FileSystem.knows_setContent.mpr hknown
    · exact FileSystem.knows_setContent.mpr hknown
    · rcases d with _ | _ | _ <;> exact hknown

/-- A file is left alone by writes to anything else. -/
theorem keeps_data (hne : h.file? ≠ some id) (d : FileData) : h.Keeps fun fs => fs.data id = d := by
  intro h' bytes fs hopening hdata
  rw [← file?_opening, ← hopening, file?_opening] at hne
  unfold write
  split
  · exact hdata
  · rcases h' with other | ⟨other, offset⟩ | d
    · have hother : other ≠ id := fun heq => hne (congrArg some heq)
      exact (FileSystem.data_setContent_of_ne hother _).trans hdata
    · have hother : other ≠ id := fun heq => hne (congrArg some heq)
      exact (FileSystem.data_setContent_of_ne hother _).trans hdata
    · rcases d with _ | _ | _ <;> exact hdata

theorem eq_atEnd_of_opening (h' : Handle) (hopening : h'.opening = .atEnd id) : h' = .atEnd id := by
  rcases h' with other | ⟨other, offset⟩ | (_ | _ | _)
  · exact hopening
  all_goals exact nomatch hopening

/-- A handle that appends does not touch what the file holds already. -/
theorem keeps_prefix (base : Bytes) :
    (Handle.atEnd id).Keeps fun fs => fs.Knows id ∧ base <+: (fs.data id).content := by
  rintro h' bytes fs hopening ⟨hknown, hprefix⟩
  rw [eq_atEnd_of_opening h' hopening]
  obtain ⟨_, after, hwrite, -, hafter, hcontent⟩ :=
    write_of_follows (.inl rfl) hknown bytes
  rw [hwrite]
  refine ⟨hafter, ?_⟩
  rw [hcontent]
  exact hprefix.trans (List.prefix_append _ _)

end Handle

namespace FileSink

variable {s : FileSink} {fs : FileSystem} {id : FileId} {P : FileSystem → Prop}

/-- A sink changes the files by writing to its handle, and in no other way. -/
theorem flush_keeps (hP : s.handle.Keeps P) (hfs : P fs) : P (s.flush fs).2.2 := by
  have hwritten : P (s.handle.write s.held fs).2.2 := hP _ _ _ rfl hfs
  unfold flush
  split <;> rename_i hwrite <;> rw [hwrite] at hwritten <;> exact hwritten

theorem makeRoom_keeps (hP : s.handle.Keeps P) (n : Nat) (hfs : P fs) :
    (s.makeRoom n fs).2.1.handle.opening = s.handle.opening ∧ P (s.makeRoom n fs).2.2 := by
  unfold makeRoom
  split
  · exact ⟨s.opening_flush fs, flush_keeps hP hfs⟩
  · exact ⟨rfl, hfs⟩

theorem write_keeps (hP : s.handle.Keeps P) (data : Bytes) (hfs : P fs) :
    P (s.write data fs).2.2 := by
  unfold write
  split
  · exact hfs
  · obtain ⟨hopening, hroomy⟩ := makeRoom_keeps hP data.length hfs
    unfold writeThrough
    rcases hroom : s.makeRoom data.length fs with ⟨_ | _, roomy, after⟩
    · rw [hroom] at hroomy
      exact hroomy
    · rw [hroom] at hopening hroomy
      simp only
      split
      · exact hP roomy.handle data after hopening hroomy
      · exact hroomy

/-- What a sink has done when it was given some bytes and did some writing. -/
structure Gives (s : FileSink) (fs : FileSystem) (data : Bytes) (later : FileSink)
    (after : FileSystem) : Prop where
  /-- It writes where it wrote before. -/
  opening : later.handle.opening = s.handle.opening
  /-- It has done nothing but write there. -/
  keeps : ∀ P : FileSystem → Prop, s.handle.Keeps P → P fs → P after
  /-- If it appends, the file has gained what the sink was given and does not hold any more. -/
  balance : ∀ id, s.handle = .atEnd id → fs.Knows id →
    ∃ out, (after.data id).content = (fs.data id).content ++ out
      ∧ out ++ later.held = s.held ++ data

theorem gives_write (s : FileSink) (fs : FileSystem) (data : Bytes) :
    s.Gives fs data (s.write data fs).2.1 (s.write data fs).2.2 := by
  refine ⟨s.opening_write data fs, fun P hP hfs => write_keeps hP data hfs, ?_⟩
  intro id hhandle hknown
  have hprefix : (fs.data id).content <+: ((s.write data fs).2.2.data id).content := by
    have hkeeps := @Handle.keeps_prefix id (fs.data id).content
    rw [← hhandle] at hkeeps
    exact (write_keeps hkeeps data ⟨hknown, List.prefix_refl _⟩).2
  obtain ⟨out, hout⟩ := hprefix
  obtain ⟨later, after, hwrite, -, howed⟩ := write_of_follows ⟨.inl hhandle, hknown⟩ data
  refine ⟨out, hout.symm, ?_⟩
  rw [hwrite] at hout ⊢
  rw [owed, owed, ← hout, List.append_assoc, List.append_assoc] at howed
  exact List.append_cancel_left howed

/-- After a flush a sink that appends holds nothing. -/
theorem held_flush (hhandle : s.handle = .atEnd id) (hknown : fs.Knows id) :
    (s.flush fs).2.1.held = [] := by
  obtain ⟨settled, after, hflush, -, hheld, -⟩ := flush_of_follows ⟨.inl hhandle, hknown⟩
  rw [hflush, hheld]

theorem gives_flush (s : FileSink) (fs : FileSystem) :
    s.Gives fs [] (s.flush fs).2.1 (s.flush fs).2.2 := by
  refine ⟨s.opening_flush fs, fun P hP hfs => flush_keeps hP hfs, ?_⟩
  intro id hhandle hknown
  obtain ⟨settled, after, hflush, -, hheld, hcontent⟩ := flush_of_follows ⟨.inl hhandle, hknown⟩
  refine ⟨s.held, ?_, ?_⟩
  · rw [hflush]
    exact hcontent
  · rw [hflush, hheld]

end FileSink

/-! ## Schedules -/

/-- A sink that somebody has opened. -/
structure SinkSlot where
  sink : FileSink
  /-- A closed sink keeps its place, so that the others keep their numbers. -/
  closed : Bool
  deriving DecidableEq, Repr

/-- The files, and the sinks on them in the order in which they were opened. -/
structure Sinks where
  files : FileSystem
  slots : List SinkSlot
  deriving DecidableEq, Repr

/-- What can be done with sinks. They go by their numbers. -/
inductive SinkStep where
  | open (p : Path) (mode : Redirection)
  | write (i : Nat) (data : Bytes)
  | flush (i : Nat)
  | close (i : Nat)
  deriving DecidableEq, Repr

namespace Sinks

/-- Does something with an open sink. -/
def use (s : Sinks) (i : Nat) (closed : Bool)
    (f : FileSink → FileSystem → FileSink × FileSystem) : Sinks :=
  match s.slots[i]? with
  | some ⟨sink, false⟩ =>
    let (sink, files) := f sink s.files
    ⟨files, s.slots.set i ⟨sink, closed⟩⟩
  -- there is none under this number, or it is closed
  | _ => s

/-- One step. A path that does not open gives no sink. -/
def step (s : Sinks) : SinkStep → Sinks
  | .open p mode =>
    match s.files.openSink p mode with
    | .ok (sink, files) => ⟨files, s.slots ++ [⟨sink, false⟩]⟩
    | .error _ => s
  | .write i data => s.use i false fun sink files => (sink.write data files).2
  | .flush i => s.use i false fun sink files => (sink.flush files).2
  | .close i => s.use i true fun sink files => ((sink.flush files).2.1, sink.close files)

/-- A sequence of steps. -/
def run (s : Sinks) (steps : List SinkStep) : Sinks := steps.foldl step s

/-- Whether there is an open sink under a number. -/
def isOpen (s : Sinks) (i : Nat) : Bool :=
  match s.slots[i]? with
  | some ⟨_, closed⟩ => !closed
  | none => false

/-- What a step writes to a sink. -/
def received (s : Sinks) (i : Nat) : SinkStep → Bytes
  | .write j data => if j = i ∧ s.isOpen i = true then data else []
  | _ => []

/-- The bytes that a sequence of steps writes to a sink, in order. -/
def stream (i : Nat) : Sinks → List SinkStep → Bytes
  | _, [] => []
  | s, x :: steps => s.received i x ++ stream i (s.step x) steps

/-- A sink on a regular file. -/
def OnFile (s : Sinks) (id : FileId) (i : Nat) : Prop :=
  ∃ slot, s.slots[i]? = some slot ∧ slot.sink.handle.file? = some id

/-- The bytes that a sink holds. -/
def held (s : Sinks) (i : Nat) : Bytes :=
  match s.slots[i]? with
  | some slot => slot.sink.held
  | none => []

/-- A step that does not open the file as the target of a `>`. -/
def spares (s : Sinks) (id : FileId) : SinkStep → Prop
  | .open p .overwrite => s.files.opens p id = false
  | _ => True

/-- A sequence of steps in which the file is not the target of a `>`. -/
def Spares (id : FileId) : Sinks → List SinkStep → Prop
  | _, [] => True
  | s, x :: steps => s.spares id x ∧ Spares id (s.step x) steps

/-- Every write to a sink is followed by a flush of this sink, or by its end. -/
def Settled (i : Nat) : List SinkStep → Prop
  | [] => True
  | .write j _ :: steps => (j = i → .flush i ∈ steps ∨ .close i ∈ steps) ∧ Settled i steps
  | _ :: steps => Settled i steps

end Sinks

/-! ## The account -/

/-- What a sink on a file has sent there and what it still holds are what was written to it, and a
closed one has sent everything. -/
structure SinkSlot.Accounts (slot : SinkSlot) (id : FileId) (sent written : Bytes) : Prop where
  appends : slot.sink.handle = .atEnd id
  balance : sent ++ slot.sink.held = written
  closed : slot.closed = true → slot.sink.held = []

namespace Sinks

/-- The account of a file: what it has gained, and what of this came from which sink. -/
structure Accounts (s : Sinks) (id : FileId) (base : Bytes) (tagged : List (Nat × UInt8))
    (written : Nat → Bytes) : Prop where
  sound : s.files.Sound
  /-- Everything that was gained stands behind what was there before. -/
  content : (s.files.data id).content = base ++ tagged.map Prod.snd
  slots : ∀ (i : Nat) (slot : SinkSlot), s.slots[i]? = some slot →
    slot.sink.handle.file? = some id →
    s.files.Knows id ∧ slot.Accounts id (fromStream i tagged) (written i)
  /-- Nothing came from anywhere else. -/
  others : ∀ i, ¬ s.OnFile id i → fromStream i tagged = []
  /-- Nothing was written to a sink before it was opened. -/
  unopened : ∀ i, s.slots[i]? = none → written i = []

variable {s : Sinks} {id : FileId} {base : Bytes} {tagged : List (Nat × UInt8)}
  {written : Nat → Bytes}

theorem accounts_start {fs : FileSystem} (hsound : fs.Sound) (id : FileId) :
    (Sinks.mk fs []).Accounts id (fs.data id).content [] fun _ => [] where
  sound := hsound
  content := (List.append_nil _).symm
  slots := nofun
  others _ _ := rfl
  unopened _ _ := rfl

/-! ### One step -/

theorem step_open {p : Path} {mode : Redirection} {handle : Handle} {after : FileSystem}
    (hopen : s.files.openTarget p mode = .ok (handle, after)) :
    s.step (.open p mode) = ⟨after, s.slots ++ [⟨⟨handle, []⟩, false⟩]⟩ := by
  have hsink : s.files.openSink p mode = .ok (⟨handle, []⟩, after) := by
    rw [FileSystem.openSink, hopen]
    rfl
  rw [step, hsink]

theorem step_open_error {p : Path} {mode : Redirection} {e : IoError}
    (hopen : s.files.openTarget p mode = .error e) : s.step (.open p mode) = s := by
  have hsink : s.files.openSink p mode = .error e := by
    rw [FileSystem.openSink, hopen]
    rfl
  rw [step, hsink]

theorem isOpen_of_slot {i : Nat} {slot : SinkSlot} (hslot : s.slots[i]? = some slot) :
    s.isOpen i = !slot.closed := by
  rw [isOpen, hslot]

/-- Doing something with a sink does it if there is an open one under the number. -/
theorem use_cases (s : Sinks) (i : Nat) :
    (s.isOpen i = false ∧ ∀ closed f, s.use i closed f = s)
      ∨ ∃ sink, s.slots[i]? = some ⟨sink, false⟩ ∧ s.isOpen i = true
        ∧ ∀ closed f, s.use i closed f
          = ⟨(f sink s.files).2, s.slots.set i ⟨(f sink s.files).1, closed⟩⟩ := by
  rcases hslot : s.slots[i]? with _ | ⟨sink, _ | _⟩
  · exact .inl ⟨by rw [isOpen, hslot], fun _ _ => by rw [use, hslot]⟩
  · exact .inr ⟨sink, rfl, isOpen_of_slot hslot, fun _ _ => by rw [use, hslot]⟩
  · exact .inl ⟨isOpen_of_slot hslot, fun _ _ => by rw [use, hslot]⟩

/-- The slots after something was done with one of them. -/
theorem getElem?_set_slot {i : Nat} {slot new : SinkSlot} (hslot : s.slots[i]? = some slot)
    (j : Nat) : (s.slots.set i new)[j]? = if j = i then some new else s.slots[j]? := by
  have hi : i < s.slots.length := (List.getElem?_eq_some_iff.mp hslot).1
  by_cases hj : j = i
  · rw [hj, if_pos rfl, List.getElem?_set_self hi]
  · rw [if_neg hj, List.getElem?_set_ne (Ne.symm hj)]

/-- What the file gains from one sink: the bytes that the sink was given or held and does not hold
any more. A sink on something else gives it nothing. -/
theorem Accounts.gain (h : s.Accounts id base tagged written) {i : Nat} {sink later : FileSink}
    {after : FileSystem} {data : Bytes} (hslot : s.slots[i]? = some ⟨sink, false⟩)
    (hgives : sink.Gives s.files data later after) :
    ∃ out, (after.data id).content = (s.files.data id).content ++ out
      ∧ (sink.handle.file? = some id → out ++ later.held = sink.held ++ data)
      ∧ (sink.handle.file? ≠ some id → out = []) := by
  by_cases hfile : sink.handle.file? = some id
  · obtain ⟨hknown, hslotAccounts⟩ := h.slots i _ hslot hfile
    obtain ⟨out, hcontent, hbalance⟩ := hgives.balance id hslotAccounts.appends hknown
    exact ⟨out, hcontent, fun _ => hbalance, fun hne => absurd hfile hne⟩
  · refine ⟨[], ?_, fun heq => absurd heq hfile, fun _ => rfl⟩
    rw [hgives.keeps _ (Handle.keeps_data hfile _) rfl, List.append_nil]

/-- A step on one sink keeps the account. -/
theorem Accounts.use (h : s.Accounts id base tagged written) {i : Nat} {sink later : FileSink}
    {after : FileSystem} {data : Bytes} {closed : Bool} (hslot : s.slots[i]? = some ⟨sink, false⟩)
    (hgives : sink.Gives s.files data later after)
    (hclosed : sink.handle.file? = some id → closed = true → later.held = []) :
    ∃ more, (Sinks.mk after (s.slots.set i ⟨later, closed⟩)).Accounts id base (tagged ++ more)
      fun j => written j ++ if j = i then data else [] := by
  obtain ⟨out, hcontent, hbalance, hnone⟩ := h.gain hslot hgives
  have hget := @getElem?_set_slot s i _ ⟨later, closed⟩ hslot
  have hfile : later.handle.file? = sink.handle.file? := by
    rw [← Handle.file?_opening, hgives.opening, Handle.file?_opening]
  refine ⟨tag i out, hgives.keeps _ sink.handle.keeps_sound h.sound, ?_, ?_, ?_, ?_⟩
  · rw [hcontent, h.content, List.map_append, map_snd_tag, List.append_assoc]
  · intro j slot hj hslotFile
    rw [hget] at hj
    by_cases hji : j = i
    · -- the sink itself
      subst hji
      rw [if_pos rfl] at hj
      obtain rfl := Option.some.inj hj
      rw [hfile] at hslotFile
      obtain ⟨hknown, hold⟩ := h.slots j _ hslot hslotFile
      refine ⟨hgives.keeps _ (sink.handle.keeps_knows id) hknown, ?_, ?_, hclosed hslotFile⟩
      · apply Handle.eq_atEnd_of_opening
        rw [hgives.opening, hold.appends]
        rfl
      · rw [if_pos rfl, fromStream_append, fromStream_tag_self, List.append_assoc,
          hbalance hslotFile, ← List.append_assoc, hold.balance]
    · -- another one, which has nothing to do with it
      rw [if_neg hji] at hj
      obtain ⟨hknown, hold⟩ := h.slots j slot hj hslotFile
      refine ⟨hgives.keeps _ (sink.handle.keeps_knows id) hknown, ?_⟩
      rw [if_neg hji, fromStream_append, fromStream_tag_of_ne (Ne.symm hji), List.append_nil,
        List.append_nil]
      exact hold
  · intro j hj
    have hold : ¬ s.OnFile id j := by
      rintro ⟨slot, hslotj, hslotFile⟩
      apply hj
      by_cases hji : j = i
      · subst hji
        rw [hslot] at hslotj
        obtain rfl := Option.some.inj hslotj
        exact ⟨⟨later, closed⟩, by rw [hget, if_pos rfl], hfile.trans hslotFile⟩
      · exact ⟨slot, by rw [hget, if_neg hji, hslotj], hslotFile⟩
    rw [fromStream_append, h.others j hold]
    by_cases hji : j = i
    · subst hji
      rw [hnone fun heq => hold ⟨_, hslot, heq⟩]
      rfl
    · rw [fromStream_tag_of_ne (Ne.symm hji)]
      rfl
  · intro j hj
    rw [hget] at hj
    by_cases hji : j = i
    · rw [if_pos hji] at hj
      exact nomatch hj
    · rw [if_neg hji] at hj
      rw [if_neg hji, h.unopened j hj, List.append_nil]

/-- Whether there is a sink to do something with or not. -/
theorem Accounts.useIfOpen (h : s.Accounts id base tagged written) (i : Nat) (closed : Bool)
    (f : FileSink → FileSystem → FileSink × FileSystem) (data : Bytes)
    (hgives : ∀ sink : FileSink, sink.Gives s.files data (f sink s.files).1 (f sink s.files).2)
    (hclosed : ∀ sink : FileSink, closed = true → sink.handle = .atEnd id → s.files.Knows id →
      (f sink s.files).1.held = []) :
    ∃ more, (s.use i closed f).Accounts id base (tagged ++ more)
      fun j => written j ++ if i = j ∧ s.isOpen j = true then data else [] := by
  rcases s.use_cases i with ⟨hclosed, hsame⟩ | ⟨sink, hslot, hopen, hdone⟩
  · have hnot : ∀ j, ¬ (i = j ∧ s.isOpen j = true) := by
      rintro j ⟨rfl, hopen⟩
      exact Bool.false_ne_true (hclosed.symm.trans hopen)
    refine ⟨[], ?_⟩
    simpa only [hsame, if_neg (hnot _), List.append_nil] using h
  · have hiff : ∀ j, (i = j ∧ s.isOpen j = true) ↔ j = i := by
      intro j
      constructor
      · exact fun hj => hj.1.symm
      · rintro rfl
        exact ⟨rfl, hopen⟩
    have hused := @Accounts.use _ _ _ _ _ h i sink _ _ data closed hslot (hgives sink)
      fun hfile hclose => hclosed sink hclose (h.slots i _ hslot hfile).2.appends
        (h.slots i _ hslot hfile).1
    simpa only [hdone, hiff] using hused

/-- A new sink keeps the account. -/
theorem Accounts.open (h : s.Accounts id base tagged written) {p : Path} {mode : Redirection}
    {handle : Handle} {after : FileSystem}
    (hopen : s.files.openTarget p mode = .ok (handle, after))
    (hspares : mode = .overwrite → s.files.opens p id = false) :
    (Sinks.mk after (s.slots ++ [⟨⟨handle, []⟩, false⟩])).Accounts id base tagged written := by
  obtain ⟨hcontent, hknows⟩ := FileSystem.content_openTarget hopen hspares
  refine ⟨h.sound.openTarget hopen, hcontent.trans h.content, ?_, ?_, ?_⟩
  · intro i slot hi hfile
    rw [List.getElem?_append] at hi
    split at hi
    · obtain ⟨hknown, hold⟩ := h.slots i slot hi hfile
      exact ⟨hknows hknown, hold⟩
    · rename_i hlength
      have hnew : s.slots[i]? = none := List.getElem?_eq_none (Nat.le_of_not_lt hlength)
      have hslot : slot = ⟨⟨handle, []⟩, false⟩ :=
        List.mem_singleton.mp (List.mem_of_getElem? hi)
      subst hslot
      obtain ⟨hatEnd, hknown⟩ := FileSystem.atEnd_of_openTarget h.sound hopen hspares hfile
      refine ⟨hknown, hatEnd, ?_, nofun⟩
      rw [h.unopened i hnew, h.others i, List.append_nil]
      rintro ⟨slot, hslot, -⟩
      rw [hnew] at hslot
      exact nomatch hslot
  · intro i hi
    apply h.others
    rintro ⟨slot, hslot, hfile⟩
    refine hi ⟨slot, ?_, hfile⟩
    rw [List.getElem?_append_left (List.getElem?_eq_some_iff.mp hslot).1, hslot]
  · intro i hi
    apply h.unopened
    rw [List.getElem?_eq_none_iff, List.length_append] at hi
    exact List.getElem?_eq_none (by omega)

/-- **Every step keeps the account.** -/
theorem Accounts.step (h : s.Accounts id base tagged written) {x : SinkStep}
    (hspares : s.spares id x) :
    ∃ more, (s.step x).Accounts id base (tagged ++ more) fun i => written i ++ s.received i x := by
  cases x with
  | «open» p mode =>
    refine ⟨[], ?_⟩
    simp only [received, List.append_nil]
    rcases hopen : s.files.openTarget p mode with e | ⟨handle, after⟩
    · rw [step_open_error hopen]
      exact h
    · rw [step_open hopen]
      apply h.open hopen
      rintro rfl
      exact hspares
  | write i data =>
    exact h.useIfOpen i false (fun sink files => (sink.write data files).2) data
      (fun sink => sink.gives_write s.files data) nofun
  | flush i =>
    obtain ⟨more, hmore⟩ := h.useIfOpen i false (fun sink files => (sink.flush files).2) []
      (fun sink => sink.gives_flush s.files) nofun
    simp only [ite_self] at hmore
    exact ⟨more, hmore⟩
  | close i =>
    obtain ⟨more, hmore⟩ := h.useIfOpen i true
      (fun sink files => ((sink.flush files).2.1, sink.close files)) []
      (fun sink => sink.gives_flush s.files)
      fun sink _ hatEnd hknown => FileSink.held_flush hatEnd hknown
    simp only [ite_self] at hmore
    exact ⟨more, hmore⟩

/-! ### Runs -/

/-- **A run keeps the account.** -/
theorem Accounts.run (h : s.Accounts id base tagged written) {steps : List SinkStep}
    (hspares : Spares id s steps) :
    ∃ more, (s.run steps).Accounts id base (tagged ++ more)
      fun i => written i ++ stream i s steps := by
  induction steps generalizing s tagged written with
  | nil => exact ⟨[], by simpa [Sinks.run, stream] using h⟩
  | cons x steps ih =>
    obtain ⟨first, hfirst⟩ := h.step hspares.1
    obtain ⟨rest, hrest⟩ := ih hfirst hspares.2
    refine ⟨first ++ rest, ?_⟩
    show ((s.step x).run steps).Accounts id base _ _
    simpa only [stream, List.append_assoc] using hrest

/-! ### Sinks at rest -/

/-- A sink on the file that holds nothing, if there is one under this number. -/
def AtRest (s : Sinks) (id : FileId) (i : Nat) : Prop :=
  ∀ slot : SinkSlot, s.slots[i]? = some slot → slot.sink.handle.file? = some id →
    slot.sink.held = []

theorem slots_use_of_ne {i j : Nat} (hne : i ≠ j) (closed : Bool)
    (f : FileSink → FileSystem → FileSink × FileSystem) :
    (s.use j closed f).slots[i]? = s.slots[i]? := by
  rcases s.use_cases j with ⟨-, hsame⟩ | ⟨sink, -, -, hdone⟩
  · rw [hsame]
  · rw [hdone]
    exact List.getElem?_set_ne (Ne.symm hne)

theorem AtRest.use_of_ne {i j : Nat} {closed : Bool}
    {f : FileSink → FileSystem → FileSink × FileSystem} (h : s.AtRest id i) (hne : i ≠ j) :
    (s.use j closed f).AtRest id i := by
  intro slot hi
  rw [slots_use_of_ne hne] at hi
  exact h slot hi

/-- A sink that was flushed, or closed, is at rest. -/
theorem Accounts.atRest_use (h : s.Accounts id base tagged written) {i : Nat} {closed : Bool}
    {f : FileSink → FileSystem → FileSink × FileSystem}
    (hf : ∀ sink : FileSink, (f sink s.files).1 = (sink.flush s.files).2.1) :
    (s.use i closed f).AtRest id i := by
  intro slot hi hfile
  rcases s.use_cases i with ⟨hclosed, hsame⟩ | ⟨sink, hslot, -, hdone⟩
  · rw [hsame] at hi
    rw [isOpen_of_slot hi, Bool.not_eq_false'] at hclosed
    exact (h.slots i slot hi hfile).2.closed hclosed
  · rw [hdone, getElem?_set_slot hslot, if_pos rfl] at hi
    obtain rfl := Option.some.inj hi
    simp only [hf] at hfile ⊢
    rw [← Handle.file?_opening, FileSink.opening_flush, Handle.file?_opening] at hfile
    obtain ⟨hknown, hold⟩ := h.slots i _ hslot hfile
    exact FileSink.held_flush hold.appends hknown

/-- Only a write to a sink can end its rest. -/
theorem Accounts.atRest_step (h : s.Accounts id base tagged written) {x : SinkStep} {i : Nat}
    (hx : ∀ data, x ≠ .write i data) (hrest : s.AtRest id i ∨ x = .flush i ∨ x = .close i) :
    (s.step x).AtRest id i := by
  cases x with
  | «open» p mode =>
    have hrest : s.AtRest id i := by simpa using hrest
    rcases hopen : s.files.openTarget p mode with e | ⟨handle, after⟩
    · rw [step_open_error hopen]
      exact hrest
    · rw [step_open hopen]
      intro slot hi hfile
      rw [List.getElem?_append] at hi
      split at hi
      · exact hrest slot hi hfile
      · rw [List.mem_singleton.mp (List.mem_of_getElem? hi)]
  | write j data =>
    have hrest : s.AtRest id i := by simpa using hrest
    apply hrest.use_of_ne
    rintro rfl
    exact hx data rfl
  | flush j =>
    by_cases hij : i = j
    · subst hij
      exact h.atRest_use fun _ => rfl
    · have hrest : s.AtRest id i := by simpa [Ne.symm hij] using hrest
      exact hrest.use_of_ne hij
  | close j =>
    by_cases hij : i = j
    · subst hij
      exact h.atRest_use fun _ => rfl
    · have hrest : s.AtRest id i := by simpa [Ne.symm hij] using hrest
      exact hrest.use_of_ne hij

theorem spares_append {steps more : List SinkStep} :
    Spares id s (steps ++ more) ↔ Spares id s steps ∧ Spares id (s.run steps) more := by
  induction steps generalizing s with
  | nil => simp [Spares, Sinks.run]
  | cons x steps ih =>
    rw [List.cons_append, Spares, Spares, ih, and_assoc]
    rfl

theorem not_settled_write (i : Nat) (data : Bytes) (steps : List SinkStep) :
    ¬ Settled i (steps ++ [.write i data]) := by
  induction steps with
  | nil => simp [Settled]
  | cons x steps ih =>
    cases x with
    | write j other => exact fun h => ih h.2
    | _ => exact ih

/-- The last step does not matter if it is no flush and no end. -/
theorem Settled.of_concat {i : Nat} {x : SinkStep} {steps : List SinkStep}
    (h : Settled i (steps ++ [x])) (hx : ¬ (x = .flush i ∨ x = .close i)) : Settled i steps := by
  rw [not_or] at hx
  induction steps with
  | nil => trivial
  | cons y steps ih =>
    cases y with
    | write j data =>
      refine ⟨fun hj => ?_, ih h.2⟩
      simpa [Ne.symm hx.1, Ne.symm hx.2] using h.1 hj
    | _ => exact ih h

/-- A sink whose writes are all followed by a flush, or by its end, is at rest. -/
theorem Accounts.atRest_run (h : s.Accounts id base tagged written) {steps : List SinkStep}
    {i : Nat} (hspares : Spares id s steps) (hstart : s.AtRest id i) (hsettled : Settled i steps) :
    (s.run steps).AtRest id i := by
  induction steps using List.reverseRecOn with
  | nil => exact hstart
  | append_singleton steps x ih =>
    obtain ⟨hbefore, -⟩ := spares_append.mp hspares
    obtain ⟨more, hmore⟩ := h.run hbefore
    have hrun : s.run (steps ++ [x]) = (s.run steps).step x := by
      rw [Sinks.run, List.foldl_append]
      rfl
    rw [hrun]
    apply hmore.atRest_step
    · rintro data rfl
      exact not_settled_write i data steps hsettled
    · by_cases hx : x = .flush i ∨ x = .close i
      · exact .inr hx
      · exact .inl (ih hbefore (hsettled.of_concat hx))

/-! ## The result -/

/-- **Sinks that append never lose each other's output.**  Sinks are opened, written to, flushed and
closed in any order, and those on one file are opened with `>>`, by whatever path.  At every moment
the file is what it was at first, followed by an interleaving of what its sinks have sent.  What a
sink has sent is the beginning of what was written to it, and it holds the rest; and once its last
write was followed by a flush, or by its end, it has sent everything. -/
theorem appends_interleave {fs : FileSystem} {id : FileId} {steps : List SinkStep}
    (hsound : fs.Sound) (hspares : Spares id ⟨fs, []⟩ steps) :
    ∃ (out : Bytes) (sent : Nat → Bytes),
      (((Sinks.mk fs []).run steps).files.data id).content = (fs.data id).content ++ out
        ∧ Interleaves sent out
        ∧ (∀ i, ((Sinks.mk fs []).run steps).OnFile id i →
          sent i <+: stream i ⟨fs, []⟩ steps
            ∧ sent i ++ ((Sinks.mk fs []).run steps).held i = stream i ⟨fs, []⟩ steps)
        ∧ (∀ i, ¬ ((Sinks.mk fs []).run steps).OnFile id i → sent i = [])
        ∧ ∀ i, ((Sinks.mk fs []).run steps).OnFile id i → Settled i steps →
          sent i = stream i ⟨fs, []⟩ steps := by
  obtain ⟨tagged, haccounts⟩ := (accounts_start hsound id).run hspares
  rw [List.nil_append] at haccounts
  have hbalance : ∀ i, ((Sinks.mk fs []).run steps).OnFile id i →
      fromStream i tagged ++ ((Sinks.mk fs []).run steps).held i = stream i ⟨fs, []⟩ steps := by
    rintro i ⟨slot, hslot, hfile⟩
    have hold := (haccounts.slots i slot hslot hfile).2.balance
    rw [held, hslot]
    exact hold
  refine ⟨tagged.map Prod.snd, fun i => fromStream i tagged, haccounts.content,
    ⟨tagged, rfl, fun _ => rfl⟩, fun i hi => ⟨⟨_, hbalance i hi⟩, hbalance i hi⟩,
    haccounts.others, ?_⟩
  intro i hi hsettled
  have hrest := (accounts_start hsound id).atRest_run hspares nofun hsettled
  have hheld : ((Sinks.mk fs []).run steps).held i = [] := by
    obtain ⟨slot, hslot, hfile⟩ := hi
    rw [held, hslot]
    exact hrest slot hslot hfile
  rw [← hbalance i hi, hheld, List.append_nil]

/-- A file and a link to it. -/
def sharedFiles : FileSystem :=
  .ofSeeds (.fresh (encode "r") [])
    [.file (Path.ofString "/r/f") (encode "x"), .link (Path.ofString "/r/g") (Path.ofString "f")]

/-- Two sinks on one file. The first is written to first and closed last. -/
def sharedSteps : List SinkStep :=
  [.open (Path.ofString "/r/f") .append, .open (Path.ofString "/r/g") .append,
    .write 0 (encode "ab"), .write 1 (encode "c"), .close 1, .close 0]

/-- What was written first stands behind what was written to the other sink, and nothing is lost. -/
theorem appends_interleave_shared :
    ((sharedFiles.data 0).content = encode "x"
        ∧ ((Sinks.run ⟨sharedFiles, []⟩ sharedSteps).files.data 0).content = encode "xcab")
      ∧ ∃ (out : Bytes) (sent : Nat → Bytes),
        ((Sinks.run ⟨sharedFiles, []⟩ sharedSteps).files.data 0).content
            = (sharedFiles.data 0).content ++ out
          ∧ Interleaves sent out ∧ sent 0 = encode "ab" ∧ sent 1 = encode "c" := by
  have hsound : sharedFiles.Sound :=
    FileSystem.sound_ofSeeds (FileSystem.sound_fresh (by decide +kernel)) _
  have hspares : Spares 0 ⟨sharedFiles, []⟩ sharedSteps :=
    ⟨trivial, trivial, trivial, trivial, trivial, trivial, trivial⟩
  have hfirst : (Sinks.run ⟨sharedFiles, []⟩ sharedSteps).OnFile 0 0 :=
    ⟨⟨⟨.atEnd 0, []⟩, true⟩, by decide +kernel, rfl⟩
  have hsecond : (Sinks.run ⟨sharedFiles, []⟩ sharedSteps).OnFile 0 1 :=
    ⟨⟨⟨.atEnd 0, []⟩, true⟩, by decide +kernel, rfl⟩
  have hsettled : Settled 0 sharedSteps ∧ Settled 1 sharedSteps := by
    simp [Settled, sharedSteps]
  obtain ⟨out, sent, hcontent, hinterleaves, -, -, hcomplete⟩ := appends_interleave hsound hspares
  refine ⟨by decide +kernel, out, sent, hcontent, hinterleaves, ?_, ?_⟩
  · rw [hcomplete 0 hfirst hsettled.1]
    decide +kernel
  · rw [hcomplete 1 hsecond hsettled.2]
    decide +kernel

end Sinks

end LineShell
