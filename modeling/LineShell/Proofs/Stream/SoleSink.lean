/-
A sink that is alone on its file.

As long as no other open sink writes to a file, the file and the sink on it have one account between
them: the bytes in the file, followed by the bytes that the sink holds, are what the redirection
left in the file, followed by everything that was written to the sink since.  Which of the three
routes a write takes, by its size and by the room that is left, moves bytes from one part of this
account to the other and changes nothing in their order (`Owes.write`).  The sink never holds more
than its buffer takes, and after a flush, or after its end, it holds nothing and the account is the
file.

Other sinks may be opened, written to and closed in the meantime.  What they do reaches neither the
file nor the sink (`Owes.use_other`).
-/
import LineShell.Proofs.Stream.Schedules

set_option autoImplicit false

namespace LineShell

open LineShell.Text

/-! ## How much a sink holds -/

namespace FileSink

variable {s : FileSink} {fs : FileSystem} {data : Bytes}

theorem length_held_flush (s : FileSink) (fs : FileSystem) :
    (s.flush fs).2.1.held.length ≤ s.held.length := by
  unfold flush
  split
  · exact Nat.zero_le _
  · exact List.length_drop ▸ Nat.sub_le _ _

/-- Where there was no room for some bytes, there is room for as many as the buffer takes. -/
theorem length_held_makeRoom {n : Nat} (hn : n < sinkCapacity) (hs : s.held.length ≤ sinkCapacity)
    (hok : (s.makeRoom n fs).1 = .ok ()) :
    (s.makeRoom n fs).2.1.held.length + n ≤ sinkCapacity := by
  unfold makeRoom at hok ⊢
  split
  · rename_i hspare
    rw [if_pos hspare, flush] at hok
    rw [flush]
    split
    · show ([] : Bytes).length + n ≤ sinkCapacity
      rw [List.length_nil]
      omega
    · rename_i hwrite
      rw [hwrite] at hok
      cases hok
  · rename_i hspare
    unfold spare at hspare
    show s.held.length + n ≤ sinkCapacity
    omega

/-- A sink never holds more than its buffer takes, whether or not a write fails. -/
theorem length_held_write (hs : s.held.length ≤ sinkCapacity) (data : Bytes) (fs : FileSystem) :
    (s.write data fs).2.1.held.length ≤ sinkCapacity := by
  unfold write
  split
  · rename_i hsmall
    unfold spare at hsmall
    show (s.held ++ data).length ≤ sinkCapacity
    rw [List.length_append]
    omega
  · have hroom : (s.makeRoom data.length fs).2.1.held.length ≤ sinkCapacity := by
      unfold makeRoom
      split
      · exact Nat.le_trans (length_held_flush s fs) hs
      · exact hs
    have hfits := fun hn => @length_held_makeRoom s fs data.length hn hs
    unfold writeThrough
    rcases hmade : s.makeRoom data.length fs with ⟨_ | _, roomy, after⟩
    · rw [hmade] at hroom
      exact hroom
    · rw [hmade] at hroom hfits
      simp only
      split
      · exact hroom
      · rename_i hsmall
        show (roomy.held ++ data).length ≤ sinkCapacity
        rw [List.length_append]
        exact hfits (Nat.lt_of_not_le hsmall) rfl

end FileSink

/-! ## What opening does to a file -/

namespace FileSystem

variable {fs after : FileSystem} {id : FileId} {p : Path} {mode : Redirection} {handle : Handle}

/-- Whatever else is opened, a file stays as it is. -/
theorem data_openTarget (hopen : fs.openTarget p mode = .ok (handle, after)) (hknown : fs.Knows id)
    (hopens : fs.opens p id = false) : after.data id = fs.data id ∧ after.Knows id := by
  rcases openTarget_cases hopen with ⟨other, opened, hother, hmode⟩ | ⟨device, hdevice, -⟩
  · obtain ⟨hafter, hdata⟩ := openForWriting_content hother hknown
    have hne : other ≠ id := by
      unfold opens at hopens
      rw [hother] at hopens
      simpa using hopens
    rcases hmode with ⟨-, -, rfl⟩ | ⟨-, -, rfl⟩
    · exact ⟨(data_setContent_of_ne hne _).trans hdata, knows_setContent.mpr hafter⟩
    · exact ⟨hdata, hafter⟩
  · exact (openForWriting_content hdevice hknown).symm

/-- A path that opens a regular file opens it as the target of either redirection. -/
theorem openTarget_of_opens (hopens : fs.opens p id = true) (mode : Redirection) :
    ∃ handle after, fs.openTarget p mode = .ok (handle, after) ∧ handle.file? = some id := by
  unfold opens at hopens
  split at hopens
  · rename_i other opened hopen
    obtain rfl := beq_iff_eq.mp hopens
    rw [openTarget, hopen]
    cases mode with
    | overwrite => exact ⟨_, _, rfl, rfl⟩
    | append => exact ⟨_, _, rfl, rfl⟩
  · exact nomatch hopens

end FileSystem

/-! ## The account of one sink -/

/-- A sink on a file with the account of the two: what is in the file and what the sink holds. A
closed sink holds nothing. -/
structure SinkSlot.Owes (slot : SinkSlot) (fs : FileSystem) (id : FileId) (account : Bytes) :
    Prop where
  follows : slot.sink.Follows fs id
  owed : slot.sink.owed fs id = account
  bounded : slot.sink.held.length ≤ sinkCapacity
  closed : slot.closed = true → slot.sink.held = []

/-- Where the file is the same, so is the account. -/
theorem SinkSlot.Owes.of_data {slot : SinkSlot} {fs after : FileSystem} {id : FileId}
    {account : Bytes} (h : slot.Owes fs id account) (hdata : after.data id = fs.data id)
    (hknows : fs.Knows id → after.Knows id) : slot.Owes after id account where
  follows := ⟨by rw [Handle.Follows, hdata]; exact h.follows.handle, hknows h.follows.known⟩
  owed := by rw [FileSink.owed, hdata]; exact h.owed
  bounded := h.bounded
  closed := h.closed

/-- What is written to the sink is added to the account. -/
theorem SinkSlot.Owes.write {sink : FileSink} {fs : FileSystem} {id : FileId} {account : Bytes}
    {closed : Bool} (h : SinkSlot.Owes ⟨sink, closed⟩ fs id account) (data : Bytes) :
    SinkSlot.Owes ⟨(sink.write data fs).2.1, false⟩ (sink.write data fs).2.2 id
      (account ++ data) := by
  have hbounded := FileSink.length_held_write h.bounded data fs
  obtain ⟨later, after, hwrite, hfollows, howed⟩ := FileSink.write_of_follows h.follows data
  rw [hwrite] at hbounded ⊢
  exact ⟨hfollows, howed.trans (congrArg (· ++ data) h.owed), hbounded, nofun⟩

/-- A flush leaves the account as it is and moves all of it to the file. -/
theorem SinkSlot.Owes.flush {sink : FileSink} {fs : FileSystem} {id : FileId} {account : Bytes}
    {closed : Bool} (h : SinkSlot.Owes ⟨sink, closed⟩ fs id account) (ending : Bool) :
    SinkSlot.Owes ⟨(sink.flush fs).2.1, ending⟩ (sink.flush fs).2.2 id account
      ∧ ((sink.flush fs).2.2.data id).content = account := by
  obtain ⟨settled, after, hflush, hfollows, hheld, hcontent⟩ := FileSink.flush_of_follows h.follows
  have hall : (after.data id).content = account := hcontent.trans h.owed
  rw [hflush]
  refine ⟨⟨hfollows, ?_, ?_, fun _ => hheld⟩, hall⟩
  · rw [FileSink.owed, hheld, List.append_nil, hall]
  · rw [hheld]
    exact Nat.zero_le _

namespace Sinks

/-- The sink with number `i` is the only one that can write to the file, and this is the account of
the two. -/
structure Owes (s : Sinks) (id : FileId) (i : Nat) (account : Bytes) : Prop where
  slot : ∃ slot, s.slots[i]? = some slot ∧ slot.Owes s.files id account
  alone : ∀ j, s.OnFile id j → s.isOpen j = true → j = i

/-- A step that does not open the file. -/
def avoids (s : Sinks) (id : FileId) : SinkStep → Prop
  | .open p _ => s.files.opens p id = false
  | _ => True

/-- A sequence of steps that do not open the file. -/
def Avoids (id : FileId) : Sinks → List SinkStep → Prop
  | _, [] => True
  | s, x :: steps => s.avoids id x ∧ Avoids id (s.step x) steps

/-- A step that is not a step on the sink with number `i`. -/
def Passes (i : Nat) : SinkStep → Prop
  | .open _ _ => True
  | .write j _ => j ≠ i
  | .flush j => j ≠ i
  | .close j => j ≠ i

variable {s : Sinks} {id : FileId} {i j : Nat} {account data : Bytes}

/-! ### Another sink -/

/-- A sink is on the file that it was on, and none is opened by being used. -/
theorem alone_use {closed : Bool} {f : FileSink → FileSystem → FileSink × FileSystem}
    (h : ∀ k, s.OnFile id k → s.isOpen k = true → k = i)
    (hopening : ∀ sink, (f sink s.files).1.handle.opening = sink.handle.opening) :
    ∀ k, (s.use j closed f).OnFile id k → (s.use j closed f).isOpen k = true → k = i := by
  intro k hfile hopen
  by_cases hkj : k = j
  · subst hkj
    rcases s.use_cases k with ⟨-, hsame⟩ | ⟨sink, hslot, hstill, hdone⟩
    · rw [hsame] at hfile hopen
      exact h k hfile hopen
    · obtain ⟨slot, hk, hslotFile⟩ := hfile
      rw [hdone, getElem?_set_slot hslot, if_pos rfl] at hk
      obtain rfl := Option.some.inj hk
      rw [← Handle.file?_opening, hopening, Handle.file?_opening] at hslotFile
      exact h k ⟨_, hslot, hslotFile⟩ hstill
  · obtain ⟨slot, hk, hslotFile⟩ := hfile
    rw [slots_use_of_ne hkj] at hk
    rw [isOpen, slots_use_of_ne hkj] at hopen
    exact h k ⟨slot, hk, hslotFile⟩ hopen

/-- What is done with another sink reaches neither the file nor the sink on it. -/
theorem Owes.use_other {closed : Bool} {f : FileSink → FileSystem → FileSink × FileSystem}
    (h : s.Owes id i account) (hne : j ≠ i)
    (hgives : ∀ sink : FileSink,
      ∃ data, sink.Gives s.files data (f sink s.files).1 (f sink s.files).2) :
    ((s.use j closed f).files.data id = s.files.data id
        ∧ (s.use j closed f).slots[i]? = s.slots[i]?)
      ∧ (s.use j closed f).Owes id i account := by
  have hslots := @slots_use_of_ne s i j hne.symm closed f
  have hfiles : (s.use j closed f).files.data id = s.files.data id
      ∧ (s.files.Knows id → (s.use j closed f).files.Knows id) := by
    rcases s.use_cases j with ⟨-, hsame⟩ | ⟨sink, hslot, hstill, hdone⟩
    · rw [hsame]
      exact ⟨rfl, fun hknown => hknown⟩
    · have hfile : sink.handle.file? ≠ some id := by
        intro hfile
        exact hne (h.alone j ⟨_, hslot, hfile⟩ hstill)
      obtain ⟨data, hgives⟩ := hgives sink
      rw [hdone]
      exact ⟨hgives.keeps _ (Handle.keeps_data hfile _) rfl,
        hgives.keeps _ (sink.handle.keeps_knows id)⟩
  obtain ⟨slot, hslot, howes⟩ := h.slot
  refine ⟨⟨hfiles.1, hslots⟩, ⟨slot, hslots.trans hslot, howes.of_data hfiles.1 hfiles.2⟩, ?_⟩
  apply alone_use h.alone
  intro sink
  obtain ⟨data, hgives⟩ := hgives sink
  exact hgives.opening

/-- An open sink on the file was there before a sink was opened, or is the one that was opened. -/
theorem onFile_of_concat {after : FileSystem} {new : SinkSlot} {k : Nat}
    (hfile : (Sinks.mk after (s.slots ++ [new])).OnFile id k)
    (hopen : (Sinks.mk after (s.slots ++ [new])).isOpen k = true) :
    (s.OnFile id k ∧ s.isOpen k = true)
      ∨ (k = s.slots.length ∧ new.sink.handle.file? = some id) := by
  obtain ⟨slot, hslot, hslotFile⟩ := hfile
  rw [isOpen_of_slot hslot] at hopen
  rcases Nat.lt_or_ge k s.slots.length with hk | hk
  · simp only [List.getElem?_append_left hk] at hslot
    exact .inl ⟨⟨slot, hslot, hslotFile⟩, (isOpen_of_slot hslot).trans hopen⟩
  · simp only [List.getElem?_append_right hk] at hslot
    have hlast : k - s.slots.length < 1 := (List.getElem?_eq_some_iff.mp hslot).1
    obtain rfl := List.mem_singleton.mp (List.mem_of_getElem? hslot)
    exact .inr ⟨by omega, hslotFile⟩

/-- Opening another file does not reach them either. -/
theorem Owes.open_other (h : s.Owes id i account) {p : Path} {mode : Redirection}
    (hopens : s.files.opens p id = false) :
    ((s.step (.open p mode)).files.data id = s.files.data id
        ∧ (s.step (.open p mode)).slots[i]? = s.slots[i]?)
      ∧ (s.step (.open p mode)).Owes id i account := by
  rcases hopen : s.files.openTarget p mode with e | ⟨handle, after⟩
  · rw [step_open_error hopen]
    exact ⟨⟨rfl, rfl⟩, h⟩
  · rw [step_open hopen]
    obtain ⟨slot, hslot, howes⟩ := h.slot
    have hi : i < s.slots.length := (List.getElem?_eq_some_iff.mp hslot).1
    obtain ⟨hdata, hknows⟩ := FileSystem.data_openTarget hopen howes.follows.known hopens
    refine ⟨⟨hdata, List.getElem?_append_left hi⟩, ⟨slot, ?_, ?_⟩, ?_⟩
    · rw [List.getElem?_append_left hi, hslot]
    · exact howes.of_data hdata fun _ => hknows
    · intro k hfile hstill
      rcases onFile_of_concat hfile hstill with ⟨hbefore, hopenBefore⟩ | ⟨-, hnew⟩
      · exact h.alone k hbefore hopenBefore
      · exact absurd hnew (FileSystem.file?_of_opens hopen hopens)

/-! ### The sink itself -/

/-- What is done with the sink itself changes its account and nothing in its being alone. -/
theorem Owes.use_self {sink : FileSink} {closed : Bool} {later : Bytes}
    {f : FileSink → FileSystem → FileSink × FileSystem} (h : s.Owes id i account)
    (hslot : s.slots[i]? = some ⟨sink, false⟩)
    (hlater : SinkSlot.Owes ⟨(f sink s.files).1, closed⟩ (f sink s.files).2 id later)
    (hopening : ∀ sink, (f sink s.files).1.handle.opening = sink.handle.opening) :
    (s.use i closed f).Owes id i later := by
  refine ⟨⟨⟨(f sink s.files).1, closed⟩, ?_, ?_⟩, alone_use h.alone hopening⟩
  · simp only [use, hslot, getElem?_set_slot hslot, if_true]
  · simpa only [use, hslot] using hlater

/-- The sink is open, or nothing happens to it. -/
theorem Owes.open_or_closed (h : s.Owes id i account) :
    (∃ sink, s.slots[i]? = some ⟨sink, false⟩ ∧ s.isOpen i = true
        ∧ SinkSlot.Owes ⟨sink, false⟩ s.files id account)
      ∨ (s.isOpen i = false ∧ (∀ closed f, s.use i closed f = s)
        ∧ (s.files.data id).content = account) := by
  obtain ⟨slot, hslot, howes⟩ := h.slot
  rcases s.use_cases i with ⟨hclosed, hsame⟩ | ⟨sink, hopenSlot, hopen, -⟩
  · have hheld : slot.sink.held = [] := by
      apply howes.closed
      rwa [isOpen_of_slot hslot, Bool.not_eq_false'] at hclosed
    refine .inr ⟨hclosed, hsame, ?_⟩
    rw [← howes.owed, FileSink.owed, hheld, List.append_nil]
  · rw [hopenSlot] at hslot
    obtain rfl := Option.some.inj hslot
    exact .inl ⟨sink, hopenSlot, hopen, howes⟩

/-- Every write to the sink is added to its account. -/
theorem Owes.write (h : s.Owes id i account) (data : Bytes) :
    (s.step (.write i data)).Owes id i (account ++ s.received i (.write i data)) := by
  rcases h.open_or_closed with ⟨sink, hslot, hopen, howes⟩ | ⟨hclosed, hsame, -⟩
  · rw [received, if_pos ⟨rfl, hopen⟩]
    exact h.use_self (f := fun sink files => (sink.write data files).2) hslot (howes.write data)
      fun other => other.opening_write data s.files
  · rw [received, if_neg (by simp [hclosed]), List.append_nil, step, hsame]
    exact h

/-- After a flush of the sink, or after its end, the account is what the file holds. -/
theorem Owes.settle {x : SinkStep} (h : s.Owes id i account) (hx : x = .flush i ∨ x = .close i) :
    (s.step x).Owes id i account ∧ ((s.step x).files.data id).content = account := by
  rcases h.open_or_closed with ⟨sink, hslot, -, howes⟩ | ⟨-, hsame, hall⟩
  · rcases hx with rfl | rfl
    · obtain ⟨hlater, hall⟩ := howes.flush false
      refine ⟨h.use_self (f := fun sink files => (sink.flush files).2) hslot hlater
        fun other => other.opening_flush s.files, ?_⟩
      simpa only [step, use, hslot] using hall
    · obtain ⟨hlater, hall⟩ := howes.flush true
      refine ⟨h.use_self (f := fun sink files => ((sink.flush files).2.1, sink.close files)) hslot
        hlater fun other => other.opening_flush s.files, ?_⟩
      simpa only [step, use, hslot, FileSink.close] using hall
  · have hstep : s.step x = s := by
      rcases hx with rfl | rfl
      · rw [step, hsame]
      · rw [step, hsame]
    rw [hstep]
    exact ⟨h, hall⟩

/-! ### Steps and runs -/

/-- A step on another sink reaches neither the file nor the sink on it, and keeps the account. -/
theorem Owes.pass {x : SinkStep} (h : s.Owes id i account) (havoids : s.avoids id x)
    (hpasses : Passes i x) :
    ((s.step x).files.data id = s.files.data id ∧ (s.step x).slots[i]? = s.slots[i]?)
      ∧ (s.step x).Owes id i account := by
  cases x with
  | «open» p mode => exact h.open_other havoids
  | write j data => exact h.use_other hpasses fun sink => ⟨data, sink.gives_write s.files data⟩
  | flush j => exact h.use_other hpasses fun sink => ⟨[], sink.gives_flush s.files⟩
  | close j => exact h.use_other hpasses fun sink => ⟨[], sink.gives_flush s.files⟩

theorem received_of_passes {x : SinkStep} (hpasses : Passes i x) : s.received i x = [] := by
  cases x with
  | write j data => exact if_neg fun h => hpasses h.1
  | _ => rfl

/-- **Every step adds to the account what it writes to the sink**, whichever way the bytes take. -/
theorem Owes.step {x : SinkStep} (h : s.Owes id i account) (havoids : s.avoids id x) :
    (s.step x).Owes id i (account ++ s.received i x) := by
  by_cases hpasses : Passes i x
  · rw [received_of_passes hpasses, List.append_nil]
    exact (h.pass havoids hpasses).2
  · cases x with
    | «open» p mode => exact absurd trivial hpasses
    | write j data =>
      obtain rfl := Decidable.of_not_not hpasses
      exact h.write data
    | flush j =>
      obtain rfl := Decidable.of_not_not hpasses
      simpa only [received, List.append_nil] using (h.settle (.inl rfl)).1
    | close j =>
      obtain rfl := Decidable.of_not_not hpasses
      simpa only [received, List.append_nil] using (h.settle (.inr rfl)).1

/-- **A run adds to the account everything that was written to the sink.** -/
theorem Owes.run {steps : List SinkStep} (h : s.Owes id i account) (havoids : Avoids id s steps) :
    (s.run steps).Owes id i (account ++ stream i s steps) := by
  induction steps generalizing s account with
  | nil =>
    rw [stream, List.append_nil]
    exact h
  | cons x steps ih =>
    rw [stream, ← List.append_assoc]
    exact ih (h.step havoids.1) havoids.2

/-! ### The beginning -/

/-- A file that no open sink is on, opened by a redirection, has a sink of its own from then on. The
account begins with what the redirection leaves of the file. -/
theorem owes_open {p : Path} {mode : Redirection} (hnumbered : s.files.Numbered)
    (hopens : s.files.opens p id = true) (hunused : ∀ j, s.OnFile id j → s.isOpen j = false) :
    (s.step (.open p mode)).Owes id s.slots.length (s.files.keptBy mode id) := by
  obtain ⟨handle, after, hopen, hfile⟩ := FileSystem.openTarget_of_opens hopens mode
  obtain ⟨hfollows, howed⟩ := FileSink.follows_of_openTarget hnumbered hopen hfile
  rw [step_open hopen]
  refine ⟨⟨⟨⟨handle, []⟩, false⟩, List.getElem?_concat_length, ?_⟩, ?_⟩
  · exact ⟨hfollows, howed, Nat.zero_le _, fun _ => rfl⟩
  · intro k hfileK hopenK
    rcases onFile_of_concat hfileK hopenK with ⟨hbefore, hopenBefore⟩ | ⟨hk, -⟩
    · rw [hunused k hbefore] at hopenBefore
      exact absurd hopenBefore Bool.false_ne_true
    · exact hk

/-! ## The result -/

/-- A sink and its file that together hold the given bytes, and are disturbed by no other sink. -/
structure Balances (s : Sinks) (id : FileId) (i : Nat) (account : Bytes) : Prop where
  balance : (s.files.data id).content ++ s.held i = account
  bounded : (s.held i).length ≤ sinkCapacity
  /-- After a flush, or after the end of the sink, the file holds all of them. -/
  settles : ∀ x, x = .flush i ∨ x = .close i → ((s.step x).files.data id).content = account
  /-- What happens to other files and to the sinks on them happens neither to this file nor to this
  sink. -/
  undisturbed : ∀ x, s.avoids id x → Passes i x →
    (s.step x).files.data id = s.files.data id ∧ (s.step x).slots[i]? = s.slots[i]?

theorem Owes.balances (h : s.Owes id i account) : s.Balances id i account where
  balance := by
    obtain ⟨slot, hslot, howes⟩ := h.slot
    rw [held, hslot]
    exact howes.owed
  bounded := by
    obtain ⟨slot, hslot, howes⟩ := h.slot
    rw [held, hslot]
    exact howes.bounded
  settles _ hx := (h.settle hx).2
  undisturbed _ havoids hpasses := (h.pass havoids hpasses).1

/-- **A sink that is alone on its file loses nothing and keeps the order.**  A path that opens a
regular file is opened for either kind of redirection, and from then on sinks are opened, written
to, flushed and closed in any order, with writes of any size, but the file is not opened again.  At
every moment the file and what the sink holds are together what the redirection has left of the
file, followed by everything that was written to the sink. -/
theorem sole_sink_loses_nothing {p : Path} {mode : Redirection} {steps : List SinkStep}
    (hsound : s.files.Sound) (hopens : s.files.opens p id = true)
    (hunused : ∀ j, s.OnFile id j → s.isOpen j = false)
    (havoids : Avoids id (s.step (.open p mode)) steps) :
    ((s.step (.open p mode)).run steps).Balances id s.slots.length
      (s.files.keptBy mode id ++ stream s.slots.length (s.step (.open p mode)) steps) :=
  ((owes_open hsound.numbered hopens hunused).run havoids).balances

/-- A sink on a file, used before and after a flush, and a sink on another file in between. -/
def soleSteps : List SinkStep :=
  [.write 0 (encode "ab"), .open (Path.ofString "/r/h") .overwrite, .write 1 (encode "c"), .flush 0,
    .write 0 (encode "d")]

/-- The file holds what was flushed, and the sink holds the rest. -/
theorem sole_sink_loses_nothing_flushed :
    let later :=
      ((Sinks.mk sharedFiles []).step (.open (Path.ofString "/r/f") .append)).run soleSteps
    ((later.files.data 0).content = encode "xab" ∧ later.held 0 = encode "d")
      ∧ later.Balances 0 0 (encode "xabd") := by
  have hsound : sharedFiles.Sound :=
    FileSystem.sound_ofSeeds (FileSystem.sound_fresh (by decide +kernel)) _
  have hopens : sharedFiles.opens (Path.ofString "/r/f") 0 = true := by decide +kernel
  have hunused : ∀ j, (Sinks.mk sharedFiles []).OnFile 0 j →
      (Sinks.mk sharedFiles []).isOpen j = false := by
    rintro j ⟨slot, hslot, -⟩
    exact nomatch hslot
  have havoids : Avoids 0 ((Sinks.mk sharedFiles []).step (.open (Path.ofString "/r/f") .append))
      soleSteps :=
    ⟨trivial, by rw [avoids]; decide +kernel, trivial, trivial, trivial, trivial⟩
  refine ⟨by decide +kernel, ?_⟩
  have haccount : sharedFiles.keptBy .append 0
      ++ stream 0 ((Sinks.mk sharedFiles []).step (.open (Path.ofString "/r/f") .append)) soleSteps
        = encode "xabd" := by decide +kernel
  rw [← haccount]
  exact sole_sink_loses_nothing hsound hopens hunused havoids

end Sinks

end LineShell
