/-
What a move leaves behind.

A regular file that is moved should stand where the target's entry was, and nothing else
should have changed (`Placed`).  A rename does that.  A copy does it only if the target's entry is a
regular file or none: a link at the target stays, and the bytes go where it leads
(`Transferred.placed_iff`).

No bytes should be lost, and there are three ways to lose them (`Clobbers`).  A link
may be renamed onto the very file that it leads to.  A copy may have a target that leads back to the
source, which is emptied before it is read.  And a copy may have a target that leads to a device,
after which the source is removed.  Then the bytes are left only if another file happens to
hold the same (`Transferred.holds_iff`).
-/
import LineShell.Proofs.Files.Transfer

set_option autoImplicit false

namespace LineShell

namespace FileSystem

variable {fs after mid : FileSystem} {target : Path} {S T l k : Location} {id other : FileId}
  {opened : Opened} {content : Bytes}

/-! ## What is looked at -/

/-- A regular file with the given bytes stands at a location. -/
def HoldsAt (fs : FileSystem) (l : Location) (content : Bytes) : Prop :=
  ∃ id, fs.node? l = some (.file id) ∧ (fs.data id).content = content

/-- A location looks as it did before: the same node, and the same bytes if it is a file. -/
def SameAt (fs after : FileSystem) (l : Location) : Prop :=
  after.node? l = fs.node? l
    ∧ ∀ id, fs.node? l = some (.file id) → (after.data id).content = (fs.data id).content

/-- The entry `S` has become the entry `T`, a regular file with the given bytes, and nothing else
has changed. -/
structure Placed (fs after : FileSystem) (S T : Location) (content : Bytes) : Prop where
  target : after.HoldsAt T content
  source : S ≠ T → after.node? S = none
  others : ∀ l, l ≠ S → l ≠ T → fs.SameAt after l

theorem SameAt.holdsAt (h : fs.SameAt after l) :
    after.HoldsAt l content ↔ fs.HoldsAt l content := by
  obtain ⟨hnode, hcontent⟩ := h
  refine ⟨fun ⟨id, hfile, hbytes⟩ => ?_, fun ⟨id, hfile, hbytes⟩ => ?_⟩
  · rw [hnode] at hfile
    exact ⟨id, hfile, (hcontent id hfile).symm.trans hbytes⟩
  · exact ⟨id, hnode.trans hfile, (hcontent id hfile).trans hbytes⟩

/-! ## What was there when a file was opened -/

/-- What is opened as a file that is known, or as a device, is opened without a change. -/
theorem OpensAt.unchanged (h : fs.OpensAt l opened mid) (hopened : opened ≠ .file fs.files.length) :
    mid = fs ∧ fs.node? l = some opened.node := by
  rcases h with ⟨-, hnew, -⟩ | ⟨id, hnode, rfl, rfl⟩ | ⟨d, hnode, rfl, rfl⟩
  · exact absurd hnew hopened
  · exact ⟨rfl, hnode⟩
  · exact ⟨rfl, hnode⟩

theorem OpensAt.of_known (h : fs.OpensAt l (.file id) mid) (hknown : fs.Knows id) :
    mid = fs ∧ fs.node? l = some (.file id) := by
  refine h.unchanged fun hnew => ?_
  injection hnew with hnew
  exact Nat.lt_irrefl _ (hnew ▸ hknown)

theorem OpensAt.of_stands (h : fs.OpensAt l opened mid) (hl : fs.node? l ≠ none) :
    mid = fs ∧ fs.node? l = some opened.node := by
  rcases h with ⟨hnone, -, -⟩ | ⟨id, hnode, rfl, rfl⟩ | ⟨d, hnode, rfl, rfl⟩
  · exact absurd hnone hl
  · exact ⟨rfl, hnode⟩
  · exact ⟨rfl, hnode⟩

/-! ## What a copy does to bytes -/

/-- The file that was opened gets the bytes, unless it is the one that they come from. -/
theorem content_filled_self (hsound : fs.Sound) (hknown : fs.Knows id)
    (hopen : fs.openForWriting target = .ok (.file other, mid)) :
    ((mid.filled (.file other) id).data other).content
      = if other = id then [] else (fs.data id).content := by
  obtain ⟨hother, -⟩ := content_of_openForWriting hsound.numbered hopen
  rw [filled, data_setContent_self hother, (openForWriting_content hopen hknown).2]

/-- Every file that was not opened keeps its bytes. -/
theorem content_filled_of_ne (hknown : fs.Knows other)
    (hopen : fs.openForWriting target = .ok (opened, mid)) (hne : opened ≠ .file other)
    (id : FileId) : ((mid.filled opened id).data other).content = (fs.data other).content := by
  rcases opened with written | d
  · have hwritten : written ≠ other := fun heq => hne (by rw [heq])
    rw [filled, data_setContent_of_ne hwritten, (openForWriting_content hopen hknown).2]
  · rw [filled, (openForWriting_content hopen hknown).2]

/-- What a copy and a removal leave at a location. -/
theorem node?_copied (hopens : fs.OpensAt l opened mid) (hl : l ≠ []) (hS : S ≠ []) (id : FileId)
    (k : Location) : ((mid.filled opened id).erase S).node? k =
      if k = S then none else if k = l then some opened.node else fs.node? k := by
  rw [node?_erase hS, node?_filled, hopens.node? hl]

/-- Only the location that was opened and the one that was removed look different after a copy and
a removal. -/
theorem sameAt_copied (hsound : fs.Sound)
    (hopen : fs.openForWriting target = .ok (opened, mid)) (hopens : fs.OpensAt l opened mid)
    (hl : l ≠ []) (hS : S ≠ []) (id : FileId) (hkS : k ≠ S) (hkl : k ≠ l) :
    fs.SameAt ((mid.filled opened id).erase S) k := by
  refine ⟨by rw [node?_copied hopens hl hS, if_neg hkS, if_neg hkl], fun other hfile => ?_⟩
  refine content_filled_of_ne (hsound.numbered k other hfile) hopen ?_ id
  -- a file that stands here is not the one that was opened there
  rintro rfl
  obtain ⟨-, hthere⟩ := hopens.of_known (hsound.numbered k other hfile)
  exact hkl (hsound.unshared k l other hfile hthere)

/-! ## A file in the target's place -/

/-- Where a move of a regular file puts it in the target's place: on one volume always, and on
another one if no link and no device stands there. -/
def TakesPlace (fs : FileSystem) (S T : Location) : Prop :=
  fs.volumeOf S = fs.volumeOf T ∨ fs.node? T = none ∨ ∃ id, fs.node? T = some (.file id)

theorem ne_nil_of_node? {node : Node} (h : fs.node? l = some node) (hnode : node ≠ .directory) :
    l ≠ [] := by
  rintro rfl
  injection h with h
  exact hnode h.symm

/-- A rename puts a regular file in the place of the target. -/
theorem placed_move (hsound : fs.Sound) (hne : S ≠ T) (hmay : fs.MayRename (.file id) S T) :
    fs.Placed (fs.move S T) S T (fs.data id).content := by
  have hnode := hsound.node?_move_leaf hmay hne nofun
  refine ⟨⟨id, by rw [hnode, if_pos rfl], rfl⟩, fun _ => ?_, fun k hkS hkT => ?_⟩
  · rw [hnode, if_neg hne, if_pos rfl]
  · exact ⟨by rw [hnode, if_neg hkT, if_neg hkS], fun _ _ => rfl⟩

/-- A copy and a removal do the same where the target opens as the entry that it names. -/
theorem placed_copied (hsound : fs.Sound) (hfile : fs.node? S = some (.file id)) (hne : S ≠ T)
    (hopen : fs.openForWriting target = .ok (.file other, mid))
    (hopens : fs.OpensAt T (.file other) mid) (hT : T ≠ []) :
    fs.Placed ((mid.filled (.file other) id).erase S) S T (fs.data id).content := by
  have hS : S ≠ [] := ne_nil_of_node? hfile nofun
  have hknown := hsound.numbered S id hfile
  have hother : other ≠ id := by
    rintro rfl
    exact hne (hsound.unshared S T other hfile (hopens.of_known hknown).2)
  refine ⟨⟨other, ?_, ?_⟩, fun _ => ?_, fun k hkS hkT => ?_⟩
  · rw [node?_copied hopens hT hS, if_neg (Ne.symm hne), if_pos rfl, Opened.node]
  · exact (content_filled_self hsound hknown hopen).trans (if_neg hother)
  · rw [node?_copied hopens hT hS, if_pos rfl]
  · exact sameAt_copied hsound hopen hopens hT hS id hkS hkT

/-- Unless it can take the target's place, a file that was moved leaves there what stood there. -/
theorem Transferred.keeps_target (h : fs.Transferred target S T id after) (hS : S ≠ [])
    (hplace : ¬ fs.TakesPlace S T) :
    after.node? T = fs.node? T ∧ ∀ other, fs.node? T ≠ some (.file other) := by
  have hnofile : ∀ other, fs.node? T ≠ some (.file other) :=
    fun other hfile => hplace (.inr (.inr ⟨other, hfile⟩))
  refine ⟨?_, hnofile⟩
  cases h with
  | same h => rfl
  | renamed hnode hne hmay => exact absurd (.inl hmay.sameVolume) hplace
  | @copied l opened mid hvolume hopen hentry hopens hl =>
    have hne : T ≠ S := fun heq => hvolume (by rw [heq])
    rw [node?_copied hopens hl hS, if_neg hne]
    by_cases hTl : T = l
    · rw [if_pos hTl]
      subst hTl
      -- only a device is left
      rcases hopens with ⟨hnone, -, -⟩ | ⟨other, hfile, -, -⟩ | ⟨d, hdevice, rfl, -⟩
      · exact absurd (.inr (.inl hnone)) hplace
      · exact absurd hfile (hnofile other)
      · exact hdevice.symm
    · rw [if_neg hTl]

/-- A regular file that was moved has taken the place of the target, with nothing else changed,
exactly where a move puts it there. -/
theorem Transferred.placed_iff (h : fs.Transferred target S T id after) (hsound : fs.Sound)
    (hfile : fs.node? S = some (.file id)) :
    fs.Placed after S T (fs.data id).content ↔ fs.TakesPlace S T := by
  refine ⟨fun hplaced => ?_, fun hplace => ?_⟩
  · by_contra hplace
    obtain ⟨hsame, hnofile⟩ := h.keeps_target (ne_nil_of_node? hfile nofun) hplace
    obtain ⟨other, hother, -⟩ := hplaced.target
    exact hnofile other (hsame.symm.trans hother)
  · cases h with
    | same h =>
      subst h
      exact ⟨⟨id, hfile, rfl⟩, fun hne => absurd rfl hne, fun _ _ _ => ⟨rfl, fun _ _ => rfl⟩⟩
    | renamed hnode hne hmay =>
      have hmoved := hfile.symm.trans hmay.node_eq
      injection hmoved with hmoved
      subst hmoved
      exact placed_move hsound hne hmay
    | @copied l opened mid hvolume hopen hentry hopens hl =>
      have hne : S ≠ T := fun heq => hvolume (by rw [heq])
      -- no link stands at the target, so it opens itself
      have hdirect : T = l := by
        rcases hentry with hTl | ⟨t, hlink⟩
        · exact hTl
        · rcases hplace with hsame | hnone | ⟨other, hother⟩
          · exact absurd hsame hvolume
          · exact nomatch hnone.symm.trans hlink
          · exact nomatch hother.symm.trans hlink
      subst hdirect
      rcases opened with other | d
      · exact placed_copied hsound hfile hne hopen hopens hl
      · rcases hopens with ⟨-, hopened, -⟩ | ⟨_, -, hopened, -⟩ | ⟨d, hdevice, -, -⟩
        · exact nomatch hopened
        · exact nomatch hopened
        · rcases hplace with hsame | hnone | ⟨other, hother⟩
          · exact absurd hsame hvolume
          · exact nomatch hnone.symm.trans hdevice
          · exact nomatch hother.symm.trans hdevice

/-! ## The bytes that are moved -/

/-- The three ways in which a move that goes through takes the bytes of the file `id` at `l` away.
Its source names the entry `S`, which is `l` or a link, and its target names `T`. -/
inductive Clobbers (fs : FileSystem) (target : Path) (S T l : Location) (id : FileId) : Prop where
  /-- A link is renamed onto the file that it leads to. -/
  | replaced (hvolume : fs.volumeOf S = fs.volumeOf T) (hS : S ≠ l) (hT : T = l)
  /-- The target of a copy opens the file that is to be read. An empty one behind a link
  is none the worse for it. -/
  | emptied {mid : FileSystem} (hvolume : fs.volumeOf S ≠ fs.volumeOf T)
      (hopen : fs.openForWriting target = .ok (.file id, mid))
      (hbytes : S = l ∨ (fs.data id).content ≠ [])
  /-- The target of a copy opens a device, and the file itself is removed afterwards. -/
  | swallowed {d : Device} {mid : FileSystem} (hvolume : fs.volumeOf S ≠ fs.volumeOf T)
      (hopen : fs.openForWriting target = .ok (.device d, mid)) (hS : S = l)

section Bytes

variable (hsound : fs.Sound) (hfile : fs.node? l = some (.file id))
  (hentry : S = l ∨ ∃ t, fs.node? S = some (.link t))

/-- If a regular file stands at the entry of the source, it is the one that the source leads to. -/
theorem source_eq_of_file (hentry : S = l ∨ ∃ t, fs.node? S = some (.link t))
    (hS : fs.node? S = some (.file other)) : S = l := by
  rcases hentry with hSl | ⟨t, hlink⟩
  · exact hSl
  · exact nomatch hS.symm.trans hlink

include hfile hentry

theorem source_stands : fs.node? S ≠ none ∧ S ≠ [] := by
  rcases hentry with rfl | ⟨t, hlink⟩
  · exact ⟨by rw [hfile]; exact nofun, ne_nil_of_node? hfile nofun⟩
  · exact ⟨by rw [hlink]; exact nofun, ne_nil_of_node? hlink nofun⟩

/-- A rename takes no bytes away unless it puts a link in the place of the file. -/
theorem holds_move {node : Node} (hsound : fs.Sound) (hnode : node ≠ .directory) (hne : S ≠ T)
    (hmay : fs.MayRename node S T) (hsafe : S ≠ l → T ≠ l) :
    ∃ k, (fs.move S T).HoldsAt k (fs.data id).content := by
  have hmoved := hsound.node?_move_leaf hmay hne hnode
  by_cases hSl : S = l
  · subst hSl
    refine ⟨T, id, ?_, rfl⟩
    rw [hmoved, if_pos rfl]
    exact hmay.node_eq.symm.trans hfile
  · refine ⟨l, id, ?_, rfl⟩
    rw [hmoved, if_neg (Ne.symm (hsafe hSl)), if_neg (Ne.symm hSl)]
    exact hfile

include hsound

/-- A copy to another file holds the bytes, and its entry is not the one that is removed. -/
theorem holdsAt_copied_other (hother : other ≠ id)
    (hopen : fs.openForWriting target = .ok (.file other, mid))
    (hopens : fs.OpensAt k (.file other) mid) (hk : k ≠ []) :
    ((mid.filled (.file other) id).erase S).HoldsAt k (fs.data id).content := by
  obtain ⟨hstands, hS⟩ := source_stands hfile hentry
  have hkS : k ≠ S := by
    rintro rfl
    have hthere := (hopens.of_stands hstands).2
    obtain rfl := source_eq_of_file hentry hthere
    have heq := hthere.symm.trans hfile
    injection heq with heq
    injection heq with heq
    exact hother heq
  refine ⟨other, ?_, ?_⟩
  · rw [node?_copied hopens hk hS, if_neg hkS, if_pos rfl, Opened.node]
  · exact (content_filled_self hsound (hsound.numbered l id hfile) hopen).trans (if_neg hother)

/-- A copy onto itself empties the file, and leaves its entry unless that is the source's. -/
theorem holdsAt_copied_self (hopen : fs.openForWriting target = .ok (.file id, mid))
    (hopens : fs.OpensAt k (.file id) mid) :
    ((mid.filled (.file id) id).erase S).HoldsAt l content ↔ S ≠ l ∧ content = [] := by
  have hknown := hsound.numbered l id hfile
  have hS := (source_stands hfile hentry).2
  have hempty : ((mid.filled (.file id) id).data id).content = [] :=
    (content_filled_self hsound hknown hopen).trans (if_pos rfl)
  obtain ⟨rfl, -⟩ := hopens.of_known hknown
  have hnode : ((mid.filled (.file id) id).erase S).node? l
      = if l = S then none else some (.file id) := by
    rw [node?_erase hS, node?_filled, hfile]
  refine ⟨fun ⟨other, hother, hcontent⟩ => ?_, fun ⟨hSl, hcontent⟩ => ?_⟩
  · rw [hnode] at hother
    split at hother
    · exact nomatch hother
    rename_i hSl
    injection hother with hother
    injection hother with hother
    subst hother
    exact ⟨Ne.symm hSl, hcontent.symm.trans hempty⟩
  · exact ⟨id, hnode.trans (if_neg (Ne.symm hSl)), hempty.trans hcontent.symm⟩

/-- Where the bytes are not taken away, some regular file holds them after the move. -/
theorem Transferred.holds (h : fs.Transferred target S T id after)
    (hsafe : ¬ fs.Clobbers target S T l id) :
    ∃ k, after.HoldsAt k (fs.data id).content := by
  cases h with
  | same h => exact ⟨l, id, hfile, rfl⟩
  | renamed hnode hne hmay =>
    exact holds_move hfile hentry hsound hnode hne hmay fun hSl hTl =>
      hsafe (.replaced hmay.sameVolume hSl hTl)
  | @copied k opened mid hvolume hopen hentryT hopens hk =>
    rcases opened with other | d
    · by_cases hother : other = id
      · -- the file was emptied, and it was empty before
        subst hother
        refine ⟨l, (holdsAt_copied_self hsound hfile hentry hopen hopens).mpr ?_⟩
        by_contra hnot
        refine hsafe (.emptied hvolume hopen ?_)
        by_cases hSl : S = l
        · exact .inl hSl
        · exact .inr fun hempty => hnot ⟨hSl, hempty⟩
      · exact ⟨k, holdsAt_copied_other hsound hfile hentry hother hopen hopens hk⟩
    · -- the bytes are gone into a device, but the file is still there
      have hSl : S ≠ l := fun hSl => hsafe (.swallowed hvolume hopen hSl)
      obtain ⟨rfl, -⟩ := hopens.unchanged nofun
      refine ⟨l, id, ?_, rfl⟩
      rw [node?_erase (source_stands hfile hentry).2, if_neg (Ne.symm hSl), node?_filled]
      exact hfile

/-- A move that takes the bytes away leaves them neither where the file was nor at the entry of the
source, and everything else looks as it did. -/
theorem Transferred.of_clobbers (h : fs.Transferred target S T id after)
    (hlost : fs.Clobbers target S T l id) :
    ¬ after.HoldsAt l (fs.data id).content ∧ ¬ after.HoldsAt S (fs.data id).content
      ∧ ∀ k, k ≠ S → k ≠ l → fs.SameAt after k := by
  have hS := (source_stands hfile hentry).2
  have herased : ∀ (fs : FileSystem) (content : Bytes), ¬ (fs.erase S).HoldsAt S content := by
    rintro fs content ⟨other, hnode, -⟩
    rw [node?_erase hS, if_pos rfl] at hnode
    exact nomatch hnode
  rcases h with heq | ⟨hnode, hne, hmay⟩ | ⟨hdiffer, hopen', -, hopens, hk⟩
  · rcases hlost with ⟨-, hSl, hTl⟩ | ⟨hvolume, -, -⟩ | ⟨hvolume, -, -⟩
    · exact absurd (heq.trans hTl) hSl
    · exact absurd (by rw [heq]) hvolume
    · exact absurd (by rw [heq]) hvolume
  · rcases hlost with ⟨-, hSl, rfl⟩ | ⟨hvolume, -, -⟩ | ⟨hvolume, -, -⟩
    · have hmoved := hsound.node?_move_leaf hmay hne hnode
      -- what stands there now is the link, and a link holds no bytes
      obtain ⟨t, hlink⟩ := hentry.resolve_left hSl
      have hnode := hmay.node_eq.symm.trans hlink
      injection hnode with hnode
      subst hnode
      refine ⟨?_, ?_, fun k hkS hkl => ⟨by rw [hmoved, if_neg hkl, if_neg hkS], fun _ _ => rfl⟩⟩
      · rintro ⟨other, hnode, -⟩
        rw [hmoved, if_pos rfl] at hnode
        exact nomatch hnode
      · rintro ⟨other, hnode, -⟩
        rw [hmoved, if_neg hne, if_pos rfl] at hnode
        exact nomatch hnode
    · exact absurd hmay.sameVolume hvolume
    · exact absurd hmay.sameVolume hvolume
  · rcases hlost with ⟨hvolume, -, -⟩ | ⟨-, hopen, hbytes⟩ | ⟨-, hopen, rfl⟩
    · exact absurd hvolume hdiffer
    · obtain ⟨rfl, rfl⟩ : _ = _ ∧ _ = _ := by simpa using hopen'.symm.trans hopen
      obtain ⟨-, hthere⟩ := hopens.of_known (hsound.numbered l id hfile)
      obtain rfl := hsound.unshared _ l id hthere hfile
      refine ⟨fun hkept => ?_, herased _ _, fun k => sameAt_copied hsound hopen hopens hk hS id⟩
      obtain ⟨hSl, hempty⟩ := (holdsAt_copied_self hsound hfile hentry hopen hopens).mp hkept
      exact hbytes.elim hSl fun hbytes => hbytes hempty
    · obtain ⟨rfl, rfl⟩ : _ = _ ∧ _ = _ := by simpa using hopen'.symm.trans hopen
      obtain ⟨rfl, -⟩ := hopens.unchanged nofun
      refine ⟨herased _ _, herased _ _, fun k hkS _ => ⟨?_, fun _ _ => rfl⟩⟩
      rw [node?_erase hS, if_neg hkS, node?_filled]

/-- After a move that goes through, some regular file holds the bytes that were moved exactly if
the move does not take them away, or another file held the same. -/
theorem Transferred.holds_iff (h : fs.Transferred target S T id after) :
    (∃ k, after.HoldsAt k (fs.data id).content) ↔
      ¬ fs.Clobbers target S T l id ∨ ∃ k, k ≠ l ∧ fs.HoldsAt k (fs.data id).content := by
  by_cases hlost : fs.Clobbers target S T l id
  · obtain ⟨hl, hsource, hothers⟩ := Transferred.of_clobbers hsound hfile hentry h hlost
    refine ⟨fun ⟨k, hk⟩ => .inr ⟨k, ?_⟩, fun hsafe => ?_⟩
    · have hkl : k ≠ l := fun heq => hl (heq ▸ hk)
      have hkS : k ≠ S := fun heq => hsource (heq ▸ hk)
      exact ⟨hkl, (hothers k hkS hkl).holdsAt.mp hk⟩
    · obtain ⟨k, hkl, hk⟩ := hsafe.resolve_left (not_not_intro hlost)
      have hkS : k ≠ S := by
        rintro rfl
        obtain ⟨other, hother, -⟩ := hk
        exact hkl (source_eq_of_file hentry hother)
      exact ⟨k, (hothers k hkS hkl).holdsAt.mpr hk⟩
  · exact iff_of_true (Transferred.holds hsound hfile hentry h hlost) (.inl hlost)

end Bytes

end FileSystem

end LineShell
