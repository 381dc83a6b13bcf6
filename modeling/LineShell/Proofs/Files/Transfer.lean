/-
Moving a file.

A file is moved by a rename or, where that is refused, by a copy and a removal.  As calls on a file
system this is one function of it (`transfer`).  Which of the two ways is taken is decided by the
volumes alone: wherever the target could be opened for writing, a rename of something
that leads to a regular file is refused for no other reason (`rename_of_open`).

So there are three ways in which a move ends well.  Source and target are one entry, and
nothing happens; they are two entries on one volume, and the source's entry is put in the place of
the target's; or they are on two volumes, and the bytes are written to whatever the target
opens, which need not be the target's own entry.
-/
import LineShell.Proofs.Files.Sound
import LineShell.Proofs.Files.Walks
import LineShell.Proofs.Stream.Sink

set_option autoImplicit false

namespace LineShell

namespace FileSystem

variable {fs after : FileSystem} {p source target : Path} {l : Location} {id : FileId}

/-! ## The entries that paths name -/

/-- The entry that a path names, where a rename or a removal acts. A link in last place is the
entry itself. -/
def Names (fs : FileSystem) (p : Path) (l : Location) : Prop :=
  ∃ dir n, l = n :: dir ∧ fs.locate .parent p = .ok ⟨dir, .name n, false⟩

theorem Names.spot_eq {dir : Location} {n : Name} {slash : Bool} (h : fs.Names p l)
    (hspot : fs.locate .parent p = .ok ⟨dir, .name n, slash⟩) : l = n :: dir ∧ slash = false := by
  obtain ⟨dir', n', rfl, hl⟩ := h
  rw [hl] at hspot
  injection hspot with hspot
  injection hspot with hdir hn hslash
  injection hn with hn
  rw [hdir, hn]
  exact ⟨rfl, hslash.symm⟩

theorem Names.eq {k : Location} (h : fs.Names p l) (h' : fs.Names p k) : l = k := by
  obtain ⟨dir, n, rfl, hk⟩ := h'
  exact (h.spot_eq hk).1

/-- A walk that ends at a name began with the entry of that name, or with a link. -/
theorem names_of_locate {purpose : Purpose} {dir : Location} {n : Name}
    (h : fs.locate purpose p = .ok ⟨dir, .name n, false⟩) :
    ∃ entry, fs.Names p entry
      ∧ (entry = n :: dir ∨ ∃ target, fs.node? entry = some (.link target)) := by
  obtain ⟨⟨dir', last, slash⟩, hentry, hslash, hends⟩ := locate_parent_of_locate h
  have hplain : slash = false := by
    rcases slash with _ | _
    · rfl
    · exact nomatch hslash rfl
  subst hplain
  by_cases hlink : ∃ m target, last = .name m ∧ fs.node? (m :: dir') = some (.link target)
  · obtain ⟨m, target, rfl, hnode⟩ := hlink
    exact ⟨m :: dir', ⟨dir', m, rfl, hentry⟩, .inr ⟨target, hnode⟩⟩
  · have hend : fs.EndsAt purpose ⟨dir', last, false⟩ :=
      fun m target hlast hnode => absurd ⟨m, target, hlast, hnode⟩ hlink
    injection hends hend with hdir hn
    subst hdir hn
    exact ⟨n :: dir, ⟨dir, n, rfl, hentry⟩, .inl rfl⟩

/-- A regular file is found only at a name with no slash behind it. -/
theorem nodeAt_file {spot : Spot} (h : fs.nodeAt spot = .ok (l, .file id)) :
    ∃ dir n, spot = ⟨dir, .name n, false⟩ ∧ l = n :: dir ∧ fs.node? l = some (.file id) := by
  obtain ⟨dir, last, slash⟩ := spot
  rcases last with _ | _ | _ | n
  · exact nomatch h
  · exact nomatch h
  · exact nomatch h
  · obtain ⟨rfl, -, hstands, hslash⟩ := nodeAt_name_iff.mp h
    have hplain : slash = false := by
      by_contra hslashed
      exact nomatch hslash (by simpa using hslashed)
    subst hplain
    exact ⟨dir, n, rfl, rfl, hstands⟩

/-- A path that leads to a regular file names its entry, or a link. -/
theorem names_of_resolve (h : fs.resolve p = .ok (l, .file id)) :
    fs.node? l = some (.file id) ∧ ∃ entry, fs.Names p entry
      ∧ (entry = l ∨ ∃ target, fs.node? entry = some (.link target)) := by
  obtain ⟨spot, hspot, hnode⟩ := exists_of_bind_eq_ok h
  obtain ⟨dir, n, rfl, rfl, hstands⟩ := nodeAt_file hnode
  exact ⟨hstands, names_of_locate hspot⟩

/-- A path whose entry is a regular file names that entry, and leads to it. -/
theorem names_of_resolveEntry (h : fs.resolveEntry p = .ok (l, .file id)) :
    fs.Names p l ∧ fs.resolve p = .ok (l, .file id) := by
  obtain ⟨spot, hspot, hnode⟩ := exists_of_bind_eq_ok h
  obtain ⟨dir, n, rfl, rfl, hstands⟩ := nodeAt_file hnode
  obtain ⟨entry, hentry, hslash, hends⟩ := locate_parent_of_locate hspot
  have hplain : entry.slash = false := by
    rcases hs : entry.slash with _ | _
    · rfl
    · exact nomatch hslash hs
  have hstays : fs.EndsAt .stay entry := fun _ _ _ _ => hplain
  rw [← hends hstays] at hentry
  refine ⟨⟨dir, n, rfl, hentry⟩, ?_⟩
  have hnolink : fs.EndsAt .follow ⟨dir, .name n, false⟩ := by
    intro m target hlast hlink
    injection hlast with hlast
    subst hlast
    exact nomatch hstands.symm.trans hlink
  rw [resolve, locate_of_locate_parent hentry hnolink]
  exact hnode

/-- A path that can be opened for writing names an entry in a directory. -/
theorem names_of_open {opened : Opened} (hsound : fs.Sound)
    (h : fs.openForWriting p = .ok (opened, after)) :
    ∃ entry l, fs.Names p entry ∧ fs.node? entry.tail = some .directory
      ∧ (∀ n ∈ entry.head?, n.length ≤ maxName)
      ∧ (entry = l ∨ ∃ target, fs.node? entry = some (.link target))
      ∧ fs.OpensAt l opened after ∧ l ≠ [] := by
  obtain ⟨dir, n, hspot, hdir, hshort, hopens⟩ := openForWriting_cases h
  obtain ⟨entry, hnames, hentry⟩ := names_of_locate hspot
  refine ⟨entry, n :: dir, hnames, ?_, ?_, hentry, hopens, List.cons_ne_nil n dir⟩
  · rcases hentry with rfl | ⟨target, hnode⟩
    · exact hdir
    · exact hsound.housed _ (by rw [hnode]; exact Option.some_ne_none _)
  · rcases hentry with rfl | ⟨target, hnode⟩
    · intro m hm
      injection hm with hm
      rw [← hm]
      exact hshort
    · intro m hm
      obtain ⟨dir', m', rfl, -⟩ := hnames
      injection hm with hm
      rw [← hm]
      exact hsound.short m' dir' (by rw [hnode]; exact Option.some_ne_none _)

/-! ## When a rename goes through -/

/-- Anything but a directory may take the place of anything but a directory. -/
theorem mayReplace_of_ne_directory {node : Node} (hnode : node ≠ .directory)
    (hl : fs.node? l ≠ some .directory) : fs.mayReplace node l = .ok () := by
  unfold mayReplace
  rcases hthere : fs.node? l with _ | there
  · rfl
  · rw [hthere] at hl
    rcases node with _ | _ | _ | _
    · exact absurd rfl hnode
    all_goals
      rcases there with _ | _ | _ | _
      · exact absurd rfl hl
      all_goals rfl

/-- On one volume, anything but a directory can be renamed to anything but a directory. -/
theorem renameSpots_of_ne_directory {dirS dirT : Location} {n m : Name} {node : Node}
    (hsound : fs.Sound) (hnode : fs.node? (n :: dirS) = some node) (hplain : node ≠ .directory)
    (hparent : fs.node? dirT = some .directory) (hshort : m.length ≤ maxName)
    (hfree : fs.node? (m :: dirT) ≠ some .directory)
    (hvolume : fs.volumeOf (n :: dirS) = fs.volumeOf (m :: dirT)) :
    ∃ renamed, fs.renameSpots ⟨dirS, .name n, false⟩ ⟨dirT, .name m, false⟩ = .ok renamed := by
  have hstands : fs.node? (n :: dirS) ≠ none := by
    rw [hnode]
    exact Option.some_ne_none _
  have hdirS : fs.node? dirS = some .directory := hsound.housed (n :: dirS) hstands
  have hleaf : fs.node? (n :: dirS) ≠ some .directory := by
    rw [hnode]
    simpa using hplain
  -- no directory lies below anything else
  have hnever : ∀ {l dir : Location}, fs.node? l ≠ some .directory →
      fs.node? dir = some .directory → ¬ l <:+ dir := by
    intro l dir hl hdir hbelow
    by_cases heq : dir = l
    · exact hl (heq ▸ hdir)
    · exact hl (hsound.directory_above hbelow heq (by rw [hdir]; exact Option.some_ne_none _))
  have hgone : ¬ fs.isGone dirT = true := by
    rw [isGone, hparent]
    simp
  have hshortS : ¬ maxName < n.length := Nat.not_lt.mpr (hsound.short n dirS hstands)
  have hshortT : ¬ maxName < m.length := Nat.not_lt.mpr hshort
  have hslash : ¬ (node ≠ .directory ∧ (false = true ∨ false = true)) := by simp
  have hinto : ¬ (n :: dirS) <:+ dirT := hnever hleaf hparent
  have honto : ¬ (m :: dirT) <:+ dirS := hnever hfree hdirS
  unfold renameSpots
  rw [if_neg (by simpa [spotVolume] using hvolume)]
  simp only [hnode]
  rw [if_neg hshortS, if_neg hgone, if_neg hshortT, if_neg hslash, if_neg hinto, if_neg honto]
  by_cases hsame : n :: dirS = m :: dirT
  · exact ⟨fs, if_pos hsame⟩
  · rw [if_neg hsame, mayReplace_of_ne_directory hplain hfree]
    exact ⟨_, rfl⟩

/-- What leads to a regular file can be renamed to whatever can be opened for writing on the same
volume. -/
theorem rename_of_open {S T : Location} {opened : Opened} (hsound : fs.Sound)
    (hsource : fs.resolve source = .ok (l, .file id))
    (htarget : fs.openForWriting target = .ok (opened, after)) (hS : fs.Names source S)
    (hT : fs.Names target T) (hvolume : fs.volumeOf S = fs.volumeOf T) :
    ∃ renamed, fs.rename source target = .ok renamed := by
  obtain ⟨hfile, entryS, hnamesS, hentryS⟩ := names_of_resolve hsource
  obtain ⟨entryT, k, hnamesT, hparent, hshort, hentryT, hopens, -⟩ := names_of_open hsound htarget
  rw [hnamesS.eq hS] at hentryS
  rw [hnamesT.eq hT] at hparent hshort hentryT
  obtain ⟨node, hnode, hplain⟩ : ∃ node, fs.node? S = some node ∧ node ≠ .directory := by
    rcases hentryS with rfl | ⟨t, hlink⟩
    · exact ⟨_, hfile, nofun⟩
    · exact ⟨_, hlink, nofun⟩
  have hfree : fs.node? T ≠ some .directory := by
    rcases hentryT with rfl | ⟨t, hlink⟩
    · rcases hopens with ⟨h, -⟩ | ⟨_, h, -⟩ | ⟨_, h, -⟩ <;> rw [h] <;> exact nofun
    · rw [hlink]
      exact nofun
  obtain ⟨dirS, n, rfl, hlocateS⟩ := hS
  obtain ⟨dirT, m, rfl, hlocateT⟩ := hT
  rw [List.tail_cons] at hparent
  obtain ⟨renamed, hspots⟩ := renameSpots_of_ne_directory hsound hnode hplain hparent
    (hshort m rfl) hfree hvolume
  refine ⟨renamed, ?_⟩
  rw [rename, hlocateS, hlocateT]
  simp only [bind, Except.bind, hspots]

/-! ## What a copy leaves -/

/-- The file system after the bytes of the file `id` were written to what was opened. An opened file
is emptied first, also if it is the very file that is read. -/
def filled (fs : FileSystem) (opened : Opened) (id : FileId) : FileSystem :=
  match opened with
  | .file other => fs.setContent other (if other = id then [] else (fs.data id).content)
  | .device _ => fs

theorem setContent_setContent (fs : FileSystem) (id : FileId) (first second : Bytes) :
    (fs.setContent id first).setContent id second = fs.setContent id second := by
  rw [setContent, setContent, setContent, List.set_set]

/-- A copy that goes through has filled what its target opened. -/
theorem copy_filled (hsound : fs.Sound) (hsource : fs.resolve source = .ok (l, .file id))
    (h : fs.copy source target = (.ok (), after)) :
    ∃ opened mid, fs.openForWriting target = .ok (opened, mid) ∧ after = mid.filled opened id := by
  obtain ⟨l', id', handle, emptied, hread, htarget, hwrite, rfl⟩ := copy_cases h
  rw [hsource] at hread
  injection hread with hread
  injection hread with hl hid
  injection hid with hid
  subst hl hid
  rcases openTarget_cases htarget with ⟨other, mid, hopen, hmode⟩ | ⟨d, hopen, rfl⟩
  · rcases hmode with ⟨-, rfl, rfl⟩ | ⟨hmode, -⟩
    · refine ⟨.file other, mid, hopen, ?_⟩
      obtain ⟨hknown, -⟩ := content_of_openForWriting hsound.numbered hopen
      have hemptied := data_setContent_self hknown []
      have hbytes : ((mid.setContent other []).data id).content
          = if other = id then [] else (mid.data id).content := by
        by_cases heq : other = id
        · subst heq
          rw [hemptied, if_pos rfl]
        · rw [data_setContent_of_ne heq, if_neg heq]
      rw [hbytes, filled]
      by_cases hnone : (if other = id then [] else (mid.data id).content) = []
      · rw [hnone, Handle.write, if_pos rfl]
      · rw [Handle.write, if_neg hnone]
        simp only [hemptied, setContent_setContent]
        have hoverlay := Handle.overlay_length [] (if other = id then [] else (mid.data id).content)
        rw [List.length_nil, List.nil_append] at hoverlay
        rw [hoverlay]
    · exact nomatch hmode
  · refine ⟨.device d, emptied, hopen, ?_⟩
    show _ = emptied
    unfold Handle.write
    split
    · rfl
    · rcases d with _ | _ | _ <;> rfl

theorem node?_filled (fs : FileSystem) (opened : Opened) (id : FileId) (l : Location) :
    (fs.filled opened id).node? l = fs.node? l := by
  rcases opened with _ | _ <;> rfl

/-- What stands where something was opened. -/
def Opened.node : Opened → Node
  | .file id => .file id
  | .device d => .device d

/-- What opens stands where it is opened, and everything else stands where it was. -/
theorem OpensAt.node? {opened : Opened} (h : fs.OpensAt l opened after) (hl : l ≠ [])
    (k : Location) : after.node? k = if k = l then some opened.node else fs.node? k := by
  rcases h with ⟨-, rfl, rfl⟩ | ⟨id, hnode, rfl, rfl⟩ | ⟨d, hnode, rfl, rfl⟩
  · exact node?_addFile hl k
  · by_cases hk : k = l
    · rw [if_pos hk, hk]
      exact hnode
    · rw [if_neg hk]
  · by_cases hk : k = l
    · rw [if_pos hk, hk]
      exact hnode
    · rw [if_neg hk]

/-- Opening and filling leave every entry in its place. -/
theorem OpensAt.extends_filled {opened : Opened} (h : fs.OpensAt l opened after) (hl : l ≠ [])
    (id : FileId) : fs.Extends (after.filled opened id) := by
  refine ⟨fun k hk => ?_, ?_⟩
  · rw [node?_filled]
    rcases h with ⟨hnone, rfl, rfl⟩ | ⟨_, -, -, rfl⟩ | ⟨_, -, -, rfl⟩
    · rw [node?_addFile hl, if_neg (fun heq : k = l => hk (by rw [heq]; exact hnone))]
    · rfl
    · rfl
  · rcases h with ⟨-, rfl, rfl⟩ | ⟨_, -, rfl, rfl⟩ | ⟨_, -, rfl, rfl⟩ <;> rfl

/-! ## Moving -/

/-- Moves by a rename, or by a copy and a removal of what is a regular file. -/
def transfer (fs : FileSystem) (source target : Path) : Except IoError Unit × FileSystem :=
  match fs.rename source target with
  | .ok after => (.ok (), after)
  | .error e =>
    match fs.status source with
    | .ok .regular =>
      match fs.copy source target with
      | (.ok (), copied) => copied.commit (copied.removeFile source)
      | (.error e, copied) => (.error e, copied)
    | _ => (.error e, fs)

/-- What a move that went through has done between the entries `S` and `T`, where `id` is the file
that its source led to. -/
inductive Transferred (fs : FileSystem) (target : Path) (S T : Location) (id : FileId) :
    FileSystem → Prop where
  /-- Nothing, for they are one entry. -/
  | same (h : S = T) : Transferred fs target S T id fs
  /-- On one volume, the entry of the source has replaced that of the target. -/
  | renamed {node : Node} (hnode : node ≠ .directory) (hne : S ≠ T)
      (hmay : fs.MayRename node S T) : Transferred fs target S T id (fs.move S T)
  /-- On two volumes, what the target opens was filled and the entry of the source removed. -/
  | copied {l : Location} {opened : Opened} {mid : FileSystem}
      (hvolume : fs.volumeOf S ≠ fs.volumeOf T)
      (hopen : fs.openForWriting target = .ok (opened, mid))
      (hentry : T = l ∨ ∃ t, fs.node? T = some (.link t)) (hopens : fs.OpensAt l opened mid)
      (hl : l ≠ []) : Transferred fs target S T id ((mid.filled opened id).erase S)

section Moving

variable {S : Location} (hsound : fs.Sound) (hsource : fs.resolve source = .ok (l, .file id))
  (hS : fs.Names source S) (hentryS : S = l ∨ ∃ t, fs.node? S = some (.link t))
include hsource hS hentryS

/-- A rename that goes through has moved an entry, or found that the two are one. -/
theorem transferred_of_rename (h : fs.rename source target = .ok after) :
    ∃ T, fs.Names target T ∧ fs.Transferred target S T id after := by
  obtain ⟨dirS, n, slashS, dirT, m, slashT, node, hlocateS, hlocateT, hmay, hplain, hafter⟩ :=
    rename_cases h
  obtain ⟨rfl, -⟩ := hS.spot_eq hlocateS
  -- the source is no directory, for it leads to a file
  have hnode : node ≠ .directory := by
    rintro rfl
    have hdirectory := hmay.node_eq
    rcases hentryS with rfl | ⟨t, hlink⟩
    · exact nomatch hdirectory.symm.trans (names_of_resolve hsource).1
    · exact nomatch hdirectory.symm.trans hlink
  obtain rfl := (hplain hnode).2
  refine ⟨m :: dirT, ⟨dirT, m, rfl, hlocateT⟩, ?_⟩
  rcases hafter with ⟨heq, rfl⟩ | ⟨hne, rfl⟩
  · exact .same heq
  · exact .renamed hnode hne hmay

include hsound

/-- A copy and a removal that go through where a rename does not have gone to another volume. -/
theorem transferred_of_copy {copied : FileSystem} {e : IoError}
    (hrename : fs.rename source target = .error e)
    (hcopy : fs.copy source target = (.ok (), copied))
    (hremove : copied.removeFile source = .ok after) :
    ∃ T, fs.Names target T ∧ fs.Transferred target S T id after := by
  obtain ⟨opened, mid, hopen, rfl⟩ := copy_filled hsound hsource hcopy
  obtain ⟨T, k, hT, -, -, hentryT, hopens, hk⟩ := names_of_open hsound hopen
  -- on one volume the rename would have gone through
  have hvolume : fs.volumeOf S ≠ fs.volumeOf T := by
    intro hsame
    obtain ⟨renamed, hok⟩ := rename_of_open hsound hsource hopen hS hT hsame
    exact nomatch hrename.symm.trans hok
  -- the path of the source names the same entry after the copy
  have hkept : (mid.filled opened id).Names source S := by
    obtain ⟨dir, n, heq, hlocate⟩ := hS
    exact ⟨dir, n, heq, locate_of_extends (hopens.extends_filled hk id) hlocate⟩
  obtain ⟨dir, n, node, hlocate, -, -, rfl⟩ := removeFile_cases hremove
  obtain ⟨rfl, -⟩ := hkept.spot_eq hlocate
  exact ⟨T, hT, .copied hvolume hopen hentryT hopens hk⟩

end Moving

/-- A move that goes through, of something that leads to a regular file. -/
theorem transfer_cases (hsound : fs.Sound) (hsource : fs.resolve source = .ok (l, .file id))
    (h : fs.transfer source target = (.ok (), after)) :
    ∃ S T, fs.Names source S ∧ fs.Names target T
      ∧ (S = l ∨ ∃ t, fs.node? S = some (.link t)) ∧ fs.Transferred target S T id after := by
  obtain ⟨-, S, hS, hentryS⟩ := names_of_resolve hsource
  suffices hmoved : ∃ T, fs.Names target T ∧ fs.Transferred target S T id after by
    obtain ⟨T, hT, hmoved⟩ := hmoved
    exact ⟨S, T, hS, hT, hentryS, hmoved⟩
  unfold transfer at h
  split at h
  · rename_i renamed hrename
    injection h with _ h
    subst h
    exact transferred_of_rename hsource hS hentryS hrename
  · rename_i e hrename
    split at h
    case h_2 => exact nomatch h
    split at h
    case h_2 => exact nomatch h
    rename_i copied hcopy
    rcases hremove : copied.removeFile source with e | removed
    · rw [hremove] at h
      exact nomatch h
    · rw [hremove] at h
      injection h with _ h
      subst h
      exact transferred_of_copy hsound hsource hS hentryS hrename hcopy hremove

end FileSystem

end LineShell
