/-
What a call does when it succeeds.

Each call is a list of tests in front of one change.  A call that succeeds has passed them
all, and these lemmas say once what that tells: where the entry stands, what stood there before,
and what the file system is afterwards.  Everything later that follows a call through starts
from its lemma and does not go back to the tests.
-/
import LineShell.Files.Calls

set_option autoImplicit false

namespace LineShell

namespace FileSystem

variable {fs after : FileSystem} {p source target : Path}

/-- A computation that ends well has a first part that does. -/
theorem exists_of_bind_eq_ok {ε α β : Type} {x : Except ε α} {f : α → Except ε β} {b : β}
    (h : (x >>= f) = .ok b) : ∃ a, x = .ok a ∧ f a = .ok b := by
  rcases x with e | a
  · exact nomatch h
  · exact ⟨a, rfl, h⟩

theorem node?_of_not_isGone {dir : Location} (h : ¬ fs.isGone dir = true) :
    fs.node? dir = some .directory := by
  simpa [isGone] using h

/-- What opening for writing comes to at a location: the file of an entry that is added, the file
of an entry that is there, or a device. -/
def OpensAt (fs : FileSystem) (l : Location) (opened : Opened) (after : FileSystem) : Prop :=
  (fs.node? l = none ∧ opened = .file fs.files.length ∧ after = (fs.addFile l).2)
    ∨ (∃ id, fs.node? l = some (.file id) ∧ opened = .file id ∧ after = fs)
    ∨ ∃ d, fs.node? l = some (.device d) ∧ opened = .device d ∧ after = fs

theorem openForWriting_cases {p : Path} {opened : Opened} {after : FileSystem}
    (h : fs.openForWriting p = .ok (opened, after)) :
    ∃ dir n, fs.locate .create p = .ok ⟨dir, .name n, false⟩
      ∧ fs.node? dir = some .directory ∧ n.length ≤ maxName
      ∧ fs.OpensAt (n :: dir) opened after := by
  obtain ⟨⟨dir, last, slash⟩, hspot, h⟩ := exists_of_bind_eq_ok h
  rcases last with _ | _ | _ | n
  · exact nomatch h
  · exact nomatch h
  · exact nomatch h
  · simp only at h
    rcases slash with _ | _
    · rw [if_neg Bool.false_ne_true] at h
      split at h
      · exact nomatch h
      rename_i hgone
      split at h
      · exact nomatch h
      rename_i hlong
      refine ⟨dir, n, hspot, node?_of_not_isGone hgone, Nat.le_of_not_lt hlong, ?_⟩
      rcases hnode : fs.node? (n :: dir) with _ | _ | id | target | d
      · rw [hnode] at h
        injection h with h
        injection h with hopened hafter
        exact .inl ⟨hnode, hopened.symm, hafter.symm⟩
      · rw [hnode] at h
        exact nomatch h
      · rw [hnode] at h
        injection h with h
        injection h with hopened hafter
        exact .inr (.inl ⟨id, hnode, hopened.symm, hafter.symm⟩)
      · rw [hnode] at h
        exact nomatch h
      · rw [hnode] at h
        injection h with h
        injection h with hopened hafter
        exact .inr (.inr ⟨d, hnode, hopened.symm, hafter.symm⟩)
    · rw [if_pos rfl] at h
      exact nomatch h

/-- A target that is opened is a file, emptied if it is overwritten, or a device. -/
theorem openTarget_cases {mode : Redirection} {handle : Handle}
    (h : fs.openTarget p mode = .ok (handle, after)) :
    (∃ id opened, fs.openForWriting p = .ok (.file id, opened) ∧
        ((mode = .overwrite ∧ handle = .atOffset id 0 ∧ after = opened.setContent id [])
          ∨ (mode = .append ∧ handle = .atEnd id ∧ after = opened)))
      ∨ ∃ d, fs.openForWriting p = .ok (.device d, after) ∧ handle = .device d := by
  obtain ⟨⟨reached, opened⟩, hopen, h⟩ := exists_of_bind_eq_ok h
  rcases reached with id | d
  · rcases mode with _ | _
    · injection h with h
      injection h with hhandle hafter
      exact .inl ⟨id, opened, hopen, .inl ⟨rfl, hhandle.symm, hafter.symm⟩⟩
    · injection h with h
      injection h with hhandle hafter
      exact .inl ⟨id, opened, hopen, .inr ⟨rfl, hhandle.symm, hafter.symm⟩⟩
  · injection h with h
    injection h with hhandle hafter
    subst hafter
    exact .inr ⟨d, hopen, hhandle.symm⟩

/-! ## Entries -/

theorem addEntry_cases {node : Node} (h : fs.addEntry p node = .ok after) :
    ∃ dir n slash, fs.locate .parent p = .ok ⟨dir, .name n, slash⟩
      ∧ fs.node? dir = some .directory ∧ n.length ≤ maxName ∧ fs.node? (n :: dir) = none
      ∧ after = fs.insert (n :: dir) node := by
  obtain ⟨⟨dir, last, slash⟩, hspot, h⟩ := exists_of_bind_eq_ok h
  rcases last with _ | _ | _ | n
  · exact nomatch h
  · exact nomatch h
  · exact nomatch h
  · simp only at h
    split at h
    · exact nomatch h
    rename_i hgone
    split at h
    · exact nomatch h
    rename_i hlong
    split at h
    · exact nomatch h
    rename_i hnone
    injection h with h
    exact ⟨dir, n, slash, hspot, node?_of_not_isGone hgone, Nat.le_of_not_lt hlong, hnone, h.symm⟩

theorem removeDirectory_cases (h : fs.removeDirectory p = .ok after) :
    ∃ dir n slash, fs.locate .parent p = .ok ⟨dir, .name n, slash⟩
      ∧ fs.node? (n :: dir) = some .directory ∧ fs.names (n :: dir) = []
      ∧ after = fs.erase (n :: dir) := by
  obtain ⟨⟨dir, last, slash⟩, hspot, h⟩ := exists_of_bind_eq_ok h
  rcases last with _ | _ | _ | n
  · exact nomatch h
  · exact nomatch h
  · exact nomatch h
  · simp only at h
    split at h
    · exact nomatch h
    · split at h
      · exact nomatch h
      · rename_i hnode
        split at h
        · rename_i hempty
          injection h with h
          exact ⟨dir, n, slash, hspot, hnode, List.isEmpty_iff.mp hempty, h.symm⟩
        · exact nomatch h
      · exact nomatch h

theorem removeFile_cases (h : fs.removeFile p = .ok after) :
    ∃ dir n node, fs.locate .parent p = .ok ⟨dir, .name n, false⟩
      ∧ fs.node? (n :: dir) = some node ∧ node ≠ .directory ∧ after = fs.erase (n :: dir) := by
  obtain ⟨⟨dir, last, slash⟩, hspot, h⟩ := exists_of_bind_eq_ok h
  rcases last with _ | _ | _ | n
  · exact nomatch h
  · exact nomatch h
  · exact nomatch h
  · simp only at h
    split at h
    · exact nomatch h
    · split at h
      · exact nomatch h
      · exact nomatch h
      · rename_i node hdirectory hnode
        rcases slash with _ | _
        · injection h with h
          exact ⟨dir, n, node, hspot, hnode, hdirectory, h.symm⟩
        · exact nomatch h

theorem touch_cases (h : fs.touch p = .ok after) :
    (∃ id opened, fs.openForWriting p = .ok (.file id, opened)
        ∧ after = opened.setContent id (opened.data id).content)
      ∨ ∃ d, fs.openForWriting p = .ok (.device d, after) := by
  obtain ⟨⟨reached, opened⟩, hopen, h⟩ := exists_of_bind_eq_ok h
  rcases reached with id | d
  · injection h with h
    exact .inl ⟨id, opened, hopen, h.symm⟩
  · injection h with h
    subst h
    exact .inr ⟨d, hopen⟩

/-! ## Renaming and copying -/

/-- What a rename from one entry to another has been tested for. -/
structure MayRename (fs : FileSystem) (node : Node) (source target : Location) : Prop where
  node_eq : fs.node? source = some node
  parent : fs.node? target.tail = some .directory
  short : ∀ m ∈ target.head?, m.length ≤ maxName
  sameVolume : fs.volumeOf source = fs.volumeOf target
  not_into : ¬ source <:+ target.tail
  not_onto : ¬ target <:+ source.tail
  replace : source ≠ target → fs.mayReplace node target = .ok ()

namespace MayRename

variable {node : Node} {source target : Location} (h : fs.MayRename node source target)
include h

theorem source_ne_nil : source ≠ [] := by
  rintro rfl
  exact h.not_into List.nil_suffix

theorem target_ne_nil : target ≠ [] := by
  rintro rfl
  exact h.not_onto List.nil_suffix

/-- The target does not lie below the source. -/
theorem not_below (hne : source ≠ target) : ¬ source <:+ target := by
  obtain ⟨m, dir, rfl⟩ := List.exists_cons_of_ne_nil h.target_ne_nil
  exact fun hs => (List.suffix_cons_iff.mp hs).elim hne h.not_into

/-- The source does not lie below the target. -/
theorem not_above (hne : source ≠ target) : ¬ target <:+ source := by
  obtain ⟨n, dir, rfl⟩ := List.exists_cons_of_ne_nil h.source_ne_nil
  exact fun ht => (List.suffix_cons_iff.mp ht).elim (Ne.symm hne) h.not_onto

end MayRename

theorem renameSpots_cases {a b : Spot} (h : fs.renameSpots a b = .ok after) :
    ∃ n m node, a.last = .name n ∧ b.last = .name m
      ∧ fs.MayRename node (n :: a.dir) (m :: b.dir)
      ∧ (node ≠ .directory → a.slash = false ∧ b.slash = false)
      ∧ ((n :: a.dir = m :: b.dir ∧ after = fs)
        ∨ (n :: a.dir ≠ m :: b.dir ∧ after = fs.move (n :: a.dir) (m :: b.dir))) := by
  unfold renameSpots at h
  split at h
  · exact nomatch h
  rename_i hvolume
  split at h
  case h_2 => exact nomatch h
  rename_i n m hn hm
  have hvol : fs.volumeOf (n :: a.dir) = fs.volumeOf (m :: b.dir) := by
    simpa only [spotVolume, hn, hm, ne_eq, Decidable.not_not] using hvolume
  -- from here on each test that fails refuses the call
  split at h
  · exact nomatch h
  split at h
  · exact nomatch h
  rename_i node hnode
  split at h
  · exact nomatch h
  rename_i hgone
  have hparent := node?_of_not_isGone hgone
  split at h
  · exact nomatch h
  rename_i hlong
  have hshort : ∀ k ∈ (m :: b.dir).head?, k.length ≤ maxName := by
    intro k hk
    rw [List.head?_cons, Option.mem_some] at hk
    rw [← hk]
    exact Nat.le_of_not_lt hlong
  split at h
  · exact nomatch h
  rename_i hslash
  have hplain : node ≠ .directory → a.slash = false ∧ b.slash = false := by
    intro hdir
    simpa [hdir] using hslash
  split at h
  · exact nomatch h
  rename_i hinto
  split at h
  · exact nomatch h
  rename_i honto
  split at h
  · rename_i hsame
    injection h with h
    exact ⟨n, m, node, hn, hm,
      ⟨hnode, hparent, hshort, hvol, hinto, honto, fun hne => absurd hsame hne⟩, hplain,
      .inl ⟨hsame, h.symm⟩⟩
  · rename_i hdiffer
    obtain ⟨⟨⟩, hreplace, h⟩ := exists_of_bind_eq_ok h
    injection h with h
    exact ⟨n, m, node, hn, hm,
      ⟨hnode, hparent, hshort, hvol, hinto, honto, fun _ => hreplace⟩, hplain,
      .inr ⟨hdiffer, h.symm⟩⟩

theorem rename_cases (h : fs.rename source target = .ok after) :
    ∃ dirS n slashS dirT m slashT node,
      fs.locate .parent source = .ok ⟨dirS, .name n, slashS⟩
      ∧ fs.locate .parent target = .ok ⟨dirT, .name m, slashT⟩
      ∧ fs.MayRename node (n :: dirS) (m :: dirT)
      ∧ (node ≠ .directory → slashS = false ∧ slashT = false)
      ∧ ((n :: dirS = m :: dirT ∧ after = fs)
        ∨ (n :: dirS ≠ m :: dirT ∧ after = fs.move (n :: dirS) (m :: dirT))) := by
  obtain ⟨⟨dirS, lastS, slashS⟩, hsource, h⟩ := exists_of_bind_eq_ok h
  obtain ⟨⟨dirT, lastT, slashT⟩, htarget, h⟩ := exists_of_bind_eq_ok h
  rcases hspots : fs.renameSpots ⟨dirS, lastS, slashS⟩ ⟨dirT, lastT, slashT⟩ with e | renamed
  · rw [hspots] at h
    exact nomatch h
  · rw [hspots] at h
    injection h with h
    subst h
    obtain ⟨n, m, node, rfl, rfl, hmay, hplain, hafter⟩ := renameSpots_cases hspots
    exact ⟨dirS, n, slashS, dirT, m, slashT, node, hsource, htarget, hmay, hplain, hafter⟩

theorem copy_cases (h : fs.copy source target = (.ok (), after)) :
    ∃ l id handle opened, fs.resolve source = .ok (l, .file id)
      ∧ fs.openTarget target .overwrite = .ok (handle, opened)
      ∧ (handle.write (opened.data id).content opened).1 = .ok ()
      ∧ after = (handle.write (opened.data id).content opened).2.2 := by
  unfold copy at h
  split at h
  case h_2 => exact nomatch h
  case h_3 => exact nomatch h
  rename_i l id hread
  split at h
  · exact nomatch h
  rename_i handle opened htarget
  simp only [Prod.mk.injEq] at h
  exact ⟨l, id, handle, opened, hread, htarget, h.1, h.2.symm⟩

end FileSystem

end LineShell
