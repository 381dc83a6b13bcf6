/-
The shape of a file system.

Nothing about the list of entries forbids an entry below a file, a number without contents,
or two entries for one file.  None of these comes about: a file system that is built from
seeds is sound, and every call keeps it sound, so every file system that a session ever
meets is.  A sound one has no hard links, as there is no call that makes one.

What makes a rename simple is that nothing can stand below an entry that it may replace
(`Sound.isFree`).
-/
import Mathlib.Tactic.ByContra
import LineShell.Files.Tree
import LineShell.Proofs.Files.Contents
import LineShell.Proofs.Files.Locations

set_option autoImplicit false

namespace LineShell

namespace FileSystem

variable {fs after : FileSystem} {l k dir : Location} {n : Name} {node : Node}

/-- A file system whose entries form a tree, with a row of contents of its own for every
file. -/
structure Sound (fs : FileSystem) : Prop where
  /-- What stands somewhere stands in a directory. -/
  housed : ∀ l, fs.node? l ≠ none → fs.node? l.tail = some .directory
  /-- Every name is one that a directory can hold. -/
  short : ∀ n l, fs.node? (n :: l) ≠ none → n.length ≤ maxName
  numbered : fs.Numbered
  /-- No two entries share a file. -/
  unshared : ∀ l k id, fs.node? l = some (.file id) → fs.node? k = some (.file id) → l = k

namespace Sound

/-! ## Above and below -/

/-- Above what stands somewhere there are only directories. -/
theorem directory_above (h : fs.Sound) (hbelow : l <:+ k) (hne : k ≠ l)
    (hk : fs.node? k ≠ none) : fs.node? l = some .directory := by
  induction k with
  | nil => exact absurd (List.suffix_nil.mp hbelow).symm hne
  | cons n k ih =>
    have htail : l <:+ k := (List.suffix_cons_iff.mp hbelow).resolve_left (Ne.symm hne)
    have hdir : fs.node? k = some .directory := h.housed (n :: k) hk
    by_cases hl : k = l
    · rw [← hl, hdir]
    · exact ih htail hl (by rw [hdir]; exact Option.some_ne_none _)

/-- Below anything but a directory there is nothing. -/
theorem isFree_of_ne_directory (h : fs.Sound) (hl : fs.node? l ≠ some .directory) :
    fs.IsFree l := by
  intro k hbelow hne
  by_contra hk
  exact hl (h.directory_above hbelow hne hk)

/-- Below a directory that lists no names there is nothing. -/
theorem isFree_of_names_eq_nil (h : fs.Sound) (hl : fs.names l = []) : fs.IsFree l := by
  intro k hbelow hne
  by_contra hk
  obtain ⟨x, rfl⟩ := hbelow
  -- the name that follows `l` on the way to `k` would be listed
  rcases List.eq_nil_or_concat x with rfl | ⟨y, n, hx⟩
  · exact hne rfl
  rw [List.concat_eq_append] at hx
  subst hx
  have hstands : fs.node? (n :: l) ≠ none := by
    by_cases hy : y = []
    · subst hy
      exact hk
    · have hbelow : (n :: l) <:+ y ++ [n] ++ l := ⟨y, by simp⟩
      have hne : y ++ [n] ++ l ≠ n :: l := by simpa using hy
      rw [h.directory_above hbelow hne hk]
      exact Option.some_ne_none _
  obtain ⟨node, hnode⟩ := Option.ne_none_iff_exists'.mp hstands
  have hentry := mem_entries_of_node? (List.cons_ne_nil n l) hnode
  have hlisted : n ∈ fs.names l :=
    List.mem_filterMap.mpr ⟨(n :: l, node), hentry, if_pos rfl⟩
  rw [hl] at hlisted
  exact List.not_mem_nil hlisted

/-- Nothing stands below what may be replaced. -/
theorem isFree (h : fs.Sound) (hreplace : fs.mayReplace node l = .ok ()) : fs.IsFree l := by
  rcases hl : fs.node? l with _ | there
  · exact h.isFree_of_ne_directory (by rw [hl]; exact nofun)
  by_cases hthere : there = .directory
  · subst hthere
    unfold mayReplace at hreplace
    rw [hl] at hreplace
    -- only a directory replaces a directory, and only an empty one
    rcases node with _ | _ | _ | _
    · by_cases hempty : (fs.names l).isEmpty = true
      · exact h.isFree_of_names_eq_nil (List.isEmpty_iff.mp hempty)
      · rw [if_neg hempty] at hreplace
        exact nomatch hreplace
    · exact nomatch hreplace
    · exact nomatch hreplace
    · exact nomatch hreplace
  · exact h.isFree_of_ne_directory (by rw [hl]; simpa using hthere)

/-! ## Renaming -/

section Renaming

variable {source target : Location}

/-- What a rename does to a sound file system. -/
theorem node?_move (h : fs.Sound) (hmay : fs.MayRename node source target) (hne : source ≠ target)
    (k : Location) :
    (fs.move source target).node? k =
      if target <:+ k then fs.node? (k.take (k.length - target.length) ++ source)
      else if source <:+ k then none else fs.node? k :=
  FileSystem.node?_move hmay.source_ne_nil (hmay.not_below hne) (hmay.not_above hne)
    (h.isFree (hmay.replace hne)) k

/-- Renaming anything but a directory moves one entry and nothing else. -/
theorem node?_move_leaf (h : fs.Sound) (hmay : fs.MayRename node source target)
    (hne : source ≠ target) (hleaf : node ≠ .directory) (k : Location) :
    (fs.move source target).node? k =
      if k = target then some node else if k = source then none else fs.node? k := by
  have hsource : fs.IsFree source :=
    h.isFree_of_ne_directory (by rw [hmay.node_eq]; simpa using hleaf)
  rw [h.node?_move hmay hne]
  by_cases hk : target <:+ k
  · obtain ⟨x, rfl⟩ := hk
    rw [if_pos (List.suffix_append x target), List.length_append, Nat.add_sub_cancel,
      List.take_left]
    by_cases hx : x = []
    · subst hx
      rw [List.nil_append, List.nil_append, if_pos rfl]
      exact hmay.node_eq
    · -- below the target there is nothing, before and after
      have hbelow : ∀ l : Location, x ++ l ≠ l := fun l heq => hx (List.append_left_eq_self.mp heq)
      have habove : x ++ target ≠ source :=
        fun heq => hmay.not_above hne (heq ▸ List.suffix_append _ _)
      rw [if_neg (hbelow target), if_neg habove, hsource _ (List.suffix_append _ _) (hbelow source),
        h.isFree (hmay.replace hne) _ (List.suffix_append _ _) (hbelow target)]
  · have hkt : k ≠ target := fun heq => hk (heq ▸ List.suffix_rfl)
    rw [if_neg hk, if_neg hkt]
    by_cases hks : k = source
    · rw [if_pos hks, if_pos (hks ▸ List.suffix_rfl)]
    · rw [if_neg hks]
      by_cases hs : source <:+ k
      · rw [if_pos hs, hsource k hs hks]
      · rw [if_neg hs]

end Renaming

/-! ## What keeps it sound -/

theorem setContent (h : fs.Sound) (id : FileId) (content : Bytes) :
    (fs.setContent id content).Sound where
  housed := h.housed
  short := h.short
  numbered := fun l other hl => knows_setContent.mpr (h.numbered l other hl)
  unshared := h.unshared

/-- An entry that holds no file is added. -/
theorem insert (h : fs.Sound) (hdir : fs.node? dir = some .directory)
    (hshort : n.length ≤ maxName) (hnone : fs.node? (n :: dir) = none)
    (hfile : ∀ id, node ≠ .file id) :
    (fs.insert (n :: dir) node).Sound := by
  have hnode := @node?_insert fs _ (List.cons_ne_nil n dir) node
  -- a directory that was there is still there
  have hkept : ∀ k, fs.node? k = some .directory →
      (fs.insert (n :: dir) node).node? k = some .directory := by
    intro k hk
    rw [hnode, if_neg (fun heq => by rw [heq, hnone] at hk; exact nomatch hk), hk]
  refine ⟨fun k hk => ?_, fun m k hk => ?_, fun k id hk => ?_, fun k k' id hk hk' => ?_⟩
  · rw [hnode] at hk
    by_cases heq : k = n :: dir
    · subst heq
      exact hkept dir hdir
    · rw [if_neg heq] at hk
      exact hkept _ (h.housed k hk)
  · rw [hnode] at hk
    by_cases heq : m :: k = n :: dir
    · rw [(List.cons.inj heq).1]
      exact hshort
    · rw [if_neg heq] at hk
      exact h.short m k hk
  · rw [hnode] at hk
    by_cases heq : k = n :: dir
    · rw [if_pos heq, Option.some.injEq] at hk
      exact absurd hk (hfile id)
    · rw [if_neg heq] at hk
      exact h.numbered k id hk
  · have hold : ∀ k, (fs.insert (n :: dir) node).node? k = some (.file id) →
        fs.node? k = some (.file id) := by
      intro k hk
      rw [hnode] at hk
      by_cases heq : k = n :: dir
      · rw [if_pos heq, Option.some.injEq] at hk
        exact absurd hk (hfile id)
      · rwa [if_neg heq] at hk
    exact h.unshared k k' id (hold k hk) (hold k' hk')

/-- An empty file is added. -/
theorem addFile (h : fs.Sound) (hdir : fs.node? dir = some .directory)
    (hshort : n.length ≤ maxName) (hnone : fs.node? (n :: dir) = none) :
    (fs.addFile (n :: dir)).2.Sound := by
  have hnode := @node?_addFile fs _ (List.cons_ne_nil n dir)
  have hkept : ∀ k, fs.node? k = some .directory →
      (fs.addFile (n :: dir)).2.node? k = some .directory := by
    intro k hk
    rw [hnode, if_neg (fun heq => by rw [heq, hnone] at hk; exact nomatch hk), hk]
  -- the number of the new file is one that no entry had
  have hfresh : ∀ k, fs.node? k ≠ some (.file fs.files.length) :=
    fun k hk => Nat.lt_irrefl _ (h.numbered k _ hk)
  refine ⟨fun k hk => ?_, fun m k hk => ?_, fun k id hk => ?_, fun k k' id hk hk' => ?_⟩
  · rw [hnode] at hk
    by_cases heq : k = n :: dir
    · subst heq
      exact hkept dir hdir
    · rw [if_neg heq] at hk
      exact hkept _ (h.housed k hk)
  · rw [hnode] at hk
    by_cases heq : m :: k = n :: dir
    · rw [(List.cons.inj heq).1]
      exact hshort
    · rw [if_neg heq] at hk
      exact h.short m k hk
  · rw [hnode] at hk
    by_cases heq : k = n :: dir
    · rw [if_pos heq, Option.some.injEq] at hk
      injection hk with hid
      rw [← hid]
      exact (addFile_new fs _).1
    · rw [if_neg heq] at hk
      exact knows_addFile (h.numbered k id hk) _
  · rw [hnode] at hk hk'
    by_cases heq : k = n :: dir
    · by_cases heq' : k' = n :: dir
      · rw [heq, heq']
      · rw [if_pos heq, Option.some.injEq] at hk
        rw [if_neg heq', ← hk] at hk'
        exact absurd hk' (hfresh k')
    · by_cases heq' : k' = n :: dir
      · rw [if_pos heq', Option.some.injEq] at hk'
        rw [if_neg heq, ← hk'] at hk
        exact absurd hk (hfresh k)
      · rw [if_neg heq] at hk
        rw [if_neg heq'] at hk'
        exact h.unshared k k' id hk hk'

/-- An entry with nothing below it is dropped. -/
theorem erase (h : fs.Sound) (hl : l ≠ []) (hfree : fs.IsFree l) : (fs.erase l).Sound := by
  have hnode := @node?_erase fs _ hl
  have hold : ∀ {k node}, (fs.erase l).node? k = some node → fs.node? k = some node := by
    intro k node hk
    rw [hnode] at hk
    by_cases heq : k = l
    · rw [if_pos heq] at hk
      exact nomatch hk
    · rwa [if_neg heq] at hk
  refine ⟨fun k hk => ?_, fun m k hk => ?_, fun k id hk => h.numbered k id (hold hk),
    fun k k' id hk hk' => h.unshared k k' id (hold hk) (hold hk')⟩
  case refine_2 =>
    obtain ⟨node, hk⟩ := Option.ne_none_iff_exists'.mp hk
    exact h.short m k (by rw [hold hk]; exact Option.some_ne_none _)
  rw [hnode] at hk
  by_cases heq : k = l
  · rw [if_pos heq] at hk
    exact absurd rfl hk
  · rw [if_neg heq] at hk
    rw [hnode, if_neg, h.housed k hk]
    -- what stands in `l` would stand below it
    intro htail
    exact hk (hfree k (htail ▸ List.tail_suffix k) heq)

/-- An entry is renamed. -/
theorem move {source target : Location} (h : fs.Sound) (hmay : fs.MayRename node source target)
    (hne : source ≠ target) : (fs.move source target).Sound := by
  obtain ⟨n, dirS, rfl⟩ := List.exists_cons_of_ne_nil hmay.source_ne_nil
  obtain ⟨m, dirT, rfl⟩ := List.exists_cons_of_ne_nil hmay.target_ne_nil
  have hnode := h.node?_move hmay hne
  -- what stands somewhere afterwards stood at its origin before
  have horigin : ∀ {k node}, (fs.move (n :: dirS) (m :: dirT)).node? k = some node →
      (∃ x, k = x ++ m :: dirT ∧ fs.node? (x ++ n :: dirS) = some node)
        ∨ (¬ (n :: dirS) <:+ k ∧ ¬ (m :: dirT) <:+ k ∧ fs.node? k = some node) := by
    intro k node hk
    rw [hnode] at hk
    by_cases ht : (m :: dirT) <:+ k
    · obtain ⟨x, rfl⟩ := ht
      rw [if_pos (List.suffix_append x _), List.length_append, Nat.add_sub_cancel,
        List.take_left] at hk
      exact .inl ⟨x, rfl, hk⟩
    · rw [if_neg ht] at hk
      by_cases hs : (n :: dirS) <:+ k
      · rw [if_pos hs] at hk
        exact nomatch hk
      · rw [if_neg hs] at hk
        exact .inr ⟨hs, ht, hk⟩
  refine ⟨fun k hk => ?_, fun a k hk => ?_, fun k id hk => ?_, fun k k' id hk hk' => ?_⟩
  · obtain ⟨there, hthere⟩ := Option.ne_none_iff_exists'.mp hk
    rcases horigin hthere with ⟨x, rfl, hold⟩ | ⟨hs, ht, hold⟩
    · rcases x with _ | ⟨a, x⟩
      · -- the target itself: its directory is neither below it nor below the source
        show (fs.move _ _).node? dirT = _
        have hbelow : ¬ (m :: dirT) <:+ dirT := fun ht => Nat.not_succ_le_self _ ht.length_le
        have hinto : ¬ (n :: dirS) <:+ dirT := hmay.not_into
        rw [hnode, if_neg hbelow, if_neg hinto]
        exact hmay.parent
      · show (fs.move _ _).node? (x ++ m :: dirT) = _
        rw [hnode, if_pos (List.suffix_append x _), List.length_append, Nat.add_sub_cancel,
          List.take_left]
        exact h.housed (a :: x ++ n :: dirS) (by rw [hold]; exact Option.some_ne_none _)
    · rw [hnode, if_neg (fun ht' => ht (ht'.trans (List.tail_suffix k))),
        if_neg (fun hs' => hs (hs'.trans (List.tail_suffix k)))]
      exact h.housed k (by rw [hold]; exact Option.some_ne_none _)
  · obtain ⟨there, hthere⟩ := Option.ne_none_iff_exists'.mp hk
    rcases horigin hthere with ⟨x, hx, hold⟩ | ⟨-, -, hold⟩
    · rcases x with _ | ⟨b, x⟩
      · rw [List.nil_append, List.cons.injEq] at hx
        rw [hx.1]
        exact hmay.short m rfl
      · rw [List.cons_append, List.cons.injEq] at hx
        rw [hx.1]
        exact h.short b _ (by rw [← List.cons_append, hold]; exact Option.some_ne_none _)
    · exact h.short a k (by rw [hold]; exact Option.some_ne_none _)
  · rcases horigin hk with ⟨x, rfl, hold⟩ | ⟨-, -, hold⟩
    · exact h.numbered _ id hold
    · exact h.numbered _ id hold
  · rcases horigin hk with ⟨x, rfl, hold⟩ | ⟨hs, -, hold⟩
    · rcases horigin hk' with ⟨y, rfl, hold'⟩ | ⟨hs', -, hold'⟩
      · rw [List.append_cancel_right (h.unshared _ _ id hold hold')]
      · exact absurd (h.unshared _ _ id hold hold' ▸ List.suffix_append x _) hs'
    · rcases horigin hk' with ⟨y, rfl, hold'⟩ | ⟨-, -, hold'⟩
      · exact absurd (h.unshared _ _ id hold hold' ▸ List.suffix_append y _) hs
      · exact h.unshared k k' id hold hold'

/-! ## Calls -/

variable {p : Path}

theorem openForWriting {opened : Opened} (h : fs.Sound)
    (hopen : fs.openForWriting p = .ok (opened, after)) : after.Sound := by
  obtain ⟨dir, n, -, hdir, hshort, ⟨hnone, -, rfl⟩ | ⟨_, -, -, rfl⟩ | ⟨_, -, -, rfl⟩⟩ :=
    openForWriting_cases hopen
  · exact h.addFile hdir hshort hnone
  · exact h
  · exact h

theorem openTarget {mode : Redirection} {handle : Handle} (h : fs.Sound)
    (hopen : fs.openTarget p mode = .ok (handle, after)) : after.Sound := by
  rcases openTarget_cases hopen with ⟨id, opened, hopen, hafter⟩ | ⟨d, hopen, -⟩
  · have hopened := h.openForWriting hopen
    rcases hafter with ⟨-, -, rfl⟩ | ⟨-, -, rfl⟩
    · exact hopened.setContent id []
    · exact hopened
  · exact h.openForWriting hopen

theorem write (h : fs.Sound) (handle : Handle) (bytes : Bytes) :
    (handle.write bytes fs).2.2.Sound := by
  unfold Handle.write
  split
  · exact h
  · rcases handle with id | ⟨id, offset⟩ | d
    · exact h.setContent id _
    · exact h.setContent id _
    · rcases d with _ | _ | _ <;> exact h

theorem copy (h : fs.Sound) (source target : Path) : (fs.copy source target).2.Sound := by
  unfold FileSystem.copy
  split
  · split
    · exact h
    · rename_i hopen
      exact (h.openTarget hopen).write _ _
  · exact h
  · exact h

theorem commit {result : Except IoError FileSystem} (h : fs.Sound)
    (hafter : ∀ after, result = .ok after → after.Sound) : (fs.commit result).2.Sound := by
  rcases result with e | after
  · exact h
  · exact hafter after rfl

/-- Every call keeps a file system sound. -/
theorem perform (h : fs.Sound) (call : FileCall) : (fs.perform call).2.Sound := by
  cases call with
  | status p => exact h
  | entryStatus p => exact h
  | list p => exact h
  | read p => exact h
  | makeDirectory p =>
    refine h.commit fun after hafter => ?_
    obtain ⟨dir, n, slash, -, hdir, hshort, hnone, rfl⟩ := addEntry_cases hafter
    exact h.insert hdir hshort hnone fun id => nofun
  | removeDirectory p =>
    refine h.commit fun after hafter => ?_
    obtain ⟨dir, n, slash, -, -, hempty, rfl⟩ := removeDirectory_cases hafter
    exact h.erase (List.cons_ne_nil n dir) (h.isFree_of_names_eq_nil hempty)
  | removeFile p =>
    refine h.commit fun after hafter => ?_
    obtain ⟨dir, n, node, -, hnode, hdir, rfl⟩ := removeFile_cases hafter
    exact h.erase (List.cons_ne_nil n dir)
      (h.isFree_of_ne_directory (by rw [hnode]; simpa using hdir))
  | touch p =>
    refine h.commit fun after hafter => ?_
    rcases touch_cases hafter with ⟨id, opened, hopen, rfl⟩ | ⟨d, hopen⟩
    · exact (h.openForWriting hopen).setContent id _
    · exact h.openForWriting hopen
  | rename source target =>
    refine h.commit fun after hafter => ?_
    obtain ⟨dirS, n, slashS, dirT, m, slashT, node, -, -, hmay, -, hafter⟩ := rename_cases hafter
    rcases hafter with ⟨-, rfl⟩ | ⟨hne, rfl⟩
    · exact h
    · exact h.move hmay hne
  | copy source target => exact h.copy source target

/-! ## What is built is sound -/

theorem makeDirectories (h : fs.Sound) (done rest : List Path.Component) :
    (fs.makeDirectories done rest).Sound := by
  induction rest generalizing fs done with
  | nil => exact h
  | cons c rest ih =>
    unfold FileSystem.makeDirectories
    simp only
    split
    · exact ih h _
    · exact ih (h.perform (.makeDirectory _)) _

theorem plant (h : fs.Sound) (seed : Seed) : (fs.plant seed).Sound := by
  rcases seed with p | ⟨p, content⟩ | ⟨p, target⟩
  · exact h.makeDirectories _ _
  · have hparents : (fs.makeParents p).Sound := h.makeDirectories _ _
    show ((fs.makeParents p).writeFile p content).Sound
    unfold writeFile
    split
    · rename_i hopen
      exact (hparents.openTarget hopen).write _ _
    · exact hparents
  · have hparents : (fs.makeParents p).Sound := h.makeDirectories _ _
    refine hparents.commit fun after hafter => ?_
    obtain ⟨dir, n, slash, -, hdir, hshort, hnone, rfl⟩ := addEntry_cases hafter
    exact hparents.insert hdir hshort hnone fun id => nofun

theorem settle (h : fs.Sound) : fs.settle.Sound where
  housed := h.housed
  short := h.short
  numbered := fun l id hl => by
    rw [Knows, FileSystem.settle, List.length_map]
    exact h.numbered l id hl
  unshared := h.unshared

end Sound

section Fresh

variable {base : Name} {others : List Name} (hnames : ∀ n ∈ base :: others, n.length ≤ maxName)
include hnames

/-- A fresh file system holds directories in the root, and devices in one of them. -/
theorem fresh_cases (h : (fresh base others).node? l = some node) :
    (∀ n ∈ l.head?, n.length ≤ maxName)
      ∧ ((node = .directory ∧ l.tail = [])
        ∨ ((∃ d, node = .device d) ∧ l.tail = [Text.encode "dev"])) := by
  by_cases hroot : l = []
  · subst hroot
    injection h with h
    exact ⟨fun n hn => (nomatch hn), .inl ⟨h.symm, rfl⟩⟩
  have hentry := mem_entries_of_node? hroot h
  rw [fresh, List.mem_append, List.mem_map] at hentry
  rcases hentry with ⟨top, htop, hentry⟩ | hentry
  · injection hentry with hl hnode
    subst hl hnode
    have hnamed : ∃ n ∈ base :: others, top = [n] := by
      rw [List.mem_cons, List.mem_map] at htop
      rcases htop with rfl | ⟨n, hn, rfl⟩
      · exact ⟨base, List.mem_cons_self, rfl⟩
      · exact ⟨n, List.mem_cons_of_mem _ hn, rfl⟩
    obtain ⟨n, hn, rfl⟩ := hnamed
    refine ⟨fun m hm => ?_, .inl ⟨rfl, rfl⟩⟩
    injection hm with hm
    rw [← hm]
    exact hnames n hn
  · simp only [List.mem_cons, Prod.mk.injEq, List.not_mem_nil, or_false] at hentry
    rcases hentry with ⟨rfl, rfl⟩ | ⟨rfl, rfl⟩ | ⟨rfl, rfl⟩
    · exact ⟨by decide +kernel, .inl ⟨rfl, rfl⟩⟩
    · exact ⟨by decide +kernel, .inr ⟨⟨_, rfl⟩, rfl⟩⟩
    · exact ⟨by decide +kernel, .inr ⟨⟨_, rfl⟩, rfl⟩⟩

theorem sound_fresh : (fresh base others).Sound := by
  have hfile : ∀ l id, (fresh base others).node? l ≠ some (.file id) := by
    intro l id h
    rcases (fresh_cases hnames h).2 with ⟨hnode, -⟩ | ⟨⟨d, hnode⟩, -⟩ <;> exact nomatch hnode
  refine ⟨fun l hl => ?_, fun n l hl => ?_, fun l id h => absurd h (hfile l id),
    fun l k id h => absurd h (hfile l id)⟩
  · obtain ⟨node, hnode⟩ := Option.ne_none_iff_exists'.mp hl
    rcases (fresh_cases hnames hnode).2 with ⟨-, htail⟩ | ⟨-, htail⟩
    · rw [htail]
      rfl
    · rw [htail]
      -- the directory of the devices is there, whichever of the entries of its name comes first
      have hdev : (fresh base others).entries.lookup [Text.encode "dev"] ≠ none := by
        rw [ne_eq, List.lookup_eq_none_iff]
        intro hnone
        have := hnone ([Text.encode "dev"], .directory)
          (List.mem_append_right _ List.mem_cons_self)
        simp at this
      obtain ⟨dev, hdev⟩ := Option.ne_none_iff_exists'.mp hdev
      have hstands : (fresh base others).node? [Text.encode "dev"] = some dev := hdev
      rcases (fresh_cases hnames hstands).2 with ⟨rfl, -⟩ | ⟨-, htail⟩
      · exact hstands
      · exact nomatch htail
  · obtain ⟨node, hnode⟩ := Option.ne_none_iff_exists'.mp hl
    exact (fresh_cases hnames hnode).1 n rfl

end Fresh

/-- A file system that is built from seeds is sound. -/
theorem sound_ofSeeds (h : fs.Sound) (seeds : List Seed) : (ofSeeds fs seeds).Sound := by
  refine Sound.settle ?_
  induction seeds generalizing fs with
  | nil => exact h
  | cons seed seeds ih => exact ih (h.plant seed)

end FileSystem

end LineShell
