/-
What stands where, after a change.

Each change of the tree is read off as a function of locations: an entry that is added stands
at its location and nothing else moves, an entry that is dropped is gone, and a rename
carries everything below the source over to the target.  The root is no entry, so these
hold for every location but the root as the one that changes.
-/
import LineShell.Proofs.Files.Contents

set_option autoImplicit false

namespace LineShell

namespace FileSystem

variable {fs : FileSystem} {l k source target : Location}

/-! ## Looking up in a changed list -/

theorem lookup_filter_ne (es : List (Location × Node)) {a b : Location} (h : b ≠ a) :
    (es.filter (fun e => e.1 ≠ a)).lookup b = es.lookup b := by
  induction es with
  | nil => rfl
  | cons e es ih =>
    by_cases he : e.1 = a
    · have hb : (b == e.1) = false := beq_eq_false_iff_ne.mpr (he ▸ h)
      rw [List.filter_cons_of_neg (by simpa using he), ih, List.lookup_cons, hb]
    · rw [List.filter_cons_of_pos (by simpa using he), List.lookup_cons, List.lookup_cons, ih]

theorem lookup_filter_self (es : List (Location × Node)) (a : Location) :
    (es.filter (fun e => e.1 ≠ a)).lookup a = none := by
  rw [List.lookup_eq_none_iff]
  intro e he
  have hne : e.1 ≠ a := by simpa using (List.mem_filter.mp he).2
  exact bne_iff_ne.mpr hne.symm

/-- If exactly the key `a` is carried over to `b`, then what `b` has is what `a` had. -/
theorem lookup_map_key {f : Location → Location} {a b : Location} (es : List (Location × Node))
    (h : ∀ e ∈ es, f e.1 = b ↔ e.1 = a) :
    (es.map (fun e => (f e.1, e.2))).lookup b = es.lookup a := by
  induction es with
  | nil => rfl
  | cons e es ih =>
    have ih := ih fun e' he' => h e' (List.mem_cons_of_mem _ he')
    rw [List.map_cons, List.lookup_cons, List.lookup_cons, ih]
    by_cases he : e.1 = a
    · rw [(h e List.mem_cons_self).mpr he, he, beq_self_eq_true, beq_self_eq_true]
    · have hb : b ≠ f e.1 := fun hb => he ((h e List.mem_cons_self).mp hb.symm)
      rw [beq_eq_false_iff_ne.mpr hb, beq_eq_false_iff_ne.mpr (Ne.symm he)]

theorem lookup_map_key_none {f : Location → Location} {b : Location}
    (es : List (Location × Node)) (h : ∀ e ∈ es, f e.1 ≠ b) :
    (es.map (fun e => (f e.1, e.2))).lookup b = none := by
  rw [List.lookup_eq_none_iff]
  intro e he
  obtain ⟨e, hmem, rfl⟩ := List.mem_map.mp he
  exact bne_iff_ne.mpr (Ne.symm (h e hmem))

/-! ## The changes -/

theorem node?_eq_lookup (h : l ≠ []) : fs.node? l = fs.entries.lookup l := if_neg h

theorem mem_entries_of_node? {node : Node} (h : l ≠ []) (hnode : fs.node? l = some node) :
    (l, node) ∈ fs.entries := by
  rw [node?_eq_lookup h] at hnode
  obtain ⟨before, behind, hentries, -⟩ := List.lookup_eq_some_iff.mp hnode
  rw [hentries]
  exact List.mem_append_right before List.mem_cons_self

theorem node?_insert (h : l ≠ []) (node : Node) (k : Location) :
    (fs.insert l node).node? k = if k = l then some node else fs.node? k := by
  by_cases hroot : k = []
  · subst hroot
    rw [if_neg (Ne.symm h)]
    rfl
  · rw [node?_eq_lookup hroot, node?_eq_lookup hroot, insert, List.lookup_cons]
    by_cases hkl : k = l
    · rw [if_pos hkl, hkl, beq_self_eq_true]
    · rw [if_neg hkl, beq_eq_false_iff_ne.mpr hkl]

theorem node?_addFile (h : l ≠ []) (k : Location) :
    (fs.addFile l).2.node? k = if k = l then some (.file fs.files.length) else fs.node? k :=
  node?_insert h _ k

theorem node?_erase (h : l ≠ []) (k : Location) :
    (fs.erase l).node? k = if k = l then none else fs.node? k := by
  by_cases hroot : k = []
  · subst hroot
    rw [if_neg (Ne.symm h)]
    rfl
  · rw [node?_eq_lookup hroot, node?_eq_lookup hroot, erase]
    by_cases hkl : k = l
    · subst hkl
      rw [if_pos rfl]
      exact lookup_filter_self _ _
    · rw [if_neg hkl]
      exact lookup_filter_ne _ hkl

/-! ## Renaming -/

theorem relocate_append (x : Location) : relocate source target (x ++ source) = x ++ target := by
  rw [relocate, if_pos (List.suffix_append x source), List.length_append, Nat.add_sub_cancel,
    List.take_left]

theorem relocate_of_not_suffix (h : ¬ source <:+ l) : relocate source target l = l := if_neg h

/-- Nothing stands below a location. -/
def IsFree (fs : FileSystem) (l : Location) : Prop := ∀ k, l <:+ k → k ≠ l → fs.node? k = none

theorem lookup_ne_none_of_mem {e : Location × Node} (he : e ∈ fs.entries) :
    fs.entries.lookup e.1 ≠ none := by
  intro hnone
  have := List.lookup_eq_none_iff.mp hnone e he
  simp at this

/-- After a rename, what stood below the source stands below the target, nothing stands at or
below the source, and everything else is where it was. -/
theorem node?_move (hsource : source ≠ []) (hinto : ¬ source <:+ target)
    (honto : ¬ target <:+ source) (hfree : fs.IsFree target) (k : Location) :
    (fs.move source target).node? k =
      if target <:+ k then fs.node? (k.take (k.length - target.length) ++ source)
      else if source <:+ k then none else fs.node? k := by
  have htarget : target ≠ [] := fun h => honto (h ▸ List.nil_suffix)
  -- an entry that is kept and not carried over does not stand below the target
  have hkept : ∀ e ∈ (fs.erase target).entries, target <:+ e.1 → False := by
    intro e he hbelow
    obtain ⟨he, hne⟩ := List.mem_filter.mp he
    have hne : e.1 ≠ target := by simpa using hne
    have hroot : e.1 ≠ [] := fun h => htarget (List.suffix_nil.mp (h ▸ hbelow))
    have hnone := hfree e.1 hbelow hne
    rw [node?_eq_lookup hroot] at hnone
    exact lookup_ne_none_of_mem he hnone
  by_cases hroot : k = []
  · subst hroot
    rw [if_neg (fun h => htarget (List.suffix_nil.mp h)),
      if_neg (fun h => hsource (List.suffix_nil.mp h))]
    rfl
  rw [node?_eq_lookup hroot]
  show ((fs.entries.filter (fun e => e.1 ≠ target)).map
    (fun e => (relocate source target e.1, e.2))).lookup k = _
  by_cases hk : target <:+ k
  · obtain ⟨x, rfl⟩ := hk
    have hne : x ++ source ≠ target := fun h => hinto (h ▸ List.suffix_append x source)
    have hroot' : x ++ source ≠ [] := List.append_ne_nil_of_right_ne_nil x hsource
    rw [if_pos (List.suffix_append x target), List.length_append, Nat.add_sub_cancel,
      List.take_left, node?_eq_lookup hroot', ← lookup_filter_ne fs.entries hne]
    refine lookup_map_key _ fun e he => ⟨fun h => ?_, fun h => ?_⟩
    · by_cases hs : source <:+ e.1
      · obtain ⟨y, hy⟩ := hs
        rw [← hy, relocate_append, List.append_cancel_right_eq] at h
        rw [← hy, h]
      · rw [relocate_of_not_suffix hs] at h
        exact (hkept e he (h ▸ List.suffix_append x target)).elim
    · rw [h, relocate_append]
  · rw [if_neg hk]
    -- what is carried over lands below the target, and `k` does not lie there
    have hcarried : ∀ e : Location × Node, source <:+ e.1 → relocate source target e.1 ≠ k := by
      rintro ⟨_, node⟩ ⟨y, rfl⟩ h
      rw [relocate_append] at h
      exact hk (h ▸ List.suffix_append y target)
    by_cases hs : source <:+ k
    · rw [if_pos hs]
      refine lookup_map_key_none _ fun e he h => ?_
      by_cases hse : source <:+ e.1
      · exact hcarried e hse h
      · rw [relocate_of_not_suffix hse] at h
        exact hse (h ▸ hs)
    · have hne : k ≠ target := fun h => hk (h ▸ List.suffix_rfl)
      rw [if_neg hs, node?_eq_lookup hroot, ← lookup_filter_ne fs.entries hne]
      refine lookup_map_key _ fun e he => ⟨fun h => ?_, fun h => ?_⟩
      · by_cases hse : source <:+ e.1
        · exact (hcarried e hse h).elim
        · rwa [relocate_of_not_suffix hse] at h
      · rw [relocate_of_not_suffix (h ▸ hs), h]

end FileSystem

end LineShell
