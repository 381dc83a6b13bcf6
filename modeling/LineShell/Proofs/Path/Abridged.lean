/-
What is left of the text of a path.

Both ways to go up, and normalizing in general, only leave parts of a text out.  Nothing on the
stack is new, and it stands there in the order of the text (`reverse_foldl_sublist`); and dropping
the last component drops what is behind a slash.  So what is left is an abridgement: a path of some
of the parts (`Abridges`).  Its text has no byte that the path did not have, and its display takes
no more room.
-/
import LineShell.Proofs.Path.Normal
import LineShell.Proofs.Text.Joined

set_option autoImplicit false

namespace LineShell.Path

open LineShell.Text

variable {p short : Path}

/-! ## Components that are left -/

theorem pushComponent_sublist (stack : List Component) (c : Component) :
    (pushComponent stack c).reverse.Sublist (stack.reverse ++ [c]) := by
  have hkept : stack.reverse.Sublist (stack.reverse ++ [c]) := List.sublist_append_left _ _
  unfold pushComponent
  split
  · exact hkept
  · split
    · -- the name on top is taken away
      apply List.Sublist.trans _ hkept
      rw [List.reverse_cons]
      exact List.sublist_append_left _ _
    · exact hkept
    · rw [List.reverse_cons]
  · rw [List.reverse_cons]

/-- What is on the stack was on it before, or was taken into it, and stands in this order. -/
theorem reverse_foldl_sublist (cs stack : List Component) :
    (cs.foldl pushComponent stack).reverse.Sublist (stack.reverse ++ cs) := by
  induction cs generalizing stack with
  | nil => rw [List.foldl_nil, List.append_nil]
  | cons c cs ih =>
    have hfirst := (pushComponent_sublist stack c).append (List.Sublist.refl cs)
    rw [List.append_assoc, List.singleton_append] at hfirst
    exact (ih _).trans hfirst

/-- Each component is written as the part that it stands for. -/
theorem map_bytes_sublist (parts : List Bytes) :
    ((parts.flatMap Component.ofSegment).map Component.bytes).Sublist parts := by
  induction parts with
  | nil => exact .refl _
  | cons part parts ih =>
    rw [List.flatMap_cons, List.map_append]
    unfold Component.ofSegment
    split
    · exact ih.cons part
    · split
      · rename_i hup
        rw [hup]
        exact ih.cons_cons _
      · exact ih.cons_cons part

/-! ## Abridgements -/

/-- An absolute path that is made of some of the parts of another one. -/
def Abridges (short p : Path) : Prop :=
  ∃ (kept : List Bytes) (rest : Bytes), short = rooted kept ∧ p = ⟨slash :: rest⟩
    ∧ kept.Sublist (split (· == slash) rest)

theorem abridges_refl (h : p.isAbsolute = true) : p.Abridges p := by
  obtain ⟨rest, rfl⟩ := exists_bytes_of_isAbsolute h
  exact ⟨_, rest, by rw [rooted, join_split], rfl, .refl _⟩

theorem abridges_normalize (h : p.isAbsolute = true) : p.normalize.Abridges p := by
  obtain ⟨ups, names, -, hnormal, hreduce⟩ := p.exists_ofStack
  obtain ⟨rest, rfl⟩ := exists_bytes_of_isAbsolute h
  rw [h] at hnormal hreduce
  refine ⟨names, rest, hnormal, rfl, ?_⟩
  have hkept := reverse_foldl_sublist (components ⟨slash :: rest⟩) []
  rw [← reduce, hreduce, List.reverse_append, List.reverse_reverse, components_slash] at hkept
  have hnames : (names.map Component.name).Sublist
      ((split (· == slash) rest).flatMap Component.ofSegment) := List.cons_sublist_cons.mp hkept
  have hbytes := hnames.map Component.bytes
  rw [List.map_map, show Component.bytes ∘ Component.name = id from rfl, List.map_id] at hbytes
  exact hbytes.trans (map_bytes_sublist _)

theorem abridges_parent (h : p.isAbsolute = true) : (p.parent?.getD p).Abridges p := by
  have hself := abridges_refl h
  obtain ⟨rest, rfl⟩ := exists_bytes_of_isAbsolute h
  rw [parent?, restFromRight_slash, lead_slash]
  split
  · exact hself
  · rename_i last before hlast
    have hbefore : before.Sublist (split (· == slash) rest).reverse := by
      apply (List.sublist_cons_self last before).trans
      rw [← hlast]
      exact List.dropWhile_sublist isVoid
    have hkept := ((List.dropWhile_sublist isVoid).trans hbefore).reverse
    rw [List.reverse_reverse] at hkept
    exact ⟨_, rest, rfl, rfl, hkept⟩

/-- An abridgement has only bytes of the path. -/
theorem Abridges.bytes_sublist (h : short.Abridges p) : short.bytes.Sublist p.bytes := by
  obtain ⟨kept, rest, rfl, rfl, hkept⟩ := h
  have hjoin := @join_sublist _ slash _ _ hkept
  rw [join_split] at hjoin
  exact hjoin.cons_cons slash

/-- An abridgement is shown with no more bytes than the path. -/
theorem Abridges.length_display (h : short.Abridges p) :
    (encode short.display).length ≤ (encode p.display).length := by
  obtain ⟨kept, rest, rfl, rfl, hkept⟩ := h
  have hslash : slash < 0x80 := by decide
  have hparts := hkept.map scan
  apply length_encode_display
  show (scan ([] ++ slash :: Text.join slash kept)).Sublist (scan ([] ++ slash :: rest))
  rw [← join_split slash rest, scan_append hslash, scan_append hslash, scan_join hslash,
    scan_join hslash]
  exact ((join_sublist hparts).cons_cons _).append_left _

end LineShell.Path
