/-
Normal forms of absolute paths.

An absolute path in normal form is the root and plain names behind it (`Path.rooted`), and
normalizing an absolute path gives such a path (`Path.exists_rooted`).  Both ways to go up are read
off the components.  Putting `..` behind a path takes one more component into the stack, and
reducing takes the last name away again; dropping the last component takes it away in the text.  So
the two agree wherever the text without the last component is normal (`Path.Upright.parent_eq`),
however many slashes stand behind that component.
-/
import LineShell.Proofs.Path.Reduction

set_option autoImplicit false

namespace LineShell.Path

open LineShell.Text

variable {p q : Path} {n : Bytes} {names : List Bytes}

/-! ## Absolute paths -/

theorem exists_bytes_of_isAbsolute (h : p.isAbsolute = true) : ∃ rest, p = ⟨slash :: rest⟩ := by
  obtain ⟨bytes⟩ := p
  cases bytes with
  | nil => simp [isAbsolute] at h
  | cons b rest =>
    have hb : b = slash := by simpa [isAbsolute] using h
    exact ⟨rest, by rw [hb]⟩

theorem isAbsolute_slash (rest : Bytes) : isAbsolute ⟨slash :: rest⟩ = true := by
  simp [isAbsolute]

/-- The components of an absolute path are the root and what stands between its slashes. -/
theorem components_of_isAbsolute (h : p.isAbsolute = true) : p.components = .root :: p.inner := by
  rw [components, lead, if_pos h]
  rfl

theorem components_slash (rest : Bytes) :
    components ⟨slash :: rest⟩
      = .root :: (split (· == slash) rest).flatMap Component.ofSegment := by
  rw [components_of_isAbsolute (isAbsolute_slash rest)]
  exact congrArg (Component.root :: ·) (inner_append_slash [] rest)

/-- The components of a path that is put together from parts are those of the parts. -/
theorem components_slash_join {parts : List Bytes} (h : ∀ part ∈ parts, slash ∉ part) :
    components ⟨slash :: Text.join slash parts⟩
      = .root :: parts.flatMap Component.ofSegment := by
  rw [components_slash]
  exact congrArg (Component.root :: ·) (inner_mk_join h)

theorem components_rooted (h : ∀ n ∈ names, Plain n) :
    (rooted names).components = .root :: names.map .name := by
  rw [components_of_isAbsolute (isAbsolute_rooted names), inner_rooted h]

/-- The normal form of an absolute path is the root and plain names. -/
theorem exists_rooted (h : p.isAbsolute = true) :
    ∃ names, (∀ n ∈ names, Plain n) ∧ p.normalize = rooted names := by
  obtain ⟨ups, names, hnames, hnormal, -⟩ := p.exists_ofStack
  rw [h] at hnormal
  exact ⟨names, hnames, hnormal⟩

/-- The root and plain names behind it are a normal form. -/
theorem normalize_rooted (h : ∀ n ∈ names, Plain n) : (rooted names).normalize = rooted names := by
  have hreduce : reduce (rooted names).components = (names.map .name).reverse ++ [.root] :=
    reduce_ofStack true 0 h
  rw [normalize, hreduce, List.reverse_append, List.reverse_reverse]
  exact ofComponents_rooted names

theorem isAbsolute_normalize (h : p.isAbsolute = true) : p.normalize.isAbsolute = true := by
  rw [isAbsolute_normalize_eq, h]

/-! ## Joining -/

/-- What is seen from an absolute path is absolute. -/
theorem isAbsolute_join (habs : p.isAbsolute = true) (right : Path) :
    (p.join right).isAbsolute = true := by
  obtain ⟨rest, rfl⟩ := exists_bytes_of_isAbsolute habs
  unfold join
  split
  · assumption
  · split <;> exact isAbsolute_slash _

/-- The name `..`, and the same with a slash behind it. -/
def upward (marked : Bool) : Path := if marked then ofString "../" else ofString ".."

theorem normalize_join_upward (p : Path) (marked : Bool) :
    (p.join (upward marked)).normalize
      = ofComponents (pushComponent (reduce p.components) .up).reverse := by
  have hrel : (upward marked).isAbsolute = false := by cases marked <;> decide
  have hup : (upward marked).inner = [.up] := by cases marked <;> decide
  rw [normalize, reduce_join hrel, hup]
  rfl

/-! ## Dropping the last component -/

theorem lead_slash (rest : Bytes) : lead ⟨slash :: rest⟩ = .root := by
  simp [lead, isAbsolute_slash]

theorem restFromRight_slash (rest : Bytes) :
    restFromRight ⟨slash :: rest⟩ = (split (· == slash) rest).reverse := by
  simp [restFromRight, lead_slash, Lead.bytes]

theorem fileName?_eq_some_iff : p.fileName? = some n ↔ p.components.getLast? = some (.name n) := by
  unfold fileName?
  split
  · rename_i last hlast
    simp [hlast]
  · rename_i hlast
    constructor
    · intro h
      exact nomatch h
    · intro h
      exact absurd h (hlast n)

/-- Void parts at the end are no components. -/
theorem flatMap_ofSegment_dropWhile (parts : List Bytes) :
    (parts.dropWhile isVoid).reverse.flatMap Component.ofSegment
      = parts.reverse.flatMap Component.ofSegment := by
  induction parts with
  | nil => rfl
  | cons part parts ih =>
    rw [List.dropWhile_cons]
    split
    · rename_i hvoid
      rw [ih, List.reverse_cons, List.flatMap_append, List.flatMap_singleton,
        ofSegment_of_isVoid hvoid, List.append_nil]
    · rfl

/-- A last part that makes the last component a name is that name. -/
theorem ofSegment_of_getLast? {cs : List Component} {part : Bytes} (hvoid : isVoid part = false)
    (h : (cs ++ Component.ofSegment part).getLast? = some (.name n)) :
    Component.ofSegment part = [.name n] := by
  have hnovoid : ¬ (part = [] ∨ part = [dot]) := by simpa [isVoid] using hvoid
  rw [Component.ofSegment, if_neg hnovoid] at h ⊢
  split at h
  · rw [List.getLast?_concat] at h
    simp at h
  · rename_i hup
    rw [List.getLast?_concat] at h
    rw [if_neg hup]
    injection h with h
    rw [h]

/-- The parts in front of the last component hold no slashes. -/
theorem slash_not_mem_of_before {rest last : Bytes} {before : List Bytes}
    (h : (split (· == slash) rest).reverse.dropWhile isVoid = last :: before) :
    ∀ part ∈ (before.dropWhile isVoid).reverse, slash ∉ part := by
  intro part hpart hmem
  have hbefore := (List.dropWhile_sublist isVoid).subset (List.mem_reverse.mp hpart)
  have hall : part ∈ (split (· == slash) rest).reverse := by
    apply (List.dropWhile_sublist isVoid).subset
    rw [h]
    exact List.mem_cons_of_mem _ hbefore
  simpa using not_of_mem_split (· == slash) (List.mem_reverse.mp hall) slash hmem

/-- The components of an absolute path are those of its parent and the last one. -/
theorem components_parent (habs : p.isAbsolute = true) (h : p.parent? = some q)
    (hname : p.fileName? = some n) :
    q.isAbsolute = true ∧ p.components = q.components ++ [.name n] := by
  obtain ⟨rest, rfl⟩ := exists_bytes_of_isAbsolute habs
  rw [parent?, restFromRight_slash, lead_slash] at h
  split at h
  · simp at h
  · rename_i last before hlast
    injection h with h
    subst h
    refine ⟨isAbsolute_slash _, ?_⟩
    have hcomponents : components ⟨slash :: rest⟩
        = .root :: before.reverse.flatMap Component.ofSegment ++ Component.ofSegment last := by
      rw [components_slash, ← List.reverse_reverse (split (· == slash) rest),
        ← flatMap_ofSegment_dropWhile, hlast]
      simp
    have hvoid : isVoid last = false := by
      simpa [hlast] using List.head?_dropWhile_not isVoid (split (· == slash) rest).reverse
    have hparent : components ⟨slash :: Text.join slash (before.dropWhile isVoid).reverse⟩
        = .root :: before.reverse.flatMap Component.ofSegment := by
      rw [components_slash_join (slash_not_mem_of_before hlast), flatMap_ofSegment_dropWhile]
    rw [fileName?_eq_some_iff, hcomponents] at hname
    rw [hcomponents, ofSegment_of_getLast? hvoid hname]
    exact congrArg (· ++ [Component.name n]) hparent.symm

/-- Only the root has no parent. -/
theorem parent_of_root (habs : p.isAbsolute = true) (h : p.components = [.root]) :
    p.parent? = none := by
  obtain ⟨rest, rfl⟩ := exists_bytes_of_isAbsolute habs
  rw [components_slash, List.cons.injEq, List.flatMap_eq_nil_iff] at h
  have hvoid : ∀ part ∈ (split (· == slash) rest).reverse, isVoid part = true := by
    intro part hpart
    have hnone := h.2 part (List.mem_reverse.mp hpart)
    by_contra hname
    simp only [isVoid, Bool.or_eq_true, beq_iff_eq] at hname
    rw [Component.ofSegment, if_neg hname] at hnone
    split at hnone <;> simp at hnone
  rw [parent?, restFromRight_slash, List.dropWhile_eq_nil_iff.mpr hvoid, lead_slash]
  rfl

/-- What is left when the last component is dropped is written from parts without slashes, and does
not end in a part that stands for nothing. -/
theorem exists_parts_of_parent (habs : p.isAbsolute = true) (h : p.parent? = some q) :
    ∃ parts, q = rooted parts ∧ (∀ part ∈ parts, slash ∉ part)
      ∧ ∀ part, parts.getLast? = some part → isVoid part = false := by
  obtain ⟨rest, rfl⟩ := exists_bytes_of_isAbsolute habs
  rw [parent?, restFromRight_slash, lead_slash] at h
  split at h
  · simp at h
  · rename_i last before hlast
    injection h with h
    refine ⟨_, h.symm, slash_not_mem_of_before hlast, ?_⟩
    intro part hpart
    rw [List.getLast?_reverse] at hpart
    simpa [hpart] using List.head?_dropWhile_not isVoid before

/-- A path with a name has a parent. -/
theorem exists_parent_of_fileName (habs : p.isAbsolute = true) (hname : p.fileName? = some n) :
    ∃ q, p.parent? = some q := by
  obtain ⟨rest, rfl⟩ := exists_bytes_of_isAbsolute habs
  rw [parent?, restFromRight_slash]
  split
  · exfalso
    rename_i hvoid
    rw [List.dropWhile_eq_nil_iff] at hvoid
    have hnone : (split (· == slash) rest).flatMap Component.ofSegment = [] := by
      rw [List.flatMap_eq_nil_iff]
      intro part hpart
      exact ofSegment_of_isVoid (hvoid part (List.mem_reverse.mpr hpart))
    rw [fileName?_eq_some_iff, components_slash, hnone] at hname
    simp at hname
  · exact ⟨_, rfl⟩

/-- The parent of a normal form, and its name. -/
theorem parent_rooted (hn : Plain n) (h : ∀ n ∈ names, Plain n) :
    (rooted (names ++ [n])).parent? = some (rooted names)
      ∧ (rooted (names ++ [n])).fileName? = some n := by
  have hall : ∀ m ∈ names ++ [n], Plain m := by
    intro m hm
    rcases List.mem_append.mp hm with hm | hm
    · exact h m hm
    · rw [List.mem_singleton.mp hm]
      exact hn
  constructor
  · have hcut : split (· == slash) (Text.join slash (names ++ [n])) = names ++ [n] := by
      apply split_join
      · simp
      · intro m hm
        exact (hall m hm).no_slash
    have hkept : names.reverse.dropWhile isVoid = names.reverse := by
      cases hreverse : names.reverse with
      | nil => rfl
      | cons last before =>
        have hlast : last ∈ names := by
          rw [← List.mem_reverse, hreverse]
          exact List.mem_cons_self
        rw [List.dropWhile_cons, (h last hlast).not_isVoid]
        rfl
    unfold rooted parent?
    rw [restFromRight_slash, lead_slash, hcut, List.reverse_concat, List.dropWhile_cons,
      hn.not_isVoid]
    simp [hkept, Lead.bytes]
  · rw [fileName?_eq_some_iff, components_rooted hall, List.map_append, ← List.cons_append]
    exact List.getLast?_concat

/-- In the components, dropping the last one is going up. -/
theorem reduce_parent (habs : p.isAbsolute = true)
    (h : p.components = [.root] ∨ p.fileName? ≠ none) :
    reduce (p.parent?.getD p).components = pushComponent (reduce p.components) .up := by
  rcases h with hroot | hname
  · rw [parent_of_root habs hroot, Option.getD_none, hroot]
    rfl
  · obtain ⟨n, hname⟩ := Option.ne_none_iff_exists'.mp hname
    obtain ⟨q, hparent⟩ := exists_parent_of_fileName habs hname
    obtain ⟨-, hcomponents⟩ := components_parent habs hparent hname
    rw [hparent, Option.getD_some, hcomponents, reduce_append]
    rfl

/-- So both ways to go up have one normal form. -/
theorem normalize_parent (habs : p.isAbsolute = true)
    (h : p.components = [.root] ∨ p.fileName? ≠ none) (marked : Bool) :
    (p.parent?.getD p).normalize = (p.join (upward marked)).normalize := by
  rw [normalize_join_upward, normalize, reduce_parent habs h]

/-! ## Going up -/

/-- The root, or a plain name behind a directory in normal form, however it is written. -/
structure Upright (p : Path) : Prop where
  absolute : p.isAbsolute = true
  shape : p = rooted [] ∨ p.fileName? ≠ none ∧ ∀ q, p.parent? = some q → q.normalize = q

/-- An absolute path in normal form is upright. -/
theorem Upright.of_normal (habs : p.isAbsolute = true) (h : p.normalize = p) : p.Upright := by
  obtain ⟨names, hnames, hnormal⟩ := exists_rooted habs
  rw [h] at hnormal
  subst hnormal
  refine ⟨habs, ?_⟩
  rcases List.eq_nil_or_concat names with rfl | ⟨before, last, rfl⟩
  · exact .inl rfl
  · rw [List.concat_eq_append] at hnames ⊢
    have hbefore : ∀ m ∈ before, Plain m := fun m hm => hnames m (List.mem_append_left _ hm)
    obtain ⟨hparent, hname⟩ := parent_rooted (hnames last (by simp)) hbefore
    right
    constructor
    · simp [hname]
    · intro q hq
      rw [hparent] at hq
      injection hq with hq
      rw [← hq]
      exact normalize_rooted hbefore

/-- The normal form of an absolute path is upright. -/
theorem Upright.normalize (habs : p.isAbsolute = true) : p.normalize.Upright :=
  .of_normal (isAbsolute_normalize habs) p.normalize_normalize

/-- From an upright path it is the same to drop the last component and to normalize behind a
`..`. -/
theorem Upright.parent_eq (h : p.Upright) (marked : Bool) :
    p.parent?.getD p = (p.join (upward marked)).normalize := by
  rcases h.shape with rfl | ⟨hname, hnormal⟩
  · exact normalize_parent h.absolute (.inl rfl) marked
  · rw [← normalize_parent h.absolute (.inr hname) marked]
    obtain ⟨n, hname⟩ := Option.ne_none_iff_exists'.mp hname
    obtain ⟨q, hparent⟩ := exists_parent_of_fileName h.absolute hname
    rw [hparent]
    exact (hnormal q hparent).symm

theorem Upright.parent (h : p.Upright) : (p.parent?.getD p).Upright := by
  rw [h.parent_eq false]
  exact .normalize (isAbsolute_join h.absolute _)

/-! ## Paths that are their own normal form -/

/-- An absolute path that is its own normal form. Paths are compared by their components, so the
text may still hold slashes and dots that stand for nothing. -/
structure IsNormal (p : Path) : Prop where
  absolute : p.isAbsolute = true
  components : p.normalize.components = p.components

/-- Such a path is the root and plain names behind it. -/
theorem isNormal_iff (habs : p.isAbsolute = true) :
    p.IsNormal ↔ ∃ names : List Bytes,
      (∀ n ∈ names, Plain n) ∧ p.components = .root :: names.map .name := by
  constructor
  · intro h
    obtain ⟨names, hnames, hnormal⟩ := exists_rooted habs
    refine ⟨names, hnames, ?_⟩
    rw [← h.components, hnormal, components_rooted hnames]
  · rintro ⟨names, hnames, hcomponents⟩
    refine ⟨habs, ?_⟩
    -- the normal form is made of the components alone
    have hsame : p.normalize = (rooted names).normalize := by
      rw [normalize, normalize, hcomponents, components_rooted hnames]
    rw [hsame, normalize_rooted hnames, components_rooted hnames, hcomponents]

theorem IsNormal.normalize (habs : p.isAbsolute = true) : p.normalize.IsNormal :=
  ⟨isAbsolute_normalize habs, by rw [p.normalize_normalize]⟩

/-- Its normal form is the path of its names. -/
theorem IsNormal.exists_rooted (h : p.IsNormal) :
    ∃ names : List Bytes, (∀ n ∈ names, Plain n) ∧ p.components = .root :: names.map .name
      ∧ p.normalize = rooted names := by
  obtain ⟨names, hnames, hcomponents⟩ := (isNormal_iff h.absolute).mp h
  refine ⟨names, hnames, hcomponents, ?_⟩
  rw [← normalize_rooted hnames]
  apply normalize_eq_of_reduce_eq
  rw [hcomponents, components_rooted hnames]

/-- Such a path is the root, or it ends in a name. -/
theorem IsNormal.shape (h : p.IsNormal) : p.components = [.root] ∨ p.fileName? ≠ none := by
  obtain ⟨names, -, hcomponents⟩ := (isNormal_iff h.absolute).mp h
  rcases List.eq_nil_or_concat names with rfl | ⟨before, last, rfl⟩
  · exact .inl hcomponents
  · right
    have hlast : p.components.getLast? = some (.name last) := by
      rw [hcomponents, List.concat_eq_append, List.map_append, ← List.cons_append]
      exact List.getLast?_concat
    rw [fileName?_eq_some_iff.mpr hlast]
    exact Option.some_ne_none last

theorem IsNormal.parent (h : p.IsNormal) : (p.parent?.getD p).IsNormal := by
  obtain ⟨names, hnames, hcomponents⟩ := (isNormal_iff h.absolute).mp h
  rcases List.eq_nil_or_concat names with rfl | ⟨before, last, rfl⟩
  · rw [parent_of_root h.absolute hcomponents]
    exact h
  · rw [List.concat_eq_append] at hnames hcomponents
    have hname : p.fileName? = some last := by
      rw [fileName?_eq_some_iff, hcomponents, List.map_append, ← List.cons_append]
      exact List.getLast?_concat
    obtain ⟨q, hparent⟩ := exists_parent_of_fileName h.absolute hname
    obtain ⟨habs, hcut⟩ := components_parent h.absolute hparent hname
    rw [hparent, Option.getD_some, isNormal_iff habs]
    refine ⟨before, fun n hn => hnames n (List.mem_append_left _ hn), ?_⟩
    rw [hcomponents, List.map_append, ← List.cons_append] at hcut
    exact (List.append_cancel_right hcut).symm

/-! ## Properties that `cd` cannot leave -/

/-- A property of absolute paths that normal forms have, and that dropping the last component
keeps. -/
structure Stable (P : Path → Prop) : Prop where
  absolute : ∀ {p}, P p → p.isAbsolute = true
  normalize : ∀ {p : Path}, p.isAbsolute = true → P p.normalize
  parent : ∀ {p : Path}, P p → P (p.parent?.getD p)

theorem Upright.stable : Stable Upright where
  absolute := Upright.absolute
  normalize := Upright.normalize
  parent := Upright.parent

theorem IsNormal.stable : Stable IsNormal where
  absolute := IsNormal.absolute
  normalize := IsNormal.normalize
  parent := IsNormal.parent

/-- To be spelled like one's normal form is stable as well. -/
theorem stable_normalize_eq : Stable fun p => p.isAbsolute = true ∧ p.normalize = p where
  absolute := And.left
  normalize := by
    intro p habs
    exact ⟨isAbsolute_normalize habs, p.normalize_normalize⟩
  parent := by
    rintro p ⟨habs, hnormal⟩
    have hjoin := isAbsolute_join habs (upward false)
    rw [(Upright.of_normal habs hnormal).parent_eq false]
    exact ⟨isAbsolute_normalize hjoin, normalize_normalize _⟩

end LineShell.Path
