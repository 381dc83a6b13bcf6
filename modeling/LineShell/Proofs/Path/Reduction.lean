/-
Reducing a path.

Reducing takes the components of a path into a stack.  Whatever they are, at every moment the stack
holds names on top of a floor (`floor`): the root of an absolute path, or the `..` that a relative
path has kept so far.  A `..` takes the uppermost name away, and where there is none it lengthens
the floor, or finds the root again.  This is the invariant of the whole walk
(`exists_foldl_pushComponent`), and the stack that is left is the normal form, written backwards.

What is put behind a path is taken into the stack that the path itself leaves (`reduce_join`), and
so is what is put behind its normal form, which leaves the same stack (`reduce_normalize`).  So it
makes no difference whether a path is normalized before something is put behind it
(`normalize_join_normalize`).
-/
import LineShell.Path.Normal
import LineShell.Proofs.Text.Cutting

set_option autoImplicit false

namespace LineShell.Path

open LineShell.Text

/-! ## Parts of a path -/

/-- A text between slashes that is a name. -/
structure Plain (n : Bytes) : Prop where
  nonempty : n ≠ []
  not_here : n ≠ [dot]
  not_up : n ≠ [dot, dot]
  no_slash : slash ∉ n

variable {p q : Path} {n : Bytes} {names parts : List Bytes}

theorem Plain.ofSegment (h : Plain n) : Component.ofSegment n = [.name n] := by
  simp [Component.ofSegment, h.nonempty, h.not_here, h.not_up]

theorem Plain.not_isVoid (h : Plain n) : isVoid n = false := by
  simp [isVoid, h.nonempty, h.not_here]

/-- What stands between two slashes is a step up or a name, if it is anything. -/
theorem mem_ofSegment {segment : Bytes} {c : Component} (h : c ∈ Component.ofSegment segment)
    (hslash : slash ∉ segment) : c = .up ∨ c = .name segment ∧ Plain segment := by
  unfold Component.ofSegment at h
  split at h
  · simp at h
  · rename_i hvoid
    split at h
    · left
      simpa using h
    · rename_i hup
      right
      rw [not_or] at hvoid
      exact ⟨by simpa using h, hvoid.1, hvoid.2, hup, hslash⟩

theorem ofSegment_of_isVoid {segment : Bytes} (h : isVoid segment = true) :
    Component.ofSegment segment = [] := by
  simp only [isVoid, Bool.or_eq_true, beq_iff_eq] at h
  rw [Component.ofSegment, if_pos h]

theorem flatMap_ofSegment (h : ∀ n ∈ names, Plain n) :
    names.flatMap Component.ofSegment = names.map .name := by
  induction names with
  | nil => rfl
  | cons n names ih =>
    rw [List.flatMap_cons, (h n List.mem_cons_self).ofSegment,
      ih fun m hm => h m (List.mem_cons_of_mem _ hm)]
    rfl

/-- The components between the slashes of a path; only its beginning is missing. -/
def inner (p : Path) : List Component := p.segments.flatMap Component.ofSegment

theorem slash_not_mem_of_mem_segments {segment : Bytes} (h : segment ∈ p.segments) :
    slash ∉ segment := by
  intro hmem
  simpa using not_of_mem_split (· == slash) h slash hmem

theorem mem_inner {c : Component} (h : c ∈ p.inner) : c = .up ∨ ∃ n, c = .name n ∧ Plain n := by
  obtain ⟨segment, hsegment, hc⟩ := List.mem_flatMap.mp h
  rcases mem_ofSegment hc (slash_not_mem_of_mem_segments hsegment) with hup | ⟨hname, hplain⟩
  · exact .inl hup
  · exact .inr ⟨segment, hname, hplain⟩

/-- The parts of a path that is put together with slashes are found between them. -/
theorem inner_mk_join (h : ∀ part ∈ parts, slash ∉ part) :
    inner ⟨Text.join slash parts⟩ = parts.flatMap Component.ofSegment := by
  cases parts with
  | nil => rfl
  | cons part parts =>
    unfold inner segments
    rw [split_join (List.cons_ne_nil _ _) h]

theorem split_append_slash (xs ys : Bytes) :
    split (· == slash) (xs ++ slash :: ys) = split (· == slash) xs ++ split (· == slash) ys := by
  apply split_append
  exact beq_self_eq_true slash

theorem inner_append_slash (xs ys : Bytes) :
    inner ⟨xs ++ slash :: ys⟩ = inner ⟨xs⟩ ++ inner ⟨ys⟩ := by
  unfold inner segments
  rw [split_append_slash, List.flatMap_append]

theorem isAbsolute_append {xs : Bytes} (h : xs ≠ []) (ys : Bytes) :
    isAbsolute ⟨xs ++ ys⟩ = isAbsolute ⟨xs⟩ := by
  obtain ⟨x, xs, rfl⟩ := List.exists_cons_of_ne_nil h
  rfl

/-! ## The stack -/

/-- What lies below the names: the root, or the steps up that were kept. -/
def floor (absolute : Bool) (ups : Nat) : List Component :=
  if absolute then [.root] else List.replicate ups .up

theorem pushComponent_up_floor (absolute : Bool) (ups : Nat) :
    pushComponent (floor absolute ups) .up = floor absolute (ups + 1) := by
  cases absolute with
  | true => rfl
  | false => cases ups <;> rfl

theorem reduce_append (cs ds : List Component) :
    reduce (cs ++ ds) = ds.foldl pushComponent (reduce cs) :=
  List.foldl_append

/-- Names are put on the stack one after the other. -/
theorem foldl_pushComponent_names (names : List Bytes) (stack : List Component) :
    (names.map Component.name).foldl pushComponent stack
      = (names.map Component.name).reverse ++ stack := by
  induction names generalizing stack with
  | nil => rfl
  | cons n names ih => simp [ih, pushComponent]

/-- On the stack there are always plain names on top of a floor. -/
theorem exists_foldl_pushComponent {absolute : Bool} {ups : Nat} {cs : List Component}
    (h : ∀ c ∈ cs, c = .up ∨ ∃ n, c = .name n ∧ Plain n) (hnames : ∀ n ∈ names, Plain n) :
    ∃ (names' : List Bytes) (ups' : Nat), (∀ n ∈ names', Plain n)
      ∧ cs.foldl pushComponent (names.map .name ++ floor absolute ups)
        = names'.map .name ++ floor absolute ups' := by
  induction cs generalizing names ups with
  | nil => exact ⟨names, ups, hnames, rfl⟩
  | cons c cs ih =>
    have hrest : ∀ c ∈ cs, c = .up ∨ ∃ n, c = .name n ∧ Plain n :=
      fun d hd => h d (List.mem_cons_of_mem _ hd)
    rw [List.foldl_cons]
    rcases h c List.mem_cons_self with rfl | ⟨n, rfl, hn⟩
    · cases names with
      | nil =>
        -- there is no name to take away
        rw [List.map_nil, List.nil_append, pushComponent_up_floor]
        exact @ih [] (ups + 1) hrest hnames
      | cons top names =>
        apply ih hrest
        intro m hm
        exact hnames m (List.mem_cons_of_mem _ hm)
    · apply @ih (n :: names) ups hrest
      intro m hm
      rcases List.mem_cons.mp hm with rfl | hm
      · exact hn
      · exact hnames m hm

/-- A path is reduced from the floor that its beginning lays. -/
theorem reduce_components (p : Path) :
    reduce p.components = p.inner.foldl pushComponent (floor p.isAbsolute 0) := by
  have hlead : reduce p.lead.components = floor p.isAbsolute 0 := by
    unfold lead
    split
    · rename_i habs
      rw [habs]
      rfl
    · rename_i hrel
      rw [Bool.eq_false_iff.mpr hrel]
      split <;> rfl
  rw [components, reduce_append, hlead]
  rfl

/-- What a path is reduced to. -/
theorem exists_stack (p : Path) :
    ∃ (names : List Bytes) (ups : Nat), (∀ n ∈ names, Plain n)
      ∧ reduce p.components = names.map .name ++ floor p.isAbsolute ups := by
  rw [reduce_components]
  exact @exists_foldl_pushComponent [] p.isAbsolute 0 p.inner (fun _ => mem_inner) nofun

/-! ## Putting something behind a path -/

/-- What stands behind a slash is taken into the stack of what stands in front of it. -/
theorem reduce_append_slash {xs : Bytes} (h : xs ≠ []) (ys : Bytes) :
    reduce (components ⟨xs ++ slash :: ys⟩)
      = (inner ⟨ys⟩).foldl pushComponent (reduce (components ⟨xs⟩)) := by
  rw [reduce_components, inner_append_slash, isAbsolute_append h, List.foldl_append,
    ← reduce_components]

/-- What is put behind a path is taken into the stack of that path. -/
theorem reduce_join (hrel : q.isAbsolute = false) :
    reduce (p.join q).components = q.inner.foldl pushComponent (reduce p.components) := by
  have hvoid : inner ⟨[]⟩ = [] := rfl
  obtain ⟨bytes⟩ := p
  unfold join
  rw [if_neg (by simp [hrel])]
  split
  · rename_i hplain
    rcases hplain with hnil | hlast
    · -- behind the empty path there is only what is put there
      have hnil : bytes = [] := hnil
      rw [hnil, List.nil_append, reduce_components, hrel]
      rfl
    · -- the slash is there already, and stands between the two
      have hlast : bytes.getLast? = some slash := hlast
      obtain ⟨before, rfl⟩ := List.getLast?_eq_some_iff.mp hlast
      have hne : before ++ [slash] ≠ [] := by simp
      rw [reduce_components, isAbsolute_append hne, reduce_components, List.append_assoc,
        List.singleton_append, inner_append_slash, inner_append_slash, hvoid, List.append_nil,
        List.foldl_append]
  · rename_i hplain
    rw [not_or] at hplain
    exact reduce_append_slash hplain.1 q.bytes

/-! ## Normal forms -/

/-- The absolute path through some names. -/
def rooted (names : List Bytes) : Path := ⟨slash :: Text.join slash names⟩

/-- The relative path some steps up, and from there through some names. -/
def trail (ups : Nat) (names : List Bytes) : Path :=
  ⟨Text.join slash (List.replicate ups [dot, dot] ++ names)⟩

/-- The path that a stack of names on a floor stands for. -/
def ofStack (absolute : Bool) (ups : Nat) (names : List Bytes) : Path :=
  if absolute then rooted names else trail ups names

theorem ofComponents_rooted (names : List Bytes) :
    ofComponents (.root :: names.map .name) = rooted names := by
  simp [ofComponents, rooted, Function.comp_def, Component.bytes]

theorem ofComponents_trail (ups : Nat) (names : List Bytes) :
    ofComponents (List.replicate ups .up ++ names.map .name) = trail ups names := by
  have hbytes : ∀ cs : List Component, cs.head? ≠ some .root →
      ofComponents cs = ⟨Text.join slash (cs.map Component.bytes)⟩ := by
    intro cs hcs
    unfold ofComponents
    split
    · exact absurd rfl hcs
    · rfl
  rw [hbytes]
  · simp [trail, Function.comp_def, Component.bytes]
  · cases ups with
    | zero => cases names <;> simp
    | succ ups => simp [List.replicate_succ]

/-- The normal form of a path, and the stack that it is written from. -/
theorem exists_ofStack (p : Path) :
    ∃ (ups : Nat) (names : List Bytes), (∀ n ∈ names, Plain n)
      ∧ p.normalize = ofStack p.isAbsolute ups names
      ∧ reduce p.components = (names.map .name).reverse ++ floor p.isAbsolute ups := by
  obtain ⟨stack, ups, hstack, hreduce⟩ := p.exists_stack
  refine ⟨ups, stack.reverse, fun n hn => hstack n (List.mem_reverse.mp hn), ?_, ?_⟩
  · rw [normalize, hreduce, List.reverse_append, ← List.map_reverse]
    cases p.isAbsolute with
    | true => exact ofComponents_rooted _
    | false =>
      rw [floor, if_neg Bool.false_ne_true, List.reverse_replicate]
      exact ofComponents_trail ups _
  · rw [hreduce, List.map_reverse, List.reverse_reverse]

theorem inner_rooted (h : ∀ n ∈ names, Plain n) : (rooted names).inner = names.map .name := by
  have hinner := inner_append_slash [] (Text.join slash names)
  rw [List.nil_append, inner_mk_join fun n hn => (h n hn).no_slash, flatMap_ofSegment h] at hinner
  exact hinner

theorem inner_trail (ups : Nat) (h : ∀ n ∈ names, Plain n) :
    (trail ups names).inner = List.replicate ups .up ++ names.map .name := by
  have hups : (List.replicate ups [dot, dot]).flatMap Component.ofSegment
      = List.replicate ups .up := by
    induction ups with
    | zero => rfl
    | succ ups ih => rw [List.replicate_succ, List.flatMap_cons, ih]; rfl
  have hparts : ∀ part ∈ List.replicate ups [dot, dot] ++ names, slash ∉ part := by
    intro part hpart
    rcases List.mem_append.mp hpart with hpart | hpart
    · rw [List.eq_of_mem_replicate hpart]
      decide
    · exact (h part hpart).no_slash
  rw [trail, inner_mk_join hparts, List.flatMap_append, flatMap_ofSegment h, hups]

theorem isAbsolute_rooted (names : List Bytes) : (rooted names).isAbsolute = true := by
  simp [rooted, isAbsolute]

theorem isAbsolute_trail (ups : Nat) (h : ∀ n ∈ names, Plain n) :
    (trail ups names).isAbsolute = false := by
  -- a text that begins with a part begins with a byte of the part
  have hbegin : ∀ part parts, part ≠ [] → slash ∉ part →
      isAbsolute ⟨Text.join slash (part :: parts)⟩ = false := by
    intro part parts hne hpart
    obtain ⟨b, rest, rfl⟩ := List.exists_cons_of_ne_nil hne
    have hb : b ≠ slash := by
      rintro rfl
      exact hpart List.mem_cons_self
    cases parts <;> simpa [isAbsolute, Text.join] using hb
  unfold trail
  cases ups with
  | succ ups =>
    rw [List.replicate_succ, List.cons_append]
    exact hbegin _ _ (by decide) (by decide)
  | zero =>
    cases names with
    | nil => rfl
    | cons n names =>
      have hn := h n List.mem_cons_self
      exact hbegin n names hn.nonempty hn.no_slash

/-- Kept steps up are put on the stack one after the other. -/
theorem foldl_pushComponent_ups (ups : Nat) :
    (List.replicate ups Component.up).foldl pushComponent (floor false 0) = floor false ups := by
  induction ups with
  | zero => rfl
  | succ ups ih =>
    rw [List.replicate_succ', List.foldl_append, ih]
    exact pushComponent_up_floor false ups

theorem isAbsolute_ofStack (absolute : Bool) (ups : Nat) (h : ∀ n ∈ names, Plain n) :
    (ofStack absolute ups names).isAbsolute = absolute := by
  cases absolute with
  | true => exact isAbsolute_rooted names
  | false => exact isAbsolute_trail ups h

/-- A path that is written from a stack is reduced to that stack. -/
theorem reduce_ofStack (absolute : Bool) (ups : Nat) (h : ∀ n ∈ names, Plain n) :
    reduce (ofStack absolute ups names).components
      = (names.map .name).reverse ++ floor absolute ups := by
  rw [reduce_components, isAbsolute_ofStack absolute ups h]
  cases absolute with
  | true =>
    show (rooted names).inner.foldl pushComponent (floor true 0) = _
    rw [inner_rooted h]
    exact foldl_pushComponent_names names [.root]
  | false =>
    show (trail ups names).inner.foldl pushComponent (floor false 0) = _
    rw [inner_trail ups h, List.foldl_append, foldl_pushComponent_ups]
    exact foldl_pushComponent_names names _

/-- A normal form is reduced to what the path is reduced to. -/
theorem reduce_normalize (p : Path) : reduce p.normalize.components = reduce p.components := by
  obtain ⟨ups, names, hnames, hnormal, hreduce⟩ := p.exists_ofStack
  rw [hnormal, reduce_ofStack _ _ hnames, hreduce]

/-- Normal forms depend only on what is left on the stack. -/
theorem normalize_eq_of_reduce_eq (h : reduce p.components = reduce q.components) :
    p.normalize = q.normalize := by
  rw [normalize, normalize, h]

/-- A normal form is its own normal form. -/
theorem normalize_normalize (p : Path) : p.normalize.normalize = p.normalize :=
  normalize_eq_of_reduce_eq p.reduce_normalize

theorem isAbsolute_normalize_eq (p : Path) : p.normalize.isAbsolute = p.isAbsolute := by
  obtain ⟨ups, names, hnames, hnormal, -⟩ := p.exists_ofStack
  rw [hnormal, isAbsolute_ofStack _ _ hnames]

/-- **It makes no difference whether a path is normalized before something is put behind it.** -/
theorem normalize_join_normalize (hrel : q.isAbsolute = false) :
    (p.join q).normalize = (p.normalize.join q).normalize := by
  apply normalize_eq_of_reduce_eq
  rw [reduce_join hrel, reduce_join hrel, reduce_normalize]

/-- **Two steps can be taken as one.**  What is put behind two paths one after the other may be
written behind the first one at once. -/
theorem normalize_join_append {xs ys : Bytes} (h : xs ≠ []) (hrel : isAbsolute ⟨ys⟩ = false) :
    (p.join ⟨xs ++ slash :: ys⟩).normalize = ((p.join ⟨xs⟩).join ⟨ys⟩).normalize := by
  apply normalize_eq_of_reduce_eq
  rw [reduce_join hrel]
  have hbegin := isAbsolute_append h (slash :: ys)
  cases habs : isAbsolute ⟨xs⟩ with
  | true =>
    -- an absolute path takes the place of the base, with and without what stands behind it
    have hboth : isAbsolute ⟨xs ++ slash :: ys⟩ = true := hbegin.trans habs
    rw [join, if_pos hboth, join, if_pos habs, reduce_append_slash h]
  | false =>
    have hboth : isAbsolute ⟨xs ++ slash :: ys⟩ = false := hbegin.trans habs
    rw [reduce_join hboth, inner_append_slash, List.foldl_append, reduce_join habs]

end LineShell.Path
