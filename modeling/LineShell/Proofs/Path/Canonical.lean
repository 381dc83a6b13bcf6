/-
The canonical form of a path.

What normalizing computes can be said without its stack.  Read as rules for rewriting a list of
components, lexical normalization has three of them (`Cancels`): a `.` goes, a name and the `..`
right behind it go together, and a `..` right behind the root goes.  The stack is the same before
and after a rule is used (`reduce_of_cancels`), and by these rules every list comes down to what it
leaves on the stack (`reduces_reduce`).  On that list no rule can be used any more
(`settled_reduce`), because a rule makes a list shorter and a stack is never longer than its list.
So whatever rules are used, and in whichever order, there is exactly one list at which they stop,
and the canonical form is its tidy text.

A stack is one way to get there.  The other one keeps the text written so far, and looks at the
last component of this text whenever a `..` comes (`pushText`).  Both agree after every component
(`pushText_ofStack`), because the text is always the one that is written from the stack.
-/
import Mathlib.Logic.Relation
import LineShell.Proofs.Path.Abridged
import LineShell.Proofs.Path.Tidy

set_option autoImplicit false

namespace LineShell.Path

open LineShell.Text Relation

variable {p q : Path} {cs ds : List Component} {names : List Bytes}

/-! ## The rules -/

/-- One detour less. -/
inductive Cancels : List Component → List Component → Prop where
  /-- A `.` is left out. -/
  | here (before behind : List Component) :
      Cancels (before ++ .here :: behind) (before ++ behind)
  /-- A name is left out together with the `..` behind it. -/
  | name (before behind : List Component) (n : Bytes) :
      Cancels (before ++ .name n :: .up :: behind) (before ++ behind)
  /-- Above the root there is only the root. -/
  | root (before behind : List Component) :
      Cancels (before ++ .root :: .up :: behind) (before ++ .root :: behind)

/-- A list of components without detours. -/
def Settled (cs : List Component) : Prop := ∀ ds, ¬ Cancels cs ds

theorem Cancels.length_lt (h : Cancels cs ds) : ds.length < cs.length := by
  cases h <;> simp only [List.length_append, List.length_cons] <;> omega

/-- What stands behind a detour does not keep it from being left out. -/
theorem Cancels.append (h : Cancels cs ds) (more : List Component) :
    Cancels (cs ++ more) (ds ++ more) := by
  cases h with
  | here before behind =>
    rw [List.append_assoc, List.append_assoc]
    exact .here before (behind ++ more)
  | name before behind n =>
    rw [List.append_assoc, List.append_assoc]
    exact .name before (behind ++ more) n
  | root before behind =>
    rw [List.append_assoc, List.append_assoc]
    exact .root before (behind ++ more)

/-! ## The rules and the stack -/

/-- A detour leaves nothing on the stack. -/
theorem reduce_of_cancels (h : Cancels cs ds) : reduce cs = reduce ds := by
  cases h with
  | here before behind => rw [reduce_append, reduce_append]; rfl
  | name before behind n => rw [reduce_append, reduce_append]; rfl
  | root before behind => rw [reduce_append, reduce_append]; rfl

theorem reduce_of_reduces (h : ReflTransGen Cancels cs ds) : reduce cs = reduce ds := by
  induction h with
  | refl => rfl
  | tail _ hlast ih => rw [ih, reduce_of_cancels hlast]

/-- One more component is put behind the stack, and it or nothing is left out there. -/
theorem reduces_pushComponent (stack : List Component) (c : Component) :
    ReflTransGen Cancels (stack.reverse ++ [c]) (pushComponent stack c).reverse := by
  have hput : ReflTransGen Cancels (stack.reverse ++ [c]) (c :: stack).reverse := by
    rw [List.reverse_cons]
  cases c with
  | root => exact hput
  | name n => exact hput
  | here =>
    apply ReflTransGen.single
    have hstep := Cancels.here stack.reverse []
    rwa [List.append_nil] at hstep
  | up =>
    cases stack with
    | nil => exact hput
    | cons top below =>
      cases top with
      | here => exact hput
      | up => exact hput
      | name n =>
        apply ReflTransGen.single
        have hstep := Cancels.name below.reverse [] n
        rw [List.append_nil] at hstep
        rwa [List.reverse_cons, List.append_assoc]
      | root =>
        apply ReflTransGen.single
        have hstep := Cancels.root below.reverse []
        rwa [List.reverse_cons, List.append_assoc, pushComponent, List.reverse_cons]

/-- Every list comes down to what it leaves on the stack. -/
theorem reduces_reduce (cs : List Component) : ReflTransGen Cancels cs (reduce cs).reverse := by
  induction cs using List.reverseRecOn with
  | nil => exact .refl
  | append_singleton cs c ih =>
    rw [reduce_append]
    exact (ih.lift (· ++ [c]) fun _ _ h => h.append [c]).trans (reduces_pushComponent _ c)

theorem length_reduce_le (cs : List Component) : (reduce cs).length ≤ cs.length := by
  have hkept := (reverse_foldl_sublist cs []).length_le
  simpa [reduce] using hkept

/-- On what is left no rule can be used. -/
theorem settled_reduce (cs : List Component) : Settled (reduce cs).reverse := by
  intro ds hstep
  have hsame : reduce cs = reduce ds :=
    (reduce_of_reduces (reduces_reduce cs)).trans (reduce_of_cancels hstep)
  have hshorter := hstep.length_lt
  have hle := length_reduce_le ds
  rw [List.length_reverse, hsame] at hshorter
  omega

/-- **The rules stop at exactly one list**, whichever are used first. -/
theorem reduces_settled_iff :
    (ReflTransGen Cancels cs ds ∧ Settled ds) ↔ ds = (reduce cs).reverse := by
  constructor
  · rintro ⟨hreduces, hsettled⟩
    have hrest := reduces_reduce ds
    rw [reflTransGen_iff_eq hsettled] at hrest
    rw [reduce_of_reduces hreduces, hrest]
  · rintro rfl
    exact ⟨reduces_reduce cs, settled_reduce cs⟩

/-! ## What is left is written down -/

/-- A relative normal form is made of its steps up and its names. -/
theorem components_trail (ups : Nat) (h : ∀ n ∈ names, Plain n) :
    (trail ups names).components = floor false ups ++ names.map .name := by
  have hwritten : trail ups names = written false (List.replicate ups [dot, dot] ++ names) := rfl
  rw [components, hwritten, lead_written_false (solid_trail ups h)]
  exact inner_trail ups h

theorem components_ofStack (absolute : Bool) (ups : Nat) (h : ∀ n ∈ names, Plain n) :
    (ofStack absolute ups names).components = floor absolute ups ++ names.map .name := by
  cases absolute with
  | true => exact components_rooted h
  | false => exact components_trail ups h

theorem reverse_floor (absolute : Bool) (ups : Nat) :
    (floor absolute ups).reverse = floor absolute ups := by
  cases absolute with
  | true => rfl
  | false => exact List.reverse_replicate

/-- The normal form has the components that are left. -/
theorem components_normalize (p : Path) :
    p.normalize.components = (reduce p.components).reverse := by
  obtain ⟨ups, names, hnames, hnormal, hreduce⟩ := p.exists_ofStack
  rw [hnormal, components_ofStack _ _ hnames, hreduce, List.reverse_append, List.reverse_reverse,
    reverse_floor]

/-- The name that a component is. -/
def Component.name? : Component → Option Bytes
  | .name n => some n
  | _ => none

theorem filterMap_names (names : List Bytes) :
    (names.map Component.name).filterMap Component.name? = names := by
  rw [List.filterMap_map]
  exact List.filterMap_some

theorem filterMap_floor (absolute : Bool) (ups : Nat) :
    (floor absolute ups).filterMap Component.name? = [] := by
  rw [List.filterMap_eq_nil_iff]
  intro c hc
  cases absolute with
  | true => rw [List.mem_singleton.mp hc]; rfl
  | false => rw [List.eq_of_mem_replicate hc]; rfl

/-- The names of a path are parts of its text. -/
theorem names_sublist (p : Path) : (p.components.filterMap Component.name?).Sublist p.segments := by
  have hlead : p.lead.components.filterMap Component.name? = [] := by cases p.lead <;> rfl
  rw [components, List.filterMap_append, hlead, List.nil_append]
  induction p.segments with
  | nil => exact .refl _
  | cons segment segments ih =>
    rw [List.flatMap_cons, List.filterMap_append]
    unfold Component.ofSegment
    split
    · exact ih.cons segment
    · split
      · exact ih.cons segment
      · exact ih.cons_cons segment

/-- The names that are left stand in the text, in this order. -/
theorem exists_normal_components (p : Path) :
    ∃ (ups : Nat) (names : List Bytes), (∀ n ∈ names, Plain n) ∧ names.Sublist p.segments
      ∧ p.normalize.components = floor p.isAbsolute ups ++ names.map .name := by
  obtain ⟨ups, names, hnames, hnormal, -⟩ := p.exists_ofStack
  have hcomponents : p.normalize.components = floor p.isAbsolute ups ++ names.map .name := by
    rw [hnormal, components_ofStack _ _ hnames]
  refine ⟨ups, names, hnames, ?_, hcomponents⟩
  have hkept : p.normalize.components.Sublist p.components := by
    have hsublist := reverse_foldl_sublist p.components []
    rwa [← reduce, ← components_normalize] at hsublist
  have hnamesKept := hkept.filterMap Component.name?
  rw [hcomponents, List.filterMap_append, filterMap_floor, List.nil_append, filterMap_names]
    at hnamesKept
  exact hnamesKept.trans p.names_sublist

/-! ## Keeping the text instead of a stack -/

/-- Takes one more component into the text that is written so far. -/
def pushText (out : Path) : Component → Path
  | .here => out
  | .up =>
    match out.components.getLast? with
    | some (.name _) => out.parent?.getD out
    | some .root => out
    | _ => out.join ⟨[dot, dot]⟩
  | .root => out.join ⟨[slash]⟩
  | .name n => out.join ⟨n⟩

/-- A name is put behind the text of a stack. -/
theorem join_ofStack (absolute : Bool) (ups : Nat) (h : ∀ n ∈ names, Plain n) {n : Bytes}
    (hn : Plain n) :
    (ofStack absolute ups names).join ⟨n⟩ = ofStack absolute ups (names ++ [n]) := by
  rw [ofStack_eq_written, ofStack_eq_written, ← List.append_assoc]
  apply join_written _ hn.solid
  cases absolute with
  | true => exact fun n hn => (h n hn).solid
  | false => exact solid_trail ups h

/-- The uppermost name of a stack is taken away in the text. -/
theorem parent_ofStack (absolute : Bool) (ups : Nat) (h : ∀ n ∈ names, Plain n) {n : Bytes}
    (hn : Plain n) :
    (ofStack absolute ups (names ++ [n])).parent? = some (ofStack absolute ups names) := by
  rw [ofStack_eq_written, ofStack_eq_written, ← List.append_assoc]
  apply parent_written _ hn.solid
  cases absolute with
  | true => exact fun n hn => (h n hn).solid
  | false => exact solid_trail ups h

/-- A `..` that finds no name stays in the text of a relative path, and only there. -/
theorem pushText_up_floor (absolute : Bool) (ups : Nat) :
    pushText (ofStack absolute ups []) .up = ofStack absolute (ups + 1) [] := by
  have hcomponents := @components_ofStack [] absolute ups nofun
  rw [List.map_nil, List.append_nil] at hcomponents
  unfold pushText
  cases absolute with
  | true =>
    rw [hcomponents]
    rfl
  | false =>
    have hlast : (floor false ups).getLast? = none ∨ (floor false ups).getLast? = some .up := by
      cases ups with
      | zero => exact .inl rfl
      | succ ups =>
        right
        rw [floor, if_neg Bool.false_ne_true, List.replicate_succ']
        exact List.getLast?_concat
    have hput : (trail ups []).join ⟨[dot, dot]⟩ = trail (ups + 1) [] := by
      have hjoin := @join_written false _ _ (@solid_trail [] ups nofun) solid_up
      rw [List.append_nil, ← List.replicate_succ'] at hjoin
      unfold trail
      rw [List.append_nil, List.append_nil]
      exact hjoin
    rw [hcomponents]
    rcases hlast with hlast | hlast
    · rw [hlast]
      exact hput
    · rw [hlast]
      exact hput

/-- **One step of the text is one step of the stack.** -/
theorem pushText_ofStack {absolute : Bool} {ups : Nat} (h : ∀ n ∈ names, Plain n) {c : Component}
    (hc : c = .up ∨ ∃ n, c = .name n ∧ Plain n) :
    ∃ (names' : List Bytes) (ups' : Nat), (∀ n ∈ names', Plain n)
      ∧ pushText (ofStack absolute ups names) c = ofStack absolute ups' names'
      ∧ pushComponent ((names.map .name).reverse ++ floor absolute ups) c
        = (names'.map .name).reverse ++ floor absolute ups' := by
  rcases hc with rfl | ⟨n, rfl, hn⟩
  · rcases List.eq_nil_or_concat names with rfl | ⟨names, top, rfl⟩
    · exact ⟨[], ups + 1, nofun, pushText_up_floor absolute ups,
        pushComponent_up_floor absolute ups⟩
    · rw [List.concat_eq_append] at h ⊢
      have hrest : ∀ n ∈ names, Plain n := fun n hn => h n (List.mem_append_left _ hn)
      have htop : Plain top := h top (by simp)
      refine ⟨names, ups, hrest, ?_, ?_⟩
      · have hlast : (ofStack absolute ups (names ++ [top])).components.getLast?
            = some (.name top) := by
          rw [components_ofStack _ _ h, List.map_append, ← List.append_assoc]
          exact List.getLast?_concat
        unfold pushText
        rw [hlast, parent_ofStack _ _ hrest htop]
        rfl
      · rw [List.map_append, List.reverse_append]
        rfl
  · refine ⟨names ++ [n], ups, ?_, join_ofStack _ _ h hn, ?_⟩
    · intro m hm
      rcases List.mem_append.mp hm with hm | hm
      · exact h m hm
      · rw [List.mem_singleton.mp hm]
        exact hn
    · rw [List.map_append, List.reverse_append]
      rfl

/-- The text and the stack agree after any number of components. -/
theorem foldl_pushText {absolute : Bool} {ups : Nat} (h : ∀ n ∈ names, Plain n)
    (hcs : ∀ c ∈ cs, c = .up ∨ ∃ n, c = .name n ∧ Plain n) :
    ∃ (names' : List Bytes) (ups' : Nat), (∀ n ∈ names', Plain n)
      ∧ cs.foldl pushText (ofStack absolute ups names) = ofStack absolute ups' names'
      ∧ cs.foldl pushComponent ((names.map .name).reverse ++ floor absolute ups)
        = (names'.map .name).reverse ++ floor absolute ups' := by
  induction cs generalizing names ups with
  | nil => exact ⟨names, ups, h, rfl, rfl⟩
  | cons c cs ih =>
    obtain ⟨mid, midUps, hmid, htext, hstack⟩ :=
      @pushText_ofStack _ absolute ups h c (hcs c List.mem_cons_self)
    rw [List.foldl_cons, List.foldl_cons, htext, hstack]
    exact ih hmid fun d hd => hcs d (List.mem_cons_of_mem _ hd)

/-- What is written from a stack, its lowest component first. -/
theorem ofComponents_stack (absolute : Bool) (ups : Nat) (names : List Bytes) :
    ofComponents ((names.map Component.name).reverse ++ floor absolute ups).reverse
      = ofStack absolute ups names := by
  rw [List.reverse_append, List.reverse_reverse, reverse_floor]
  cases absolute with
  | true => exact ofComponents_rooted names
  | false => exact ofComponents_trail ups names

/-- Keeping the text gives the normal form. -/
theorem foldl_pushText_components (p : Path) :
    p.components.foldl pushText ⟨[]⟩ = p.normalize := by
  have hlead : p.lead.components.foldl pushText ⟨[]⟩ = ofStack p.isAbsolute 0 [] := by
    unfold lead
    split
    · rename_i habs
      rw [habs]
      rfl
    · rename_i hrel
      rw [Bool.eq_false_iff.mpr hrel]
      split <;> rfl
  obtain ⟨names, ups, -, htext, hstack⟩ :=
    @foldl_pushText p.inner [] p.isAbsolute 0 nofun fun _ => mem_inner
  rw [List.map_nil, List.reverse_nil, List.nil_append, ← reduce_components] at hstack
  rw [normalize, hstack, ofComponents_stack, components, List.foldl_append, hlead]
  exact htext

/-! ## The canonical form -/

/-- The canonical form `q` of a path `p`. -/
structure CanonicalForm (p q : Path) : Prop where
  /-- The text spells no `.` and no slash too many. -/
  tidy : q.Tidy
  /-- It begins at the root if and only if the path does. -/
  absolute : q.isAbsolute = p.isAbsolute
  /-- It is the root, or some steps up, and then only names; and these are parts of the path, byte
  for byte and in their order. -/
  names : ∃ (ups : Nat) (names : List Bytes), (∀ n ∈ names, Plain n) ∧ names.Sublist p.segments
    ∧ q.components = (if p.isAbsolute then [.root] else List.replicate ups .up) ++ names.map .name
  /-- Leaving out detours, one after the other and in any order, ends here and nowhere else. -/
  reduced : ∀ cs, (ReflTransGen Cancels p.components cs ∧ Settled cs) ↔ cs = q.components

/-- **Normalizing computes the canonical form.**  The normal form of a path is canonical, nothing
else is, and normalizing it again changes nothing; and to keep the text that is written so far,
and to read its last component again at every `..`, gives the same as to keep a stack. -/
theorem canonical_iff_normalize (p : Path) :
    (∀ q, CanonicalForm p q ↔ q = p.normalize)
      ∧ p.normalize.normalize = p.normalize
      ∧ p.components.foldl pushText ⟨[]⟩ = p.normalize := by
  have hcanonical : CanonicalForm p p.normalize := by
    obtain ⟨ups, names, hnames, hnormal, -⟩ := p.exists_ofStack
    refine ⟨?_, p.isAbsolute_normalize_eq, p.exists_normal_components, ?_⟩
    · rw [hnormal]
      exact tidy_ofStack _ _ hnames
    · intro cs
      rw [components_normalize]
      exact reduces_settled_iff
  refine ⟨?_, p.normalize_normalize, p.foldl_pushText_components⟩
  intro q
  constructor
  · intro h
    -- both have the components at which the rules stop, and a tidy text says no more than these
    have hsame : q.components = p.normalize.components :=
      (hcanonical.reduced q.components).mp ((h.reduced q.components).mpr rfl)
    rw [← h.tidy.ofComponents_components, ← hcanonical.tidy.ofComponents_components, hsame]
  · rintro rfl
    exact hcanonical

/-- A path with every kind of detour. -/
example : (ofString "./../a//b/./../../../c/").normalize = ofString "../../c" := by decide

end LineShell.Path
