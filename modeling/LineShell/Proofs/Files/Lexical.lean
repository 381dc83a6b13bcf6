/-
What a path means, read off its text.

Two procedures read a path.  The operating system takes its steps from directory to directory, and
the shell takes its components into a stack.  They agree about what stands between the slashes: a
component is a step, and a step that is no component stays where it is (`filter_steps`).  To stay
in a directory on the way to another step makes no difference, links or not (`walk_skip_here`).

Without links every step goes to the directory above or to one below, and the stack holds just the
names on the way down (`foldl_pushComponent_after`).  So where a path leads, and every directory
above that place was met on the way (`Found`), the normal form leads to the same place
(`resolve_normalize`).  The normal form may lead somewhere that the path does not: it leaves out the
names that the path enters and leaves again, and nothing need stand there.
-/
import LineShell.Proofs.Files.Entries
import LineShell.Proofs.Path.Abridged

set_option autoImplicit false

namespace LineShell

open LineShell.Text

/-! ## Steps and components -/

namespace Path

variable {p : Path} {names parts : List Bytes}

/-- The step that a component asks for. -/
def Component.step : Component → Step
  | .up => .up
  | .name n => .name n
  | .root => .here
  | .here => .here

/-- The steps that go somewhere are the components. -/
theorem filter_steps (parts : List Bytes) :
    (parts.filterMap Step.ofSegment?).filter (· ≠ .here)
      = (parts.flatMap Component.ofSegment).map Component.step := by
  induction parts with
  | nil => rfl
  | cons part parts ih =>
    rw [List.flatMap_cons, List.map_append, ← ih, List.filterMap_cons]
    unfold Step.ofSegment? Component.ofSegment
    by_cases hempty : part = []
    · rw [if_pos hempty, if_pos (.inl hempty)]
      rfl
    by_cases hhere : part = [dot]
    · rw [if_neg hempty, if_pos hhere, if_pos (.inr hhere)]
      rfl
    rw [if_neg hempty, if_neg hhere, if_neg (not_or.mpr ⟨hempty, hhere⟩)]
    by_cases hup : part = [dot, dot]
    · rw [if_pos hup, if_pos hup]
      rfl
    · rw [if_neg hup, if_neg hup]
      rfl

theorem steps_rooted (h : ∀ part ∈ parts, slash ∉ part) :
    (rooted parts).steps = parts.filterMap Step.ofSegment? := by
  cases parts with
  | nil => rfl
  | cons part parts =>
    have hcut : (rooted (part :: parts)).segments = [] :: (part :: parts) := by
      have hsplit := split_join (List.cons_ne_nil part parts) h
      rw [segments, rooted, split_cons, if_pos (beq_self_eq_true slash), hsplit]
    rw [steps, hcut]
    rfl

theorem steps_rooted_of_plain (h : ∀ n ∈ names, Plain n) :
    (rooted names).steps = names.map .name := by
  rw [steps_rooted fun n hn => (h n hn).no_slash]
  induction names with
  | nil => rfl
  | cons n names ih =>
    have hn := h n List.mem_cons_self
    have hstep : Step.ofSegment? n = some (.name n) := by
      rw [Step.ofSegment?, if_neg hn.nonempty, if_neg hn.not_here, if_neg hn.not_up]
    rw [List.filterMap_cons_some hstep, ih fun m hm => h m (List.mem_cons_of_mem _ hm)]
    rfl

/-- A path ends in a slash only if there is nothing in its last part. -/
theorem endsInSlash_rooted {init : List Bytes} {part : Bytes} (hne : part ≠ [])
    (hslash : slash ∉ part) : (rooted (init ++ [part])).endsInSlash = false := by
  have hsuffix : part <:+ Text.join slash (init ++ [part]) := by
    induction init with
    | nil => exact List.suffix_rfl
    | cons first init ih =>
      obtain ⟨next, rest, hrest⟩ := List.exists_cons_of_ne_nil
        (List.append_ne_nil_of_right_ne_nil init (List.cons_ne_nil part []))
      rw [List.cons_append, hrest, Text.join, ← hrest]
      exact ih.trans ((List.suffix_cons _ _).trans (List.suffix_append _ _))
  obtain ⟨before, hbefore⟩ := hsuffix
  obtain ⟨front, last, rfl⟩ := List.eq_nil_or_concat part |>.resolve_left hne
  rw [List.concat_eq_append] at hslash hbefore ⊢
  have hlast : last ≠ slash := by
    rintro rfl
    exact hslash (List.mem_append_right front List.mem_cons_self)
  rw [endsInSlash, rooted, ← hbefore, ← List.append_assoc, ← List.cons_append,
    List.getLast?_concat]
  simpa using hlast

theorem endsInSlash_rooted_of_plain (h : ∀ n ∈ names, Plain n) (hne : names ≠ []) :
    (rooted names).endsInSlash = false := by
  obtain ⟨init, last, rfl⟩ := (List.eq_nil_or_concat names).resolve_left hne
  rw [List.concat_eq_append] at h ⊢
  have hlast := h last (by simp)
  exact endsInSlash_rooted hlast.nonempty hlast.no_slash

/-- A part that stands for something is a step that goes somewhere. -/
theorem exists_step {part : Bytes} (h : isVoid part = false) :
    ∃ step, Step.ofSegment? part = some step ∧ step ≠ .here := by
  simp only [isVoid, Bool.or_eq_false_iff, beq_eq_false_iff_ne] at h
  rw [Step.ofSegment?, if_neg h.1, if_neg h.2]
  split
  · exact ⟨_, rfl, by simp⟩
  · exact ⟨_, rfl, by simp⟩

/-- What is taken and loses some of its bytes is taken as well. -/
theorem Admitted.of_sublist {short : Path} (h : p.Admitted)
    (hshort : short.bytes.Sublist p.bytes) (hne : short.bytes ≠ []) : short.Admitted where
  no_nul := fun hmem => h.no_nul (hshort.subset hmem)
  nonempty := hne
  short := hshort.length_le.trans h.short

theorem Admitted.of_abridges {short : Path} (h : p.Admitted) (hshort : short.Abridges p) :
    short.Admitted := by
  apply h.of_sublist hshort.bytes_sublist
  obtain ⟨kept, rest, rfl, -, -⟩ := hshort
  exact List.cons_ne_nil _ _

end Path

namespace FileSystem

variable {fs : FileSystem} {purpose : Purpose} {slash : Bool} {dir l : Location}
  {onLink : Location → Path → List Step → Bool → Except Errno Spot} {rest : List Step}

/-! ## Walking on -/

theorem walkSteps_here (h : rest ≠ []) :
    fs.walkSteps purpose onLink slash dir (.here :: rest)
      = fs.walkSteps purpose onLink slash dir rest := by
  obtain ⟨next, rest, rfl⟩ := List.exists_cons_of_ne_nil h
  rfl

theorem walkSteps_up (h : rest ≠ []) :
    fs.walkSteps purpose onLink slash dir (.up :: rest)
      = fs.walkSteps purpose onLink slash dir.tail rest := by
  obtain ⟨next, rest, rfl⟩ := List.exists_cons_of_ne_nil h
  rfl

theorem walkSteps_name (h : rest ≠ []) (n : Name) :
    fs.walkSteps purpose onLink slash dir (.name n :: rest)
      = if maxName < n.length then .error .nameTooLong
        else
          match fs.node? (n :: dir) with
          | none => .error .noEntry
          | some .directory => fs.walkSteps purpose onLink slash (n :: dir) rest
          | some (.link target) => onLink dir target rest slash
          | some (.file _) => .error .notDirectory
          | some (.device _) => .error .notDirectory := by
  obtain ⟨next, rest, rfl⟩ := List.exists_cons_of_ne_nil h
  rfl

/-- What has to be known about links for what is said about one stretch of a walk. -/
theorem walkSteps_skip_here {onOther : Location → Path → List Step → Bool → Except Errno Spot}
    {last : Step}
    (hlink : ∀ dir target init,
      onLink dir target (init.filter (· ≠ .here) ++ [last]) slash
        = onOther dir target (init ++ [last]) slash)
    (hlast : ∀ dir target, onLink dir target [] slash = onOther dir target [] slash)
    (dir : Location) (init : List Step) :
    fs.walkSteps purpose onLink slash dir (init.filter (· ≠ .here) ++ [last])
      = fs.walkSteps purpose onOther slash dir (init ++ [last]) := by
  have hne : ∀ steps : List Step, steps ++ [last] ≠ [] := fun steps => by simp
  induction init generalizing dir with
  | nil =>
    rcases last with _ | _ | n
    · rfl
    · rfl
    · simp only [List.filter_nil, List.nil_append, walkSteps, hlast]
  | cons step init ih =>
    rcases step with _ | _ | n
    · rw [List.filter_cons_of_neg (by decide), List.cons_append, walkSteps_here (hne init)]
      exact ih dir
    · rw [List.filter_cons_of_pos (by decide), List.cons_append, List.cons_append,
        walkSteps_up (hne _), walkSteps_up (hne init)]
      exact ih dir.tail
    · rw [List.filter_cons_of_pos (by simp), List.cons_append, List.cons_append,
        walkSteps_name (hne _), walkSteps_name (hne init)]
      split
      · rfl
      · split
        · rfl
        · exact ih _
        · exact hlink dir _ init
        · rfl
        · rfl

/-- To stay in a directory in front of another step makes no difference to a walk. -/
theorem walk_skip_here (budget : Nat) (dir : Location) (init : List Step) (last : Step) :
    fs.walk purpose budget dir (init.filter (· ≠ .here) ++ [last]) slash
      = fs.walk purpose budget dir (init ++ [last]) slash := by
  induction budget generalizing dir init slash with
  | zero =>
    rw [walk, walk]
    apply walkSteps_skip_here
    · intro dir target init
      rfl
    · intro dir target
      rfl
  | succ budget ih =>
    rw [walk, walk]
    apply walkSteps_skip_here
    · -- behind the link, the steps of its target come first
      intro dir target init
      have hmore : ∀ steps : List Step, (steps ++ [last]).isEmpty = false := by simp
      rw [hmore, hmore, ← List.append_assoc, ← List.append_assoc, ← ih,
        ← @ih _ _ (target.steps ++ init), List.filter_append, List.filter_append,
        List.filter_filter]
      simp
    · intro dir target
      rfl

/-! ## Parents -/

/-- The root is there, however it is written. -/
theorem resolve_root {p : Path} (habs : p.isAbsolute = true) (hroot : p.components = [.root])
    (hadmitted : p.Admitted) : fs.resolve p = .ok ([], .directory) := by
  have hstays : ∀ (onLink : Location → Path → List Step → Bool → Except Errno Spot)
      (steps : List Step), (∀ step ∈ steps, step = .here) → ∃ spot,
        fs.walkSteps .follow onLink p.endsInSlash [] steps = .ok spot
          ∧ fs.nodeAt spot = .ok ([], .directory) := by
    intro onLink steps hsteps
    induction steps with
    | nil => exact ⟨_, rfl, rfl⟩
    | cons step rest ih =>
      have hrest := ih fun step hstep => hsteps step (List.mem_cons_of_mem _ hstep)
      rw [hsteps step List.mem_cons_self]
      by_cases hmore : rest = []
      · rw [hmore]
        exact ⟨_, rfl, rfl⟩
      · rwa [walkSteps_here hmore]
  have hsteps : ∀ step ∈ p.steps, step = .here := by
    rw [Path.components_of_isAbsolute habs] at hroot
    have hfilter : p.steps.filter (· ≠ .here) = p.inner.map Path.Component.step :=
      Path.filter_steps p.segments
    rw [(List.cons.inj hroot).2, List.map_nil, List.filter_eq_nil_iff] at hfilter
    intro step hstep
    simpa using hfilter step hstep
  obtain ⟨spot, hwalk, hnode⟩ := hstays _ p.steps hsteps
  have hlocate : fs.locate .follow p = .ok spot := by
    rw [locate_eq_ok_iff, startOf, if_pos habs]
    exact ⟨hadmitted, hwalk⟩
  rw [resolve, hlocate]
  exact hnode

/-- A path without steps up leads where its normal form leads, unless it ends in a part that stands
for nothing: there, a link would be followed that may not be followed otherwise. -/
theorem resolve_normalize_rooted {parts : List Bytes}
    (hparts : ∀ part ∈ parts, Path.slash ∉ part)
    (hlast : ∀ part, parts.getLast? = some part → Path.isVoid part = false)
    (hnormal : (Path.rooted parts).IsNormal) (hadmitted : (Path.rooted parts).Admitted) :
    fs.resolve (Path.rooted parts).normalize = fs.resolve (Path.rooted parts) := by
  obtain ⟨names, hnames, hcomponents, hspelled⟩ := hnormal.exists_rooted
  have hshort := hadmitted.of_abridges (Path.abridges_normalize hnormal.absolute)
  rw [hspelled] at hshort ⊢
  rcases List.eq_nil_or_concat parts with rfl | ⟨init, part, rfl⟩
  · -- the root has one spelling without slashes behind it
    have hroot : Path.rooted names = Path.rooted [] := hspelled.symm
    rw [hroot]
  rw [List.concat_eq_append] at *
  have hvoid := hlast part List.getLast?_concat
  obtain ⟨last, hstep, hgoes⟩ := Path.exists_step hvoid
  have hsteps : (Path.rooted (init ++ [part])).steps
      = init.filterMap Step.ofSegment? ++ [last] := by
    rw [Path.steps_rooted hparts, List.filterMap_append, List.filterMap_cons_some hstep]
    rfl
  have hkept : (Path.rooted names).steps
      = (init.filterMap Step.ofSegment?).filter (· ≠ .here) ++ [last] := by
    have hfilter := Path.filter_steps (init ++ [part])
    have hinner := Path.components_slash_join hparts
    rw [← Path.steps_rooted hparts, hsteps, List.filter_append,
      List.filter_cons_of_pos (by simpa using hgoes), List.filter_nil] at hfilter
    rw [← Path.rooted, hcomponents] at hinner
    rw [hfilter, ← (List.cons.inj hinner).2, List.map_map, Path.steps_rooted_of_plain hnames]
    rfl
  have hslash : (Path.rooted names).endsInSlash = false := by
    apply Path.endsInSlash_rooted_of_plain hnames
    rintro rfl
    -- the normal form has a step
    have hnone : (Path.rooted []).steps = [] := rfl
    rw [hnone] at hkept
    simp at hkept
  have hpartSlash : (Path.rooted (init ++ [part])).endsInSlash = false := by
    apply Path.endsInSlash_rooted _ (hparts part (by simp))
    rintro rfl
    exact absurd hvoid (by decide)
  rw [resolve, resolve, locate_of_admitted hadmitted, locate_of_admitted hshort, hkept, hsteps,
    hslash, hpartSlash, walk_skip_here]
  rfl

/-- What is left of a directory in normal form leads where its own normal form leads. -/
theorem resolve_parent {p : Path} (h : p.IsNormal) (hadmitted : (p.parent?.getD p).Admitted) :
    fs.resolve (p.parent?.getD p).normalize = fs.resolve (p.parent?.getD p) := by
  rcases h.shape with hroot | hname
  · rw [Path.parent_of_root h.absolute hroot, Option.getD_none] at hadmitted ⊢
    have hspelled : p.normalize.components = [.root] := h.components.trans hroot
    have hshort := hadmitted.of_abridges (Path.abridges_normalize h.absolute)
    rw [resolve_root h.absolute hroot hadmitted,
      resolve_root (Path.isAbsolute_normalize h.absolute) hspelled hshort]
  · obtain ⟨n, hname⟩ := Option.ne_none_iff_exists'.mp hname
    obtain ⟨q, hparent⟩ := Path.exists_parent_of_fileName h.absolute hname
    obtain ⟨parts, rfl, hparts, hlast⟩ := Path.exists_parts_of_parent h.absolute hparent
    have hnormal := h.parent
    rw [hparent, Option.getD_some] at hnormal hadmitted ⊢
    exact resolve_normalize_rooted hparts hlast hnormal hadmitted

/-! ## Without links -/

/-- A file system without symbolic links. -/
def LinkFree (fs : FileSystem) : Prop := ∀ l target, fs.node? l ≠ some (.link target)

theorem linkFree_of_entries (h : ∀ e ∈ fs.entries, e.2.kind ≠ .link) : fs.LinkFree := by
  intro l target hnode
  by_cases hroot : l = []
  · rw [node?, if_pos hroot] at hnode
    exact nomatch hnode
  · exact h _ (mem_entries_of_node? hroot hnode) rfl

/-- Something stands at a location, and every directory above it can be walked through. -/
inductive Found (fs : FileSystem) : Location → Node → Prop where
  | root : Found fs [] .directory
  | entry {n : Name} {dir : Location} {node : Node} (hdir : Found fs dir .directory)
      (hshort : n.length ≤ maxName) (hnode : fs.node? (n :: dir) = some node) :
      Found fs (n :: dir) node

theorem Found.up {l : Location} (h : fs.Found l .directory) : fs.Found l.tail .directory := by
  cases h with
  | root => exact .root
  | entry hdir _ _ => exact hdir

theorem Found.above {names : List Name} {node : Node} (h : fs.Found (names ++ l) node)
    (hne : names ≠ []) : fs.Found l .directory := by
  induction names generalizing node with
  | nil => exact absurd rfl hne
  | cons n names ih =>
    rw [List.cons_append] at h
    cases h with
    | entry hdir _ _ =>
      by_cases hnil : names = []
      · rwa [hnil] at hdir
      · exact ih hdir hnil

/-- Where a step leads if there are no links. -/
def Location.after (l : Location) : Step → Location
  | .here => l
  | .up => l.tail
  | .name n => n :: l

/-- Without links a walk goes where its steps lead. -/
theorem found_of_walkSteps (hfree : fs.LinkFree) {steps : List Step} {spot : Spot} {node : Node}
    (hdir : fs.Found dir .directory)
    (hwalk : fs.walkSteps purpose onLink slash dir steps = .ok spot)
    (hnode : fs.nodeAt spot = .ok (l, node)) :
    l = steps.foldl Location.after dir ∧ fs.Found l node := by
  induction steps generalizing dir with
  | nil =>
    injection hwalk with hwalk
    rw [← hwalk] at hnode
    cases hnode
    exact ⟨rfl, hdir⟩
  | cons step rest ih =>
    by_cases hmore : rest = []
    · subst hmore
      rcases step with _ | _ | n
      · injection hwalk with hwalk
        rw [← hwalk] at hnode
        cases hnode
        exact ⟨rfl, hdir⟩
      · injection hwalk with hwalk
        rw [← hwalk] at hnode
        cases hnode
        exact ⟨rfl, hdir.up⟩
      · have hspot : spot = ⟨dir, .name n, slash⟩ := by
          simp only [walkSteps] at hwalk
          split at hwalk
          · rename_i target htarget
            exact absurd htarget (hfree _ _)
          · injection hwalk with hwalk
            exact hwalk.symm
        subst hspot
        obtain ⟨rfl, hshort, hthere, -⟩ := nodeAt_name_iff.mp hnode
        exact ⟨rfl, .entry hdir hshort hthere⟩
    · rw [List.foldl_cons]
      rcases step with _ | _ | n
      · rw [walkSteps_here hmore] at hwalk
        exact ih hdir hwalk
      · rw [walkSteps_up hmore] at hwalk
        exact ih hdir.up hwalk
      · rw [walkSteps_name hmore] at hwalk
        split at hwalk
        · cases hwalk
        · rename_i hshort
          split at hwalk
          · cases hwalk
          · rename_i hthere
            exact ih (.entry hdir (Nat.not_lt.mp hshort) hthere) hwalk
          · rename_i target htarget
            exact absurd htarget (hfree _ _)
          · cases hwalk
          · cases hwalk

/-- The names on the way down to something lead to it. -/
theorem exists_walkSteps_names (hfree : fs.LinkFree) {names : List Name} {node : Node}
    (hne : names ≠ []) (h : fs.Found (names.reverse ++ dir) node) :
    ∃ spot, fs.walkSteps purpose onLink false dir (names.map .name) = .ok spot
      ∧ fs.nodeAt spot = .ok (names.reverse ++ dir, node) := by
  induction names generalizing dir with
  | nil => exact absurd rfl hne
  | cons n names ih =>
    rw [List.reverse_cons, List.append_assoc, List.singleton_append] at h ⊢
    rw [List.map_cons]
    by_cases hmore : names = []
    · subst hmore
      cases h with
      | entry _ hshort hnode =>
        refine ⟨⟨dir, .name n, false⟩, ?_, nodeAt_name_iff.mpr ⟨rfl, hshort, hnode, nofun⟩⟩
        simp only [List.map_nil, walkSteps]
        split
        · rename_i target htarget
          exact absurd htarget (hfree _ _)
        · rfl
    · have habove : fs.Found (n :: dir) .directory := h.above (by simpa using hmore)
      cases habove with
      | entry _ hshort hnode =>
        rw [walkSteps_name (by simpa using hmore), if_neg (Nat.not_lt.mpr hshort), hnode]
        exact ih hmore h

/-- Without links, the path of some names leads to what is found at them. -/
theorem resolve_rooted (hfree : fs.LinkFree) {names : List Name} {node : Node}
    (hnames : ∀ n ∈ names, Path.Plain n) (hadmitted : (Path.rooted names).Admitted)
    (h : fs.Found names.reverse node) :
    fs.resolve (Path.rooted names) = .ok (names.reverse, node) := by
  by_cases hne : names = []
  · subst hne
    cases h
    exact resolve_root (Path.isAbsolute_rooted []) (Path.components_rooted hnames) hadmitted
  · have hslash := Path.endsInSlash_rooted_of_plain hnames hne
    rw [← List.append_nil names.reverse] at h ⊢
    obtain ⟨spot, hwalk, hnode⟩ := exists_walkSteps_names hfree hne h
    have hlocate : fs.locate .follow (Path.rooted names) = .ok spot := by
      rw [locate_eq_ok_iff, hslash, Path.steps_rooted_of_plain hnames, startOf,
        if_pos (Path.isAbsolute_rooted names)]
      exact ⟨hadmitted, hwalk⟩
    rw [resolve, hlocate]
    exact hnode

/-- The stack of the components above the root holds the names on the way to where the steps
lead. -/
theorem foldl_pushComponent_after {cs : List Path.Component} (l : Location)
    (h : ∀ c ∈ cs, c = .up ∨ ∃ n, c = .name n ∧ Path.Plain n) :
    cs.foldl Path.pushComponent (l.map .name ++ [.root])
      = ((cs.map Path.Component.step).foldl Location.after l).map .name ++ [.root] := by
  induction cs generalizing l with
  | nil => rfl
  | cons c cs ih =>
    have hrest := fun l => ih l fun d hd => h d (List.mem_cons_of_mem _ hd)
    rw [List.foldl_cons, List.map_cons, List.foldl_cons, ← hrest]
    rcases h c List.mem_cons_self with rfl | ⟨n, rfl, -⟩
    · cases l <;> rfl
    · rfl

/-- Steps that stay lead nowhere else. -/
theorem foldl_after_filter (steps : List Step) (l : Location) :
    (steps.filter (· ≠ .here)).foldl Location.after l = steps.foldl Location.after l := by
  induction steps generalizing l with
  | nil => rfl
  | cons step rest ih =>
    rcases step with _ | _ | n
    · rw [List.filter_cons_of_neg (by decide)]
      exact ih l
    · rw [List.filter_cons_of_pos (by decide)]
      exact ih l.tail
    · rw [List.filter_cons_of_pos (by simp)]
      exact ih (n :: l)

/-- **Without links, what a path means is what its normal form means.** -/
theorem resolve_normalize (hfree : fs.LinkFree) {p : Path} {node : Node}
    (habs : p.isAbsolute = true) (h : fs.resolve p = .ok (l, node)) :
    fs.resolve p.normalize = .ok (l, node) := by
  obtain ⟨spot, hspot, hnode⟩ := exists_of_bind_eq_ok h
  obtain ⟨hadmitted, hwalk⟩ := locate_eq_ok_iff.mp hspot
  rw [startOf, if_pos habs, maxLinks, walk] at hwalk
  obtain ⟨hl, hfound⟩ := found_of_walkSteps hfree .root hwalk hnode
  -- the location is what the components leave on the stack
  obtain ⟨ups, names, hnames, hnormal, hreduce⟩ := p.exists_ofStack
  rw [habs] at hnormal hreduce
  have hsteps : p.steps.filter (· ≠ .here) = p.inner.map Path.Component.step :=
    Path.filter_steps p.segments
  have hstack := foldl_pushComponent_after [] fun c hc => @Path.mem_inner p c hc
  rw [← hsteps, foldl_after_filter, ← hl, List.map_nil, List.nil_append] at hstack
  rw [Path.reduce_components, habs] at hreduce
  have hlocation : names.reverse = l := by
    have hboth := List.append_cancel_right (hreduce.symm.trans hstack)
    rw [← List.map_reverse] at hboth
    exact List.map_injective_iff.mpr (fun a b heq => by injection heq) hboth
  have hshort := hadmitted.of_abridges (Path.abridges_normalize habs)
  have hspelled : p.normalize = Path.rooted names := hnormal
  rw [hspelled] at hshort ⊢
  rw [← hlocation] at hfound ⊢
  exact resolve_rooted hfree hnames hshort hfound

end FileSystem

end LineShell
