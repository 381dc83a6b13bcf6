/-
Walks with different purposes.

A rename walks its paths to the entries that they name, while reading and opening go on through a
link in last place.  Until the last step all walks do the same.  So they fail alike, and they end
alike wherever the entry is not a link that is to be followed (`walk_agrees`).  This is what
relates the two ways to move a file.

A walk passes only through what is there.  Adding entries therefore does not change where a walk
ends that ended somewhere before (`walk_of_extends`), and where a file would be created, there the
path leads when it is (`locate_follow_of_create`).
-/
import LineShell.Proofs.Files.Locations

set_option autoImplicit false

namespace LineShell

/-- A path that the operating system takes. -/
structure Path.Admitted (p : Path) : Prop where
  no_nul : 0 ∉ p.bytes
  nonempty : p.bytes ≠ []
  short : p.bytes.length ≤ FileSystem.maxPath

namespace FileSystem

variable {fs after : FileSystem} {purpose : Purpose} {slash : Bool}

/-- What is found out about a path that is taken is found out by its walk. -/
theorem locate_of_admitted {p : Path} (h : p.Admitted) :
    fs.locate purpose p
      = match fs.walk purpose maxLinks (startOf p fs.base) p.steps p.endsInSlash with
        | .ok spot => .ok spot
        | .error reason => .error (.os reason) := by
  have hnul : ¬ p.bytes.contains 0 = true := by simpa using h.no_nul
  rw [locate, if_neg hnul, if_neg h.nonempty]
  refine (if_neg (Nat.not_lt.mpr h.short)).trans ?_
  rcases fs.walk purpose maxLinks (startOf p fs.base) p.steps p.endsInSlash with _ | _ <;> rfl

/-- Where a path leads is where its walk ends, if it is taken at all. -/
theorem locate_eq_ok_iff {p : Path} {spot : Spot} :
    fs.locate purpose p = .ok spot
      ↔ p.Admitted
        ∧ fs.walk purpose maxLinks (startOf p fs.base) p.steps p.endsInSlash = .ok spot := by
  constructor
  · intro h
    unfold locate at h
    split at h
    · exact nomatch h
    rename_i hnul
    split at h
    · exact nomatch h
    rename_i hempty
    split at h
    · exact nomatch h
    rename_i hlong
    refine ⟨⟨by simpa using hnul, hempty, Nat.not_lt.mp hlong⟩, ?_⟩
    split at h
    · rename_i ended hwalk
      injection h with h
      rw [hwalk, h]
    · exact nomatch h
  · rintro ⟨hadmitted, hwalk⟩
    rw [locate_of_admitted hadmitted, hwalk]

/-- What is found under a name is the entry there, unless a slash behind the name asks for a
directory and there is none. -/
theorem nodeAt_name_iff {dir l : Location} {n : Name} {node : Node} :
    fs.nodeAt ⟨dir, .name n, slash⟩ = .ok (l, node)
      ↔ l = n :: dir ∧ n.length ≤ maxName ∧ fs.node? (n :: dir) = some node
        ∧ (slash = true → node = .directory) := by
  constructor
  · intro h
    simp only [nodeAt] at h
    split at h
    · exact nomatch h
    rename_i hshort
    split at h
    · exact nomatch h
    rename_i there hthere
    split at h
    · exact nomatch h
    rename_i hslash
    injection h with h
    injection h with hl hnode
    subst hnode
    exact ⟨hl.symm, Nat.not_lt.mp hshort, hthere, by simpa using hslash⟩
  · rintro ⟨rfl, hshort, hnode, hslash⟩
    simp only [nodeAt, hnode]
    rw [if_neg (Nat.not_lt.mpr hshort), if_neg]
    simpa using hslash

/-! ## The same walk for another purpose -/

/-- A spot at which a walk for the given purpose ends: it does not follow a link from there. -/
def EndsAt (fs : FileSystem) (purpose : Purpose) (spot : Spot) : Prop :=
  ∀ n target, spot.last = .name n → fs.node? (n :: spot.dir) = some (.link target) →
    purpose.followsLast spot.slash = false

/-- What a walk to an entry tells about a walk for another purpose. -/
def Agrees (fs : FileSystem) (purpose : Purpose) (slash : Bool)
    (entry walk : Except Errno Spot) : Prop :=
  match entry with
  | .error e => walk = .error e
  | .ok spot => spot.slash = slash ∧ (fs.EndsAt purpose spot → walk = .ok spot)

theorem walkSteps_agrees
    {onEntryLink onLink : Location → Path → List Step → Bool → Except Errno Spot}
    (hlink : ∀ dir target rest, rest ≠ [] →
      fs.Agrees purpose slash (onEntryLink dir target rest slash) (onLink dir target rest slash))
    (dir : Location) (steps : List Step) :
    fs.Agrees purpose slash (fs.walkSteps .parent onEntryLink slash dir steps)
      (fs.walkSteps purpose onLink slash dir steps) := by
  induction steps generalizing dir with
  | nil => exact ⟨rfl, fun _ => rfl⟩
  | cons step rest ih =>
    rcases rest with _ | ⟨next, rest⟩
    · -- the last step: only a link that the other walk follows makes a difference
      rcases step with _ | _ | n
      · exact ⟨rfl, fun _ => rfl⟩
      · exact ⟨rfl, fun _ => rfl⟩
      · rcases hnode : fs.node? (n :: dir) with _ | _ | id | target | d
        · simp only [walkSteps, hnode]
          exact ⟨rfl, fun _ => rfl⟩
        · simp only [walkSteps, hnode]
          exact ⟨rfl, fun _ => rfl⟩
        · simp only [walkSteps, hnode]
          exact ⟨rfl, fun _ => rfl⟩
        · have hentry : fs.walkSteps .parent onEntryLink slash dir [.name n]
              = .ok ⟨dir, .name n, slash⟩ := by
            simp only [walkSteps, hnode, Purpose.followsLast, Bool.false_eq_true, if_false]
          rw [hentry]
          refine ⟨rfl, fun hends => ?_⟩
          have hstays : purpose.followsLast slash = false := hends n target rfl hnode
          simp only [walkSteps, hnode, hstays, Bool.false_eq_true, if_false]
        · simp only [walkSteps, hnode]
          exact ⟨rfl, fun _ => rfl⟩
    · rcases step with _ | _ | n
      · exact ih dir
      · exact ih dir.tail
      · simp only [walkSteps]
        by_cases hlong : maxName < n.length
        · rw [if_pos hlong, if_pos hlong]
          rfl
        · rw [if_neg hlong, if_neg hlong]
          rcases fs.node? (n :: dir) with _ | _ | id | target | d
          · rfl
          · exact ih (n :: dir)
          · rfl
          · exact hlink dir target (next :: rest) (List.cons_ne_nil _ _)
          · rfl

/-- A walk to an entry and a walk for another purpose fail alike, and end alike unless the
other one goes on through the entry. -/
theorem walk_agrees (budget : Nat) (dir : Location) (steps : List Step) :
    fs.Agrees purpose slash (fs.walk .parent budget dir steps slash)
      (fs.walk purpose budget dir steps slash) := by
  induction budget generalizing dir steps with
  | zero =>
    rw [walk, walk]
    refine walkSteps_agrees (fun dir target rest _ => ?_) dir steps
    exact rfl
  | succ budget ih =>
    rw [walk, walk]
    refine walkSteps_agrees (fun dir target rest hrest => ?_) dir steps
    -- steps follow, so a slash behind the target of the link does not count
    have hmore : rest.isEmpty = false := List.isEmpty_eq_false_iff.mpr hrest
    rw [hmore, Bool.false_and, Bool.or_false]
    exact ih _ _

theorem walkSteps_slash {onLink : Location → Path → List Step → Bool → Except Errno Spot}
    (hlink : ∀ dir target rest spot, onLink dir target rest true = .ok spot → spot.slash = true)
    {dir : Location} {steps : List Step} {spot : Spot}
    (h : fs.walkSteps purpose onLink true dir steps = .ok spot) : spot.slash = true := by
  induction steps generalizing dir with
  | nil =>
    injection h with h
    rw [← h]
  | cons step rest ih =>
    rcases rest with _ | ⟨next, rest⟩
    · rcases step with _ | _ | n
      · injection h with h
        rw [← h]
      · injection h with h
        rw [← h]
      · simp only [walkSteps] at h
        split at h
        · split at h
          · exact hlink _ _ _ _ h
          · injection h with h
            rw [← h]
        · injection h with h
          rw [← h]
    · rcases step with _ | _ | n
      · exact ih h
      · exact ih h
      · simp only [walkSteps] at h
        split at h
        · exact nomatch h
        · split at h
          · exact nomatch h
          · exact ih h
          · exact hlink _ _ _ _ h
          · exact nomatch h
          · exact nomatch h

/-- A slash behind the last step is never forgotten. -/
theorem walk_slash {budget : Nat} {dir : Location} {steps : List Step} {spot : Spot}
    (h : fs.walk purpose budget dir steps true = .ok spot) : spot.slash = true := by
  induction budget generalizing dir steps spot with
  | zero =>
    rw [walk] at h
    refine walkSteps_slash (fun dir target rest spot hlink => ?_) h
    exact nomatch hlink
  | succ budget ih =>
    rw [walk] at h
    refine walkSteps_slash (fun dir target rest spot hlink => ?_) h
    rw [Bool.true_or] at hlink
    exact ih hlink

/-- Where a walk ends, a walk to the entry ends too: at the same spot, or at a link in last place
that the other walk has followed. -/
theorem locate_parent_of_locate {p : Path} {spot : Spot} (h : fs.locate purpose p = .ok spot) :
    ∃ entry, fs.locate .parent p = .ok entry ∧ (entry.slash = true → spot.slash = true)
      ∧ (fs.EndsAt purpose entry → spot = entry) := by
  obtain ⟨hadmitted, hwalk⟩ := locate_eq_ok_iff.mp h
  have hagrees := @walk_agrees fs purpose p.endsInSlash maxLinks (startOf p fs.base) p.steps
  rcases hentry : fs.walk .parent maxLinks (startOf p fs.base) p.steps p.endsInSlash with e | entry
  · rw [hentry] at hagrees
    have hfailed : fs.walk purpose maxLinks (startOf p fs.base) p.steps p.endsInSlash = .error e :=
      hagrees
    rw [hwalk] at hfailed
    exact nomatch hfailed
  · rw [hentry] at hagrees
    obtain ⟨hslash, hends⟩ := hagrees
    refine ⟨entry, locate_eq_ok_iff.mpr ⟨hadmitted, hentry⟩, fun hentrySlash => ?_, fun hend => ?_⟩
    · rw [← hslash, hentrySlash] at hwalk
      exact walk_slash hwalk
    · rw [hends hend] at hwalk
      injection hwalk with hwalk
      exact hwalk.symm

/-- What two walks from everywhere have in common, the walks of a path have in common. -/
theorem locate_of_walk {other : Purpose} {p : Path} {spot : Spot} (hbase : after.base = fs.base)
    (hwalk : ∀ dir, fs.walk purpose maxLinks dir p.steps p.endsInSlash = .ok spot →
      after.walk other maxLinks dir p.steps p.endsInSlash = .ok spot)
    (h : fs.locate purpose p = .ok spot) : after.locate other p = .ok spot := by
  obtain ⟨hadmitted, hended⟩ := locate_eq_ok_iff.mp h
  rw [locate_eq_ok_iff, hbase]
  exact ⟨hadmitted, hwalk _ hended⟩

/-- A walk to an entry and a walk that does not go on from there end alike. -/
theorem locate_of_locate_parent {p : Path} {spot : Spot} (h : fs.locate .parent p = .ok spot)
    (hends : fs.EndsAt purpose spot) : fs.locate purpose p = .ok spot := by
  apply locate_of_walk rfl _ h
  intro dir hwalk
  have hagrees := @walk_agrees fs purpose p.endsInSlash maxLinks dir p.steps
  rw [hwalk] at hagrees
  exact hagrees.2 hends

/-! ## The same walk among more entries -/

/-- What stood somewhere stands there still, and the base is the same. -/
structure Extends (fs after : FileSystem) : Prop where
  node_eq : ∀ l, fs.node? l ≠ none → after.node? l = fs.node? l
  base_eq : after.base = fs.base

/-- Among more entries a walk takes the same steps. The walk may even be for another purpose, as
long as both treat a link in last place alike; and if they follow it, none may be new. -/
theorem walkSteps_of_extends (hext : fs.Extends after) {other : Purpose}
    (hfollows : purpose.followsLast slash = other.followsLast slash)
    (hnew : other.followsLast slash = true →
      ∀ l target, after.node? l = some (.link target) → fs.node? l = some (.link target))
    {onLink onLink' : Location → Path → List Step → Bool → Except Errno Spot} {spot : Spot}
    (hlink : ∀ dir target rest, onLink dir target rest slash = .ok spot →
      onLink' dir target rest slash = .ok spot)
    {dir : Location} {steps : List Step}
    (h : fs.walkSteps purpose onLink slash dir steps = .ok spot) :
    after.walkSteps other onLink' slash dir steps = .ok spot := by
  induction steps generalizing dir with
  | nil => exact h
  | cons step rest ih =>
    rcases rest with _ | ⟨next, rest⟩
    · rcases step with _ | _ | n
      · exact h
      · exact h
      · simp only [walkSteps, hfollows] at h ⊢
        cases hlast : other.followsLast slash with
        | false =>
          -- whatever stands there, an entry is where the walk ends
          simp only [hlast, Bool.false_eq_true, if_false] at h ⊢
          split at h <;> split <;> exact h
        | true =>
          rw [hlast] at h
          rcases hnode : fs.node? (n :: dir) with _ | node
          · rw [hnode] at h
            split
            · rename_i target htarget
              rw [hnew hlast _ _ htarget] at hnode
              exact nomatch hnode
            · exact h
          · rw [hext.node_eq _ (by rw [hnode]; exact Option.some_ne_none _), hnode]
            rw [hnode] at h
            rcases node with _ | id | target | d
            · exact h
            · exact h
            · exact hlink _ _ _ h
            · exact h
    · rcases step with _ | _ | n
      · exact ih h
      · exact ih h
      · simp only [walkSteps] at h ⊢
        by_cases hlong : maxName < n.length
        · rw [if_pos hlong] at h
          exact nomatch h
        · rw [if_neg hlong] at h ⊢
          rcases hnode : fs.node? (n :: dir) with _ | node
          · rw [hnode] at h
            exact nomatch h
          · rw [hext.node_eq _ (by rw [hnode]; exact Option.some_ne_none _), hnode]
            rw [hnode] at h
            rcases node with _ | id | target | d
            · exact ih h
            · exact h
            · exact hlink _ _ _ h
            · exact h

/-- Among more entries a walk ends where it ended before, unless it follows a link in last place
that is new. -/
theorem walk_of_extends (hext : fs.Extends after)
    (hnew : ∀ slash, purpose.followsLast slash = true →
      ∀ l target, after.node? l = some (.link target) → fs.node? l = some (.link target))
    {budget : Nat} {dir : Location} {steps : List Step} {spot : Spot}
    (h : fs.walk purpose budget dir steps slash = .ok spot) :
    after.walk purpose budget dir steps slash = .ok spot := by
  induction budget generalizing dir steps slash spot with
  | zero =>
    rw [walk] at h ⊢
    apply walkSteps_of_extends hext rfl (hnew slash) _ h
    intro dir target rest hlink
    exact nomatch hlink
  | succ budget ih =>
    rw [walk] at h ⊢
    apply walkSteps_of_extends hext rfl (hnew slash) _ h
    intro dir target rest hlink
    exact ih hlink

/-- Where a file would be opened that may have to be created, there the path leads, also when it
was created meanwhile: a link in last place is followed for both purposes, unless there is a slash
behind the last step. -/
theorem walk_follow_of_create (hext : fs.Extends after)
    (hnew : ∀ l target, after.node? l = some (.link target) → fs.node? l = some (.link target))
    {budget : Nat} {dir : Location} {steps : List Step} {spot : Spot} (hplain : spot.slash = false)
    (h : fs.walk .create budget dir steps slash = .ok spot) :
    after.walk .follow budget dir steps slash = .ok spot := by
  have hfollows : Purpose.create.followsLast false = Purpose.follow.followsLast false := rfl
  induction budget generalizing dir steps slash with
  | zero =>
    cases slash with
    | true => exact absurd (walk_slash h) (by rw [hplain]; exact Bool.false_ne_true)
    | false =>
      rw [walk] at h ⊢
      apply walkSteps_of_extends hext hfollows (fun _ => hnew) _ h
      intro dir target rest hlink
      exact nomatch hlink
  | succ budget ih =>
    cases slash with
    | true => exact absurd (walk_slash h) (by rw [hplain]; exact Bool.false_ne_true)
    | false =>
      rw [walk] at h ⊢
      apply walkSteps_of_extends hext hfollows (fun _ => hnew) _ h
      intro dir target rest hlink
      exact ih hlink

/-- An entry that a path names keeps its place when others are added. -/
theorem locate_of_extends (hext : fs.Extends after) {p : Path} {spot : Spot}
    (h : fs.locate .parent p = .ok spot) : after.locate .parent p = .ok spot := by
  have hstays : ∀ slash, Purpose.parent.followsLast slash = true →
      ∀ l target, after.node? l = some (.link target) → fs.node? l = some (.link target) :=
    fun _ => nofun
  exact locate_of_walk hext.base_eq (fun _ => walk_of_extends hext hstays) h

/-- Where a file would be created, there it would be created still when entries are added that are
no links. -/
theorem locate_create_of_extends (hext : fs.Extends after)
    (hnew : ∀ l target, after.node? l = some (.link target) → fs.node? l = some (.link target))
    {p : Path} {spot : Spot} (h : fs.locate .create p = .ok spot) :
    after.locate .create p = .ok spot :=
  locate_of_walk hext.base_eq (fun _ => walk_of_extends hext fun _ _ => hnew) h

theorem locate_follow_of_create (hext : fs.Extends after)
    (hnew : ∀ l target, after.node? l = some (.link target) → fs.node? l = some (.link target))
    {p : Path} {spot : Spot} (hplain : spot.slash = false) (h : fs.locate .create p = .ok spot) :
    after.locate .follow p = .ok spot :=
  locate_of_walk hext.base_eq (fun _ => walk_follow_of_create hext hnew hplain) h

end FileSystem

end LineShell
