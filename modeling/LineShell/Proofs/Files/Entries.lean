/-
What a path names and what it leads to.

There are two questions about a path: what entry it names, a link in last place taken as the entry,
and what it leads to, links followed.  The walks for the two end at the same spot unless there is
a link at that spot, and with a slash behind the path they are the same walk.  So an entry that
is no link is what its path leads to (`status_of_entryStatus`), and a path that leads to something
names an entry (`not_isOk_status`).  What is left between the two are the links that lead nowhere.
-/
import LineShell.Proofs.Files.Sound
import LineShell.Proofs.Files.Walks

set_option autoImplicit false

namespace LineShell

namespace FileSystem

variable {fs : FileSystem} {p : Path} {l : Location} {node : Node} {kind : Kind}

/-- With a slash behind the last step, a question about the entry follows links as well. -/
theorem walkSteps_stay_slash
    {onEntryLink onLink : Location → Path → List Step → Bool → Except Errno Spot}
    (hlink : ∀ dir target rest,
      onEntryLink dir target rest true = onLink dir target rest true)
    (dir : Location) (steps : List Step) :
    fs.walkSteps .stay onEntryLink true dir steps = fs.walkSteps .follow onLink true dir steps := by
  induction steps generalizing dir with
  | nil => rfl
  | cons step rest ih =>
    rcases rest with _ | ⟨next, rest⟩
    · rcases step with _ | _ | n
      · rfl
      · rfl
      · simp only [walkSteps, Purpose.followsLast, if_true, hlink]
    · rcases step with _ | _ | n
      · exact ih dir
      · exact ih dir.tail
      · simp only [walkSteps, hlink]
        split
        · rfl
        · split
          · rfl
          · exact ih _
          · rfl
          · rfl
          · rfl

theorem walk_stay_slash (budget : Nat) (dir : Location) (steps : List Step) :
    fs.walk .stay budget dir steps true = fs.walk .follow budget dir steps true := by
  induction budget generalizing dir steps with
  | zero =>
    rw [walk, walk]
    apply walkSteps_stay_slash
    intro dir target rest
    rfl
  | succ budget ih =>
    rw [walk, walk]
    apply walkSteps_stay_slash
    intro dir target rest
    simp only [Bool.true_or]
    exact ih _ _

theorem resolveEntry_of_slash (h : p.endsInSlash = true) : fs.resolveEntry p = fs.resolve p := by
  simp only [resolveEntry, resolve, locate, h, walk_stay_slash]

/-- A walk to an entry keeps in mind whether there is a slash behind its path. -/
theorem slash_of_locate_parent {spot : Spot} (h : fs.locate .parent p = .ok spot) :
    spot.slash = p.endsInSlash := by
  obtain ⟨-, hwalk⟩ := locate_eq_ok_iff.mp h
  have hagrees := @walk_agrees fs .parent p.endsInSlash maxLinks (startOf p fs.base) p.steps
  rw [hwalk] at hagrees
  exact hagrees.1

/-- Without a slash, what a path names is what stands where the walk to its entry ends. -/
theorem resolveEntry_of_plain {spot : Spot} (h : fs.locate .parent p = .ok spot)
    (hplain : p.endsInSlash = false) : fs.resolveEntry p = fs.nodeAt spot := by
  have hslash : spot.slash = false := (slash_of_locate_parent h).trans hplain
  have hends : fs.EndsAt .stay spot := fun _ _ _ _ => hslash
  rw [resolveEntry, locate_of_locate_parent h hends]
  rfl

/-- Unless the walk to the entry ends at a link, the path leads to what it names. -/
theorem resolve_of_endsAt {spot : Spot} (h : fs.locate .parent p = .ok spot)
    (hends : fs.EndsAt .follow spot) : fs.resolve p = fs.nodeAt spot := by
  rw [resolve, locate_of_locate_parent h hends]
  rfl

/-- A spot at which a link would be followed is a name with a link behind it. -/
theorem exists_link_of_not_endsAt {spot : Spot} (h : ¬ fs.EndsAt .follow spot) :
    ∃ n target, spot.last = .name n ∧ fs.node? (n :: spot.dir) = some (.link target) := by
  simp only [EndsAt, not_forall] at h
  obtain ⟨n, target, hlast, hnode, -⟩ := h
  exact ⟨n, target, hlast, hnode⟩

/-- A path whose entry is not a link leads to that entry. -/
theorem resolve_of_resolveEntry (h : fs.resolveEntry p = .ok (l, node))
    (hnolink : ∀ target, node ≠ .link target) : fs.resolve p = .ok (l, node) := by
  by_cases hslash : p.endsInSlash = true
  · rw [← resolveEntry_of_slash hslash]
    exact h
  have hplain : p.endsInSlash = false := by simpa using hslash
  obtain ⟨ended, hended, -⟩ := exists_of_bind_eq_ok h
  obtain ⟨spot, hspot, -, -⟩ := locate_parent_of_locate hended
  rw [resolveEntry_of_plain hspot hplain] at h
  by_cases hends : fs.EndsAt .follow spot
  · rw [resolve_of_endsAt hspot hends]
    exact h
  · exfalso
    obtain ⟨n, target, hlast, hnode⟩ := exists_link_of_not_endsAt hends
    obtain ⟨dir, last, slash⟩ := spot
    subst hlast
    obtain ⟨-, -, hthere, -⟩ := nodeAt_name_iff.mp h
    rw [hnode] at hthere
    injection hthere with hthere
    exact hnolink target hthere.symm

/-- Where a path leads to something, an entry stands. -/
theorem exists_resolveEntry_of_resolve (hsound : fs.Sound) (h : fs.resolve p = .ok (l, node)) :
    ∃ entry, fs.resolveEntry p = .ok entry := by
  by_cases hslash : p.endsInSlash = true
  · exact ⟨_, (resolveEntry_of_slash hslash).trans h⟩
  have hplain : p.endsInSlash = false := by simpa using hslash
  obtain ⟨ended, hended, -⟩ := exists_of_bind_eq_ok h
  obtain ⟨spot, hspot, -, -⟩ := locate_parent_of_locate hended
  rw [resolveEntry_of_plain hspot hplain]
  by_cases hends : fs.EndsAt .follow spot
  · exact ⟨_, (resolve_of_endsAt hspot hends).symm.trans h⟩
  · -- the walk went on through a link, and then the link is the entry
    obtain ⟨n, target, hlast, hnode⟩ := exists_link_of_not_endsAt hends
    have hstands : fs.node? (n :: spot.dir) ≠ none := by simp [hnode]
    have hspotSlash : spot.slash = false := (slash_of_locate_parent hspot).trans hplain
    obtain ⟨dir, last, slash⟩ := spot
    subst hlast hspotSlash
    exact ⟨(n :: dir, .link target),
      nodeAt_name_iff.mpr ⟨rfl, hsound.short n dir hstands, hnode, nofun⟩⟩

theorem status_eq_ok_iff :
    fs.status p = .ok kind ↔ ∃ l node, fs.resolve p = .ok (l, node) ∧ node.kind = kind := by
  constructor
  · intro h
    obtain ⟨⟨l, node⟩, hnode, hkind⟩ := exists_of_bind_eq_ok h
    injection hkind with hkind
    exact ⟨l, node, hnode, hkind⟩
  · rintro ⟨l, node, hnode, rfl⟩
    rw [status, hnode]
    rfl

theorem entryStatus_eq_ok_iff :
    fs.entryStatus p = .ok kind
      ↔ ∃ l node, fs.resolveEntry p = .ok (l, node) ∧ node.kind = kind := by
  constructor
  · intro h
    obtain ⟨⟨l, node⟩, hnode, hkind⟩ := exists_of_bind_eq_ok h
    injection hkind with hkind
    exact ⟨l, node, hnode, hkind⟩
  · rintro ⟨l, node, hnode, rfl⟩
    rw [entryStatus, hnode]
    rfl

/-- An entry that is no link is what its path leads to. -/
theorem status_of_entryStatus (h : fs.entryStatus p = .ok kind) (hnolink : kind ≠ .link) :
    fs.status p = .ok kind := by
  obtain ⟨l, node, hnode, rfl⟩ := entryStatus_eq_ok_iff.mp h
  apply status_eq_ok_iff.mpr
  refine ⟨l, node, resolve_of_resolveEntry hnode ?_, rfl⟩
  rintro target rfl
  exact hnolink rfl

/-- Where there is no entry, a path leads to nothing. -/
theorem not_isOk_status (hsound : fs.Sound)
    (h : (fs.entryStatus p).isOk = false) : (fs.status p).isOk = false := by
  rcases hstatus : fs.status p with e | kind
  · rfl
  · exfalso
    obtain ⟨l, node, hnode, -⟩ := status_eq_ok_iff.mp hstatus
    obtain ⟨⟨l', entry⟩, hentry⟩ := exists_resolveEntry_of_resolve hsound hnode
    rw [entryStatus_eq_ok_iff.mpr ⟨l', entry, hentry, rfl⟩] at h
    exact nomatch h

end FileSystem

end LineShell
