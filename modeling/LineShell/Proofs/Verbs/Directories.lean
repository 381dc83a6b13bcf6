/-
Going somewhere, and looking around.

`cd` goes to one of two texts: what is left of the current directory without its last component, or
a normal form.  From a directory in normal form both have the same normal form, that of the current
directory with the operand behind it (`destination_spec`), and the text and its normal form lead to
the same place, links or not (`resolve_destination`).

So the steps of two operands can be taken as one (`destination_composes`).  The one step asks the
file system about nothing new, since the last directory is where the second step went, and it
needs no more room for its message than the two steps had for theirs.

What `ls` lists is what the operand means, while `cd` goes to what is left of the text.  Where there
are no links, the two are the same directory (`resolve_destination_of_linkFree`).
-/
import LineShell.Proofs.Files.Lexical
import LineShell.Proofs.Session.Room
import LineShell.Proofs.Session.Whereabouts
import LineShell.Proofs.Verbs.SinglePath

set_option autoImplicit false

namespace LineShell

open LineShell.Text

theorem FileSystem.isDirectory_iff {fs : FileSystem} {p : Path} :
    fs.isDirectory p = true ↔ ∃ l, fs.resolve p = .ok (l, .directory) := by
  have hkind : ∀ {node : Node}, node.kind = .directory → node = .directory := by
    intro node hnode
    cases node <;> first | rfl | exact nomatch hnode
  unfold isDirectory
  constructor
  · intro h
    split at h
    · rename_i kind hstatus
      obtain ⟨l, node, hnode, hdirectory⟩ := status_eq_ok_iff.mp hstatus
      rw [beq_iff_eq] at h
      rw [hkind (hdirectory.trans h)] at hnode
      exact ⟨l, hnode⟩
    · exact nomatch h
  · rintro ⟨l, hnode⟩
    rw [status_eq_ok_iff.mpr ⟨l, .directory, hnode, rfl⟩]
    rfl

theorem FileSystem.admitted_of_resolve {fs : FileSystem} {p : Path} {found : Location × Node}
    (h : fs.resolve p = .ok found) : p.Admitted := by
  obtain ⟨spot, hspot, -⟩ := exists_of_bind_eq_ok h
  exact (locate_eq_ok_iff.mp hspot).1

namespace Verbs

/-! ## One step -/

section Step

variable {w u : World} {env : Environment} {operand : Option String} {dir : Path}

/-- What `cd` prints when it has gone somewhere. -/
def announcement (dir : Path) : Bytes :=
  Action.lineBytes ["Changed directory to: ", dir.display]

/-- What becomes of a world when `cd` goes to a directory. -/
structure Went (w : World) (dir : Path) (u : World) : Prop where
  there : w.files.isDirectory dir = true
  spends : ({ w with env := { w.env with currentDir := dir } } : World).Spends
    (announcement dir).length u

theorem Went.env_eq (h : Went w dir u) : u.env = { w.env with currentDir := dir } :=
  h.spends.env_eq

theorem Went.files_eq (h : Went w dir u) : u.files = w.files := h.spends.files_eq

theorem Went.fileless (h : Went w dir u) : u.output.IsFileless := h.spends.fileless

/-- The message has taken its room. -/
theorem Went.room {n : Nat} (h : Went w dir u) (hleft : u.Affords n) :
    w.Affords ((announcement dir).length + n) :=
  have hbefore := (h.spends.left n).mp hleft
  ⟨hbefore.fileless, hbefore.room⟩

/-- A `cd` that ends well has gone somewhere, and there was room to say so. -/
theorem went_of_done (hout : w.output.IsFileless)
    (h : (changeDirectory operand).run w = (.done 0, u)) :
    ∃ dir, destination w.env operand = some dir ∧ Went w dir u
      ∧ w.Affords (announcement dir).length := by
  rcases run_changeDirectory_cases operand w with ⟨failure, hfailed⟩ | ⟨dir, hdir, hthere, -⟩
  · rw [h] at hfailed
    exact nomatch hfailed
  · rw [run_changeDirectory_of_there hdir hthere] at h
    obtain ⟨⟨⟩, v, hprint, hend⟩ := Action.exists_of_run_bind_eq_done h
    cases hend
    have hwent : Went w dir u := ⟨hthere, Action.spends_of_run_printLine hout hprint⟩
    exact ⟨dir, hdir, hwent, hout, hwent.spends.afforded.room⟩

/-- Where there is a directory and room for the message, `cd` ends well. -/
theorem exists_went (hdir : destination w.env operand = some dir)
    (hthere : w.files.isDirectory dir = true)
    (hroom : w.Affords (announcement dir).length) :
    ∃ u, (changeDirectory operand).run w = (.done 0, u) ∧ Went w dir u := by
  have hroomThere : ({ w with env := { w.env with currentDir := dir } } : World).Affords
      (announcement dir).length := ⟨hroom.fileless, hroom.room⟩
  obtain ⟨u, hprint, hspends⟩ := Action.exists_run_printLine hroomThere
  refine ⟨u, ?_, hthere, hspends⟩
  rw [run_changeDirectory_of_there hdir hthere, Action.run_bind, hprint]
  rfl

theorem length_announcement (dir : Path) :
    (announcement dir).length
      = (encode "Changed directory to: ").length + (encode dir.display).length + 1 := by
  simp [announcement, Action.lineBytes, Nat.add_assoc]

/-- From a directory in normal form, `cd` goes to a directory in normal form: the one that the
operand spells behind the current one. -/
theorem destination_spec {shown : String} (h : env.currentDir.IsNormal)
    (hdir : destination env (some shown) = some dir) :
    dir.IsNormal ∧ dir.normalize = (env.locate shown).normalize := by
  have habs := Path.isAbsolute_join h.absolute (Path.ofString shown)
  unfold destination at hdir
  simp only at hdir
  split at hdir
  · rename_i hup
    injection hdir with hdir
    rw [← hdir, hup]
    exact ⟨h.parent, Path.normalize_parent h.absolute h.shape false⟩
  · injection hdir with hdir
    rw [← hdir]
    exact ⟨.normalize habs, Path.normalize_normalize _⟩

/-- Where `cd` goes is where its normal form leads. -/
theorem resolve_destination {fs : FileSystem} {shown : String} (h : env.currentDir.IsNormal)
    (hdir : destination env (some shown) = some dir) (hadmitted : dir.Admitted) :
    fs.resolve dir.normalize = fs.resolve dir := by
  unfold destination at hdir
  simp only at hdir
  split at hdir
  · injection hdir with hdir
    rw [← hdir] at hadmitted ⊢
    exact FileSystem.resolve_parent h hadmitted
  · injection hdir with hdir
    rw [← hdir, Path.normalize_normalize]

theorem isDirectory_destination {fs : FileSystem} {shown : String} (h : env.currentDir.IsNormal)
    (hdir : destination env (some shown) = some dir) (hthere : fs.isDirectory dir = true) :
    fs.isDirectory dir.normalize = true := by
  obtain ⟨l, hl⟩ := FileSystem.isDirectory_iff.mp hthere
  rw [FileSystem.isDirectory_iff,
    resolve_destination h hdir (FileSystem.admitted_of_resolve hl)]
  exact ⟨l, hl⟩

end Step

/-! ## Two steps -/

/-- An operand that holds a slash is put behind the current directory. -/
theorem destination_append_slash (env : Environment) (a b : String) :
    destination env (some (a ++ "/" ++ b)) = some (env.locate (a ++ "/" ++ b)).normalize := by
  have hslash : a ++ "/" ++ b ≠ ".." := by
    intro heq
    have hmem : '/' ∈ (a ++ "/" ++ b).toList := by simp
    rw [heq] at hmem
    exact absurd hmem (by decide)
  rw [destination]
  simp only [if_neg hslash]

theorem ofString_append_slash (a b : String) :
    Path.ofString (a ++ "/" ++ b) = ⟨encode a ++ Path.slash :: encode b⟩ := by
  rw [Path.ofString, encode_append, encode_append, List.append_assoc]
  rfl

theorem encode_ne_nil {a : String} (h : a ≠ "") : encode a ≠ [] := by
  obtain ⟨c, cs, hchars⟩ := List.exists_cons_of_ne_nil
    fun hnil => h (String.toList_eq_nil_iff.mp hnil)
  intro hencode
  rw [encode, hchars, List.flatMap_cons, List.append_eq_nil_iff] at hencode
  have hlength := congrArg List.length hencode.1
  rw [String.length_utf8EncodeChar] at hlength
  exact absurd hlength (Nat.ne_of_gt c.utf8Size_pos)

/-- The two operands, one behind the other, lead to the normal form of where the second of them
leads from where the first one does. -/
theorem destination_composes {env : Environment} {a b : String} {one two : Path}
    (h : env.currentDir.IsNormal) (ha : a ≠ "") (hb : (Path.ofString b).isAbsolute = false)
    (hone : destination env (some a) = some one)
    (htwo : destination { env with currentDir := one } (some b) = some two) :
    destination env (some (a ++ "/" ++ b)) = some two.normalize := by
  obtain ⟨hnormal, hspelledOne⟩ := destination_spec h hone
  obtain ⟨-, hspelledTwo⟩ := destination_spec hnormal htwo
  have hstep : (((env.locate a).join (Path.ofString b)).normalize)
      = (one.join (Path.ofString b)).normalize := by
    rw [Path.normalize_join_normalize hb, ← hspelledOne, ← Path.normalize_join_normalize hb]
  rw [destination_append_slash, Environment.locate, Environment.resolve, ofString_append_slash,
    Path.normalize_join_append (encode_ne_nil ha) hb, hspelledTwo]
  exact congrArg some hstep

/-- What no way up and no normal form leaves, `cd` does not leave. -/
theorem destination_stable {P : Path → Prop} (hP : Path.Stable P) {env : Environment}
    {shown : String} {dir : Path} (h : P env.currentDir)
    (hdir : destination env (some shown) = some dir) : P dir := by
  -- the home directory plays no part where there is an operand
  have hwithout : destination { env with home := none } (some shown) = some dir := hdir
  exact @Path.Stable.destination P hP { env with home := none } (some shown) dir h nofun hwithout

/-- **Changing the directory composes.**  Whether something is put behind a path or behind its
normal form, the normal form is the same.  So where `cd a` ends well and then `cd b` does, `cd a/b`
ends well too and goes to the same directory, which is then spelled in normal form. -/
theorem cd_composes :
    (∀ p q : Path, q.isAbsolute = false →
      (p.join q).normalize = (p.normalize.join q).normalize)
    ∧ ∀ {w u v : World} {a b : String} {first second both later later' later'' : List String},
      w.env.currentDir.IsNormal → w.output.IsFileless → a ≠ "" →
      (Path.ofString b).isAbsolute = false →
      Lists first (a :: later) → Lists second (b :: later') →
      Lists both ((a ++ "/" ++ b) :: later'') →
      (cd.handler ("cd" :: first)).run w = (.done 0, u) →
      (cd.handler ("cd" :: second)).run u = (.done 0, v) →
      ∃ t, (cd.handler ("cd" :: both)).run w = (.done 0, t)
        ∧ t.env = { v.env with currentDir := v.env.currentDir.normalize }
        ∧ t.env.currentDir.components = v.env.currentDir.components
        ∧ (w.env.currentDir.normalize = w.env.currentDir → t.env = v.env)
        ∧ t.files = v.files := by
  refine ⟨fun p q hrel => Path.normalize_join_normalize hrel, ?_⟩
  intro w u v a b first second both later later' later'' hcurrent hout ha hb hfirst hsecond hboth
    hrunFirst hrunSecond
  rw [Builtin.handler_of_lists rfl hfirst] at hrunFirst
  rw [Builtin.handler_of_lists rfl hsecond] at hrunSecond
  rw [Builtin.handler_of_lists rfl hboth]
  have hdone : (0 : Int) ≠ 1 := by decide
  obtain ⟨one, hone, hwentOne, -⟩ :=
    went_of_done hout (Builtin.run_of_run_reporting hrunFirst hdone)
  obtain ⟨two, htwo, hwentTwo, hroomTwo⟩ :=
    went_of_done hwentOne.fileless (Builtin.run_of_run_reporting hrunSecond hdone)
  rw [hwentOne.env_eq] at htwo
  have hnormalOne := (destination_spec hcurrent hone).1
  have hnormalTwo : two.IsNormal := (destination_spec hnormalOne htwo).1
  have hdestination := destination_composes hcurrent ha hb hone htwo
  -- the normal form leads where the second step led
  have hthere : w.files.isDirectory two.normalize = true := by
    apply isDirectory_destination hnormalOne htwo
    rw [← hwentOne.files_eq]
    exact hwentTwo.there
  -- and its message is no longer than the second one was
  have hroom : w.Affords (announcement two.normalize).length := by
    apply (hwentOne.room hroomTwo).mono
    have hshorter := (Path.abridges_normalize hnormalTwo.absolute).length_display
    rw [length_announcement, length_announcement, length_announcement]
    omega
  obtain ⟨t, hrun, hwent⟩ := exists_went hdestination hthere hroom
  have henv : v.env = { w.env with currentDir := two } := by
    rw [hwentTwo.env_eq, hwentOne.env_eq]
  refine ⟨t, Builtin.run_reporting_of_done hrun, ?_, ?_, ?_, ?_⟩
  · rw [hwent.env_eq, henv]
  · rw [hwent.env_eq, henv]
    exact hnormalTwo.components
  · intro hspelled
    have hstableOne :=
      destination_stable Path.stable_normalize_eq ⟨hcurrent.absolute, hspelled⟩ hone
    have hstableTwo := destination_stable Path.stable_normalize_eq hstableOne htwo
    rw [hwent.env_eq, henv, hstableTwo.2]
  · rw [hwent.files_eq, hwentTwo.files_eq, hwentOne.files_eq]

/-- Up, and down two directories; and a relative path that is climbed past its start. -/
theorem cd_composes_up :
    (∃ t, (cd.handler ["cd", "../a/b"]).run (Session.nested "/r/a").world = (.done 0, t)
      ∧ t.env.currentDir = Path.ofString "/r/a/b")
    ∧ ((Path.ofString "x/../..").join (Path.ofString "b")).normalize = Path.ofString "../b" := by
  have hnormal : (Path.ofString "/r/a").IsNormal := ⟨by decide +kernel, by decide +kernel⟩
  have hlists : ∀ word ∈ ["..", "a/b", "../a/b"], Lists [word] [word] := by
    intro word hword
    simp only [List.mem_cons, List.not_mem_nil, or_false] at hword
    rcases hword with rfl | rfl | rfl <;> exact ⟨by decide +kernel, by decide +kernel⟩
  constructor
  · obtain ⟨t, hrun, -, -, hsame, -⟩ := cd_composes.2 hnormal (w := (Session.nested "/r/a").world)
      nofun (by decide) (by decide) (hlists ".." (by simp)) (hlists "a/b" (by simp))
      (hlists "../a/b" (by simp)) (Prod.ext (by decide +kernel) rfl)
      (Prod.ext (by decide +kernel) rfl)
    refine ⟨t, hrun, ?_⟩
    rw [hsame (by decide +kernel)]
    decide +kernel
  · rw [cd_composes.1 _ _ (by decide)]
    decide +kernel

/-! ## Looking around -/

section Listing

variable {w u : World} {dir : Path} {l : Location} {all reversed : Bool} {shown : String}

/-- The line above a listing. -/
def heading (dir : Path) : Bytes := encode ("Listing directory: " ++ dir.display) ++ [newline]

/-- Names, one on a line. -/
def entryLines (names : List String) : Bytes := names.flatMap fun name => encode name ++ [newline]

/-- Where everything is taken, a line is printed, and nothing else happens. -/
theorem run_printLine_told (htakes : w.Takes) (pieces : List String) {line : String}
    (hline : (pieces.map encode).flatten = encode line) :
    (Action.printLine pieces).run w = (.done (), w.told line)
      ∧ (Action.printLine pieces).printed w = encode line ++ [newline] := by
  refine ⟨htakes.run_printLine pieces hline, ?_⟩
  rw [Action.printLine, Action.printed_printAll htakes, List.flatten_append, hline]
  rfl

theorem run_printNames (htakes : w.Takes) (names : List String) :
    ∃ us, (printNames names).run w = (.done (), w.hear us)
      ∧ (printNames names).printed w = entryLines names := by
  induction names generalizing w with
  | nil => exact ⟨[], by rw [World.hear_nil]; rfl, rfl⟩
  | cons name names ih =>
    obtain ⟨hline, hprinted⟩ := run_printLine_told htakes [name] (List.flatMap_singleton encode name)
    obtain ⟨us, hrest, hprintedRest⟩ := ih (htakes.hear [.printed (encode name ++ [newline])])
    refine ⟨.printed (encode name ++ [newline]) :: us, ?_, ?_⟩
    · rw [printNames, Action.run_bind, hline]
      simp only
      rw [World.told, hrest, World.hear_hear]
      rfl
    · rw [printNames, Action.printed_bind, hprinted, hline]
      simp only
      rw [World.told, hprintedRest]
      rfl

theorem run_list (h : w.files.resolve dir = .ok (l, .directory)) :
    (Action.call (.list dir)).run w = (.done (.ok (w.files.names l)), w) := by
  have hanswer : w.answer (.files (.list dir)) = (.ok (w.files.names l), w) := by
    show (w.files.list dir, w) = _
    rw [FileSystem.list, h]
    rfl
  rw [Action.call, Action.run_ask, hanswer]

/-- A directory that can be found is listed. -/
theorem run_listDirectory (htakes : w.Takes) (h : w.files.resolve dir = .ok (l, .directory)) :
    ∃ us, (listDirectory shown dir all reversed).run w = (.done 0, w.hear us)
      ∧ (listDirectory shown dir all reversed).printed w
        = heading dir ++ entryLines (listing (w.files.names l) all reversed) := by
  have hthere : w.files.isDirectory dir = true := FileSystem.isDirectory_iff.mpr ⟨l, h⟩
  obtain ⟨hline, hprinted⟩ := @run_printLine_told w htakes ["Listing directory: ", dir.display]
    ("Listing directory: " ++ dir.display) (by simp [encode_append])
  obtain ⟨us, hnames, hprintedNames⟩ := run_printNames (htakes.hear [.printed (heading dir)])
    (listing (w.files.names l) all reversed)
  refine ⟨.printed (heading dir) :: us, ?_, ?_⟩
  · rw [listDirectory, Action.run_bind, Action.run_isDirectory, hthere]
    simp only [if_true]
    rw [Action.run_bind, run_list h]
    simp only
    rw [Action.run_bind, hline]
    simp only
    rw [Action.run_bind, World.told, ← heading, hnames, World.hear_hear]
    rfl
  · have hsilent : (Action.isDirectory dir).printed w = [] :=
      Action.Silent.composable.isDirectory dir w
    have hlist : (Action.call (.list dir)).printed w = [] := Action.Silent.composable.call _ w
    rw [listDirectory, Action.printed_bind, hsilent, Action.run_isDirectory, hthere]
    simp only [if_true]
    rw [Action.printed_bind, hlist, run_list h]
    simp only
    rw [Action.printed_bind, hprinted, hline]
    simp only
    rw [Action.printed_bind, World.told, ← heading, hprintedNames, hnames]
    simp

/-- Only a directory is listed well. -/
theorem resolve_of_listed (h : (listDirectory shown dir all reversed).run w = (.done 0, u)) :
    ∃ l, w.files.resolve dir = .ok (l, .directory) := by
  rw [← FileSystem.isDirectory_iff]
  rw [listDirectory, Action.run_bind, Action.run_isDirectory] at h
  cases hthere : w.files.isDirectory dir with
  | true => rfl
  | false =>
    rw [hthere] at h
    exact nomatch h

/-- Where there are no links, `cd` goes to what its operand means. -/
theorem resolve_destination_of_linkFree {fs : FileSystem} {env : Environment} {node : Node}
    (hfree : fs.LinkFree) (hcurrent : env.currentDir.IsNormal)
    (hdir : destination env (some shown) = some dir)
    (h : fs.resolve (env.locate shown) = .ok (l, node)) : fs.resolve dir = .ok (l, node) := by
  have habs := Path.isAbsolute_join hcurrent.absolute (Path.ofString shown)
  have hadmitted := FileSystem.admitted_of_resolve h
  have hshort : dir.Admitted := by
    unfold destination at hdir
    simp only at hdir
    split at hdir
    · -- the current directory stands in front of the operand
      rename_i hup
      injection hdir with hdir
      obtain ⟨rest, hrest⟩ := Path.exists_bytes_of_isAbsolute hcurrent.absolute
      have hbefore : env.currentDir.bytes.Sublist (env.locate shown).bytes := by
        rw [hup]
        show env.currentDir.bytes.Sublist (env.currentDir.join (Path.ofString "..")).bytes
        rw [Path.join, if_neg (by decide)]
        split <;> exact List.sublist_append_left _ _
      rw [← hdir]
      apply (hadmitted.of_sublist hbefore ?_).of_abridges (Path.abridges_parent hcurrent.absolute)
      rw [hrest]
      exact List.cons_ne_nil _ _
    · injection hdir with hdir
      rw [← hdir]
      exact hadmitted.of_abridges (Path.abridges_normalize habs)
  rw [← resolve_destination hcurrent hdir hshort, (destination_spec hcurrent hdir).2]
  exact FileSystem.resolve_normalize hfree habs h

theorem exists_destination (env : Environment) (shown : String) :
    ∃ dir, destination env (some shown) = some dir := by
  unfold destination
  simp only
  split
  · exact ⟨_, rfl⟩
  · exact ⟨_, rfl⟩

/-- **Normal forms are sound where there are no links.**  What an absolute path means, its normal
form means.  So where `ls` can list what an operand means, `cd` can go there, and lists the same
entries from there. -/
theorem lists_after_cd :
    (∀ {fs : FileSystem} {p : Path} {l : Location} {node : Node}, fs.LinkFree →
      p.isAbsolute = true → fs.resolve p = .ok (l, node) → fs.resolve p.normalize = .ok (l, node))
    ∧ ∀ {w listed : World} {shown : String} {words later : List String},
      w.files.LinkFree → w.env.currentDir.IsNormal → w.Takes → Lists words (shown :: later) →
      (ls.handler ("ls" :: words)).run w = (.done 0, listed) →
      ∃ l moved relisted, w.files.resolve (w.env.locate shown) = .ok (l, .directory)
        ∧ (cd.handler ("cd" :: words)).run listed = (.done 0, moved)
        ∧ (ls.handler ["ls"]).run moved = (.done 0, relisted)
        ∧ (ls.handler ("ls" :: words)).printed w
          = heading (w.env.locate shown) ++ entryLines (listing (w.files.names l) false false)
        ∧ (ls.handler ["ls"]).printed moved
          = heading moved.env.currentDir ++ entryLines (listing (w.files.names l) false false)
        ∧ relisted.files = w.files := by
  refine ⟨fun hfree habs h => FileSystem.resolve_normalize hfree habs h, ?_⟩
  intro w listed shown words later hfree hcurrent htakes hlists hrun
  have hplain : Lists [] [] := ⟨rfl, rfl⟩
  rw [Builtin.handler_of_lists rfl hlists] at hrun ⊢
  rw [Builtin.handler_of_lists rfl hlists, Builtin.handler_of_lists rfl hplain]
  have hbody : (listDirectory shown (w.env.locate shown) false false).run w = (.done 0, listed) :=
    Builtin.run_of_run_reporting hrun (by decide)
  obtain ⟨l, hl⟩ := resolve_of_listed hbody
  obtain ⟨us, hheard, hprinted⟩ := @run_listDirectory w _ l false false shown htakes hl
  have hlisted : listed = w.hear us := by
    rw [hbody] at hheard
    exact congrArg Prod.snd hheard
  have htakesListed : listed.Takes := by
    rw [hlisted]
    exact htakes.hear us
  have hfiles : listed.files = w.files := by rw [hlisted]; rfl
  have henv : listed.env = w.env := by rw [hlisted]; rfl
  -- to the same directory
  obtain ⟨dir, hdir⟩ := exists_destination w.env shown
  have hdirectory := resolve_destination_of_linkFree hfree hcurrent hdir hl
  rw [← hfiles] at hdirectory
  rw [← henv] at hdir
  obtain ⟨moved, hmoved, hwent⟩ := exists_went hdir
    (FileSystem.isDirectory_iff.mpr ⟨l, hdirectory⟩)
    (World.affords_of_room htakesListed.fileless htakesListed.room _)
  have htakesMoved : moved.Takes := by
    have htakesBehind := Action.run_takes (changeDirectory (some shown)) htakesListed
    rwa [hmoved] at htakesBehind
  have hfilesMoved := hwent.files_eq
  have hthere : moved.files.resolve moved.env.currentDir = .ok (l, .directory) := by
    rw [hfilesMoved, hwent.env_eq]
    exact hdirectory
  -- which is listed again
  obtain ⟨vs, hagain, hprintedAgain⟩ :=
    @run_listDirectory moved _ l false false "." htakesMoved hthere
  refine ⟨l, moved, moved.hear vs, hl, Builtin.run_reporting_of_done hmoved,
    Builtin.run_reporting_of_done hagain, ?_, ?_, ?_⟩
  · rw [Builtin.printed_reporting]
    exact hprinted
  · rw [Builtin.printed_reporting, ← hfiles, ← hfilesMoved]
    exact hprintedAgain
  · exact hfilesMoved.trans hfiles

/-- A detour through the directory above. -/
theorem lists_after_cd_detour :
    (Session.nested "/r/a").world.files.resolve (Path.ofString "/r/a/.././a/b/").normalize
        = .ok ([encode "b", encode "a", encode "r"], .directory)
    ∧ ∃ moved relisted,
      (cd.handler ["cd", ".././a/"]).run
          ((ls.handler ["ls", ".././a/"]).run (Session.nested "/r/a").world).2 = (.done 0, moved)
        ∧ (ls.handler ["ls"]).run moved = (.done 0, relisted)
        ∧ (ls.handler ["ls"]).printed moved
          = heading moved.env.currentDir ++ entryLines ["b"] := by
  have hfree : (Session.nested "/r/a").world.files.LinkFree :=
    FileSystem.linkFree_of_entries (by decide +kernel)
  have hnormal : (Path.ofString "/r/a").IsNormal := ⟨by decide +kernel, by decide +kernel⟩
  have hlists : Lists [".././a/"] [".././a/"] := ⟨by decide +kernel, by decide +kernel⟩
  refine ⟨lists_after_cd.1 hfree (by decide +kernel) (by decide +kernel), ?_⟩
  obtain ⟨l, moved, relisted, hl, hmoved, hagain, -, hprinted, -⟩ :=
    lists_after_cd.2 hfree hnormal ⟨nofun, rfl⟩ hlists (Prod.ext (by decide +kernel) rfl)
  have hfound : (Session.nested "/r/a").world.files.resolve
      ((Session.nested "/r/a").world.env.locate ".././a/")
        = .ok ([encode "a", encode "r"], .directory) := by decide +kernel
  rw [hfound] at hl
  injection hl with hl
  injection hl with hl
  rw [← hl] at hprinted
  have hentries : listing ((Session.nested "/r/a").world.files.names [encode "a", encode "r"])
      false false = ["b"] := by decide +kernel
  rw [hentries] at hprinted
  exact ⟨moved, relisted, hmoved, hagain, hprinted⟩

end Listing

end Verbs

end LineShell
