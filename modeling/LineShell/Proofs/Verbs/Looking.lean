/-
Commands that only look.

A command that only looks asks for the environment, for what paths lead to, for the names in a
directory and for what files hold, and apart from that it only makes itself heard.  The replies are
told by the environment and the tree.  If one regular file is never read, they are told by the
tree without what that file holds, which is a `View`.  Because the replies can be read off a view
(`Request.reply?`), looking at a view is a property of the command by itself (`Action.Looks`), and is
checked part by part with no world in sight.

In every world that a view shows, such a command ends alike and prints the same
(`Action.Looks.congr`), and it leaves that world as it was but for what was said
(`Action.Looks.run`).
-/
import LineShell.Proofs.Session.Alike
import LineShell.Proofs.Session.Captured
import LineShell.Proofs.Verbs.Arguments

set_option autoImplicit false

namespace LineShell

open LineShell.Text

/-! ## Views -/

/-- What can be seen without reading one regular file: the environment, and a tree that has the file
in it. What the tree has in the file is not part of what is seen. -/
structure View where
  env : Environment
  files : FileSystem
  hidden : FileId
  known : files.Knows hidden

/-- A world that looks like the view, and in which whatever is said is taken. -/
structure View.Shows (v : View) (w : World) : Prop where
  env_eq : w.env = v.env
  files_eq : ∃ d, w.files = v.files.withData v.hidden d
  output_eq : w.output = .console
  room : w.console.room = none
  errors_room : w.errors.room = none

/-- The reply to a call that only looks, and does not read the hidden file. -/
def FileCall.reply? (fs : FileSystem) (hidden : FileId) : (call : FileCall) → Option call.Reply
  | .status p => some (fs.status p)
  | .entryStatus p => some (fs.entryStatus p)
  | .list p => some (fs.list p)
  | .read p => if fs.reads p hidden then none else some (fs.read p)
  | _ => none

/-- The reply to a request that only looks at the view or says something. -/
def Request.reply? (v : View) : (r : Request) → Option r.Reply
  | .print _ => some (.ok ())
  | .complain _ => some (.ok ())
  | .environment => some v.env
  | .files call => call.reply? v.files v.hidden
  | _ => none

/-- A command that only looks at a view, as long as it gets the replies of the view. -/
def Action.Looks {α : Type} (v : View) : Action α → Prop
  | .request r next => ∃ reply, r.reply? v = some reply ∧ (next reply).Looks v
  | _ => True

/-! ## Worlds that a view shows -/

theorem FileSystem.reads_withData {fs : FileSystem} {id : FileId} {d : FileData} (p : Path)
    (other : FileId) : (fs.withData id d).reads p other = fs.reads p other := by
  rw [reads, resolve_withData]
  rfl

/-- A call that only looks changes nothing, and it does not touch the hidden file, wherever the file
stands and whatever it holds. -/
theorem FileCall.perform_of_reply? {fs : FileSystem} {hidden : FileId} {call : FileCall}
    {reply : call.Reply} (h : call.reply? fs hidden = some reply) :
    fs.perform call = (reply, fs)
      ∧ ∀ l d, call.disturbs (fs.withData hidden d) l hidden = false := by
  cases call with
  | status p =>
    injection h with h
    exact ⟨congrArg (·, fs) h, fun _ _ => rfl⟩
  | entryStatus p =>
    injection h with h
    exact ⟨congrArg (·, fs) h, fun _ _ => rfl⟩
  | list p =>
    injection h with h
    exact ⟨congrArg (·, fs) h, fun _ _ => rfl⟩
  | read p =>
    simp only [reply?] at h
    split at h
    · cases h
    · rename_i hreads
      injection h with h
      refine ⟨congrArg (·, fs) h, fun _ d => ?_⟩
      rw [disturbs, FileSystem.reads_withData]
      exact Bool.eq_false_iff.mpr hreads
  | _ => cases h

namespace View.Shows

variable {v : View} {w u : World} {r : Request} {reply : r.Reply}

theorem takes (h : v.Shows w) : w.Takes :=
  ⟨by rw [h.output_eq]; exact fun sink => nofun, h.room⟩

/-- Saying something changes nothing that a view shows. -/
theorem of_alike (h : v.Shows w) (hu : w.Alike u) (hroom : u.console.room = none) :
    v.Shows u where
  env_eq := hu.agrees.env_eq ▸ h.env_eq
  files_eq := hu.agrees.files_eq ▸ h.files_eq
  output_eq := hu.output_eq.trans h.output_eq
  room := hroom
  errors_room := hu.symm.room

/-- A world answers as the view that shows it does. -/
theorem answer (h : v.Shows w) (hr : r.reply? v = some reply) :
    (w.answer r).1 = reply ∧ w.Alike (w.answer r).2 := by
  cases r with
  | print data =>
    injection hr with hr
    have hprint : w.print data = (.ok (), { w with console := w.console.append data }) := by
      rw [World.print, h.output_eq]
      simp only [Console.write_eq_append h.room]
    show (w.print data).1 = reply ∧ w.Alike (w.print data).2
    rw [hprint]
    exact ⟨hr, h.errors_room, _, w.errors, h.errors_room, rfl⟩
  | complain data =>
    injection hr with hr
    obtain ⟨htaken, halike⟩ := World.Alike.complain h.errors_room data
    exact ⟨htaken.trans hr, halike⟩
  | environment =>
    injection hr with hr
    exact ⟨h.env_eq.trans hr, .refl h.errors_room⟩
  | files call =>
    obtain ⟨d, hfiles⟩ := h.files_eq
    obtain ⟨hperform, hpasses⟩ := FileCall.perform_of_reply? hr
    have hself := hpasses [] (v.files.data v.hidden)
    rw [FileSystem.withData_data] at hself
    have hanswer : w.files.perform call = (reply, w.files) := by
      rw [hfiles, FileSystem.perform_withData v.known hself d, hperform]
    show (w.files.perform call).1 = reply ∧ w.Alike { w with files := (w.files.perform call).2 }
    rw [hanswer]
    exact ⟨rfl, .refl h.errors_room⟩
  | _ => cases hr

theorem behind (h : v.Shows w) (hr : r.reply? v = some reply) : v.Shows (w.answer r).2 :=
  h.of_alike (h.answer hr).2 (World.room_answer h.room r)

/-- A request that only looks passes by the hidden file, and asks nobody. -/
theorem passes (h : v.Shows w) (hr : r.reply? v = some reply) (l : Location) :
    w.disturbs l v.hidden r = []
      ∧ (r.uttered (w.answer r).1 w.respondent).filterMap Utterance.question? = [] := by
  refine ⟨?_, (World.respondent_answer fun question hquestion => ?_).2.2⟩
  · cases r with
    | files call =>
      obtain ⟨d, hfiles⟩ := h.files_eq
      have hpasses := (FileCall.perform_of_reply? hr).2 l d
      rw [World.disturbs, hfiles, if_neg (by rw [hpasses]; exact Bool.false_ne_true)]
    | _ => rfl
  · subst hquestion
    cases hr

end View.Shows

/-! ## Runs -/

namespace Action.Looks

variable {α β : Type} {v : View} {w u : World} {a : Action α}

/-- A command that only looks leaves the world as it was but for what was said, does not touch the
hidden file and asks nobody. -/
theorem run (ha : a.Looks v) (hw : v.Shows w) :
    w.Alike (a.run w).2 ∧ (∀ l, a.disturbances l v.hidden w = [])
      ∧ (a.uttered w).filterMap Utterance.question? = [] := by
  induction a generalizing w with
  | done a => exact ⟨.refl hw.errors_room, fun _ => rfl, rfl⟩
  | fail failure => exact ⟨.refl hw.errors_room, fun _ => rfl, rfl⟩
  | panic message => exact ⟨.refl hw.errors_room, fun _ => rfl, rfl⟩
  | request r next ih =>
    obtain ⟨reply, hr, hnext⟩ := ha
    obtain ⟨hreply, halike⟩ := hw.answer hr
    have hstep := hw.passes hr
    rw [← hreply] at hnext
    obtain ⟨hafter, hpasses, hasks⟩ := ih _ hnext (hw.behind hr)
    refine ⟨halike.trans hafter, fun l => ?_, ?_⟩
    · exact List.append_eq_nil_iff.mpr ⟨(hstep l).1, hpasses l⟩
    · rw [uttered, List.filterMap_append]
      exact List.append_eq_nil_iff.mpr ⟨(hstep []).2, hasks⟩

/-- A command that only looks does the same in all worlds that the view shows. -/
theorem congr (ha : a.Looks v) (hw : v.Shows w) (hu : v.Shows u) :
    (a.run w).1 = (a.run u).1 ∧ a.printed w = a.printed u := by
  induction a generalizing w u with
  | done a => exact ⟨rfl, rfl⟩
  | fail failure => exact ⟨rfl, rfl⟩
  | panic message => exact ⟨rfl, rfl⟩
  | request r next ih =>
    obtain ⟨reply, hr, hnext⟩ := ha
    have hreply := (hw.answer hr).1
    have hreplyThere := (hu.answer hr).1
    obtain ⟨hended, hprinted⟩ := ih reply hnext (hw.behind hr) (hu.behind hr)
    rw [run_request, run_request, printed_request, printed_request, hreply, hreplyThere]
    exact ⟨hended, congrArg (r.taken reply ++ ·) hprinted⟩

/-! ## The parts -/

theorem done (a : α) : (Action.done a).Looks v := trivial

theorem pure (a : α) : (Pure.pure a : Action α).Looks v := trivial

theorem fail (failure : Failure) : (Action.fail failure : Action α).Looks v := trivial

theorem bind {m : Action α} {f : α → Action β} (hm : m.Looks v) (hf : ∀ a, (f a).Looks v) :
    (m >>= f).Looks v := by
  induction m with
  | done a => exact hf a
  | fail failure => trivial
  | panic message => trivial
  | request r next ih =>
    obtain ⟨reply, hr, hnext⟩ := hm
    exact ⟨reply, hr, ih reply hnext⟩

theorem attempt {m : Action α} (hm : m.Looks v) : m.attempt.Looks v := by
  induction m with
  | done a => trivial
  | fail failure => trivial
  | panic message => trivial
  | request r next ih =>
    obtain ⟨reply, hr, hnext⟩ := hm
    exact ⟨reply, hr, ih reply hnext⟩

theorem print (data : Bytes) : (Action.print data).Looks v := ⟨.ok (), rfl, trivial⟩

theorem complain (message : String) : (Action.complain message).Looks v := ⟨.ok (), rfl, trivial⟩

theorem environment : (Action.ask .environment).Looks v := ⟨_, rfl, trivial⟩

theorem printing : Printing fun _ a => a.Looks v := ⟨done, bind, print⟩

theorem printLine (pieces : List String) : (Action.printLine pieces).Looks v :=
  printing.printLine pieces

theorem isDirectory (p : Path) : (Action.isDirectory p).Looks v := by
  refine ⟨_, rfl, ?_⟩
  rcases v.files.status p with e | kind <;> trivial

/-! ## The verbs -/

theorem listDirectory (shown : String) (dir : Path) (all reversed : Bool) :
    (Verbs.listDirectory shown dir all reversed).Looks v := by
  refine (isDirectory dir).bind fun directory => ?_
  rcases directory with _ | _
  · exact fail _
  · refine ⟨_, rfl, ?_⟩
    rcases v.files.list dir with e | names
    · exact fail _
    · exact (printLine _).bind fun _ => (printing.printNames _).bind fun _ => pure 0

theorem ls (args : Arguments) : (Verbs.ls.body args).Looks v := by
  apply environment.bind
  intro env
  split
  · exact listDirectory _ _ _ _
  · exact listDirectory _ _ _ _

theorem pwd (args : Arguments) : (Verbs.pwd.body args).Looks v :=
  ⟨_, rfl, (printLine _).bind fun _ => pure 0⟩

theorem help (args : Arguments) : (Verbs.help.body args).Looks v :=
  (printLine _).bind fun _ => pure 0

theorem printFile {operand : String}
    (h : v.files.reads (v.env.locate operand) v.hidden = false) :
    (Verbs.printFile operand).Looks v := by
  have hread : FileCall.reply? v.files v.hidden (.read (v.env.locate operand))
      = some (v.files.read (v.env.locate operand)) := by
    rw [FileCall.reply?, h]
    rfl
  refine ⟨_, rfl, _, hread, ?_⟩
  rcases v.files.read (v.env.locate operand) with e | bytes
  · exact (complain _).bind fun _ => pure 1
  · exact (printing.printText bytes).bind fun _ => pure 0

theorem printFiles {operands : List String} (status : Int)
    (h : ∀ operand ∈ operands, v.files.reads (v.env.locate operand) v.hidden = false) :
    (Verbs.printFiles status operands).Looks v := by
  induction operands generalizing status with
  | nil => exact pure status
  | cons operand operands ih =>
    obtain ⟨hfirst, hrest⟩ := List.forall_mem_cons.mp h
    exact (printFile hfirst).bind fun _ => ih _ hrest

theorem cat {args : Arguments} (hsome : args.operands ≠ [])
    (h : ∀ operand ∈ args.operands, v.files.reads (v.env.locate operand) v.hidden = false) :
    (Verbs.cat.body args).Looks v := by
  show Looks v (if args.operands.isEmpty = true then _ else Verbs.printFiles 0 args.operands)
  rw [if_neg (by simpa using hsome)]
  exact printFiles 0 h

/-- What stands around a body only says something. -/
theorem handler {b : Builtin} {tokens : List String}
    (h : ∀ args, b.signature.read (flagsFirst tokens.tail) = .accepted args →
      (b.body args).Looks v) : (b.handler tokens).Looks v := by
  unfold Builtin.handler
  split
  · rename_i args hread
    refine (h args hread).attempt.bind fun ended => ?_
    rcases ended with failure | status
    · exact (complain _).bind fun _ => pure 1
    · exact pure status
  · exact (printLine _).bind fun _ => pure 0
  · exact (complain _).bind fun _ => pure 1

end Action.Looks

/-! ## Commands -/

namespace Session

variable {v : View}

/-- A command that looks at everything but one regular file: it prints the current directory, the
overview, or a directory, with any words; or it prints files, and none of them is that file. -/
def LooksPast (env : Environment) (fs : FileSystem) (hidden : FileId) (command : String) : Prop :=
  ∃ verb words, tokenize command = verb :: words
    ∧ (verb = "pwd" ∨ verb = "help" ∨ verb = "ls"
      ∨ verb = "cat" ∧ operandsOf words ≠ []
        ∧ ∀ operand ∈ operandsOf words, fs.reads (env.locate operand) hidden = false)

theorem program_looks {command : String} (h : LooksPast v.env v.files v.hidden command) :
    (program .standard command).Looks v := by
  obtain ⟨verb, words, htokens, hverb⟩ := h
  obtain ⟨handler, hhandler, hlooks⟩ : ∃ handler,
      VerbTable.standard.find? verb = some handler ∧ (handler (verb :: words)).Looks v := by
    rcases hverb with rfl | rfl | rfl | ⟨rfl, hsome, hpast⟩
    · exact ⟨_, rfl, .handler fun args _ => .pwd args⟩
    · exact ⟨_, rfl, .handler fun args _ => .help args⟩
    · exact ⟨_, rfl, .handler fun args _ => .ls args⟩
    · have hcat : Verbs.cat ∈ VerbTable.builtins := by simp [VerbTable.builtins]
      refine ⟨Verbs.cat.handler, rfl, .handler fun args hread => ?_⟩
      -- the words that the body gets are the operands
      obtain ⟨-, -, -, rfl⟩ :=
        (Signature.read_flagsFirst_iff (Builtin.switches_of_mem hcat)).mp hread
      exact .cat hsome hpast
  have htell : ∀ r, (tell r).Looks v := fun r => ⟨.ok (), rfl, trivial⟩
  unfold program
  simp only [htokens, hhandler]
  refine hlooks.attempt.bind fun ended => ?_
  rcases ended with failure | status
  · exact htell _
  · exact .pure ()

end Session

end LineShell
