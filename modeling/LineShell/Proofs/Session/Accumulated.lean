/-
What a file holds behind several redirections.

A line that redirects a looking command to a file changes the file and nothing else but the errors:
it leaves what the redirection keeps of the file, followed by what the command prints
(`Ready.redirect`).  The command sees the file that it prints to, but not what is in it.  So each
line prints what its command prints by itself in the tree with the file in it, whatever the lines in
front have written, and over several lines the file goes through a fold over what they print
(`Target.behind`).  Of that fold only the part from the last overwriting redirection on is left
(`foldl_leaves`).
-/
import LineShell.Proofs.Files.Reopened
import LineShell.Proofs.Session.Whereabouts
import LineShell.Proofs.Verbs.Looking

set_option autoImplicit false

namespace LineShell

open LineShell.Text

/-! ## What is left of several redirections -/

/-- What a redirection leaves of what its file holds. -/
def Redirection.kept (mode : Redirection) (held : Bytes) : Bytes :=
  match mode with
  | .overwrite => []
  | .append => held

/-- What a redirection leaves in its file, with what is printed behind it. -/
def Redirection.leaves (output : String → Bytes) (held : Bytes) (c : String × Redirection) :
    Bytes :=
  c.2.kept held ++ output c.1

/-- The commands from the last one on whose redirection overwrites; all of them if there is none. -/
def sinceOverwrite : List (String × Redirection) → List (String × Redirection)
  | [] => []
  | c :: rest => if ∃ later ∈ rest, later.2 = .overwrite then sinceOverwrite rest else c :: rest

theorem sinceOverwrite_of_appending {commands : List (String × Redirection)}
    (h : ¬ ∃ c ∈ commands, c.2 = .overwrite) : sinceOverwrite commands = commands := by
  rcases commands with _ | ⟨c, rest⟩
  · rfl
  · rw [sinceOverwrite, if_neg]
    exact fun ⟨later, hmem, hmode⟩ => h ⟨later, List.mem_cons_of_mem _ hmem, hmode⟩

/-- What several redirections leave: what the file held, unless one of them overwrites it, and what
was printed since the last one that does. -/
theorem foldl_leaves (output : String → Bytes) (held : Bytes)
    (commands : List (String × Redirection)) :
    commands.foldl (Redirection.leaves output) held
      = (if ∃ c ∈ commands, c.2 = .overwrite then [] else held)
        ++ (sinceOverwrite commands).flatMap fun c => output c.1 := by
  induction commands generalizing held with
  | nil => simp [sinceOverwrite]
  | cons c rest ih =>
    rw [List.foldl_cons, ih]
    by_cases hlater : ∃ later ∈ rest, later.2 = .overwrite
    · obtain ⟨later, hmem, hmode⟩ := hlater
      rw [if_pos ⟨later, hmem, hmode⟩, if_pos ⟨later, List.mem_cons_of_mem _ hmem, hmode⟩,
        sinceOverwrite, if_pos ⟨later, hmem, hmode⟩]
    · rw [if_neg hlater, sinceOverwrite_of_appending hlater, sinceOverwrite, if_neg hlater,
        List.flatMap_cons, ← List.append_assoc, Redirection.leaves]
      congr 2
      -- the first one alone decides what is kept
      rcases c with ⟨command, _ | _⟩
      · rw [if_pos ⟨_, List.mem_cons_self, rfl⟩]
        rfl
      · rw [if_neg]
        · rfl
        · rintro ⟨later, hmem, hmode⟩
          rcases List.mem_cons.mp hmem with rfl | hmem
          · exact nomatch hmode
          · exact hlater ⟨later, hmem, hmode⟩

namespace Session

/-! ## Printing by itself -/

/-- A session with the given files, a blank console, and the output there. -/
def alone (s : Session) (files : FileSystem) : Session :=
  ⟨{ s.world with files := files, console := .blank none, output := .console }, s.status⟩

/-- What a command prints by itself where a session is, with the given files. -/
def printsAmong (s : Session) (files : FileSystem) (command : String) : Bytes :=
  (executeLine .standard command (s.alone files)).2.world.console.bytes

/-- The world behind a plain line is the one that its program leaves. -/
theorem world_of_simple {table : VerbTable} {command : String}
    (hline : Line.parse command = .ok (.simple command)) (s : Session) :
    (executeLine table command s).2.world = ((program table command).run s.world).2 := by
  rw [executeLine_of_simple hline]
  exact (@dispatch_eq_run table command { s with status := 0 }).2

/-- A command that asks nobody prints on a blank console what its program prints. -/
theorem printsAmong_eq {v : View} {s : Session} {files : FileSystem} {command : String}
    (hs : v.Shows (s.alone files).world) (hline : Line.parse command = .ok (.simple command))
    (hlooks : LooksPast v.env v.files v.hidden command) :
    s.printsAmong files command = (program .standard command).printed (s.alone files).world := by
  obtain ⟨-, -, hasks⟩ := (program_looks hlooks).run hs
  rw [printsAmong, world_of_simple hline, (program .standard command).run_console hs.room,
    ← Action.heard_prints_uttered, prints_eq_self hasks]
  show ((Console.blank none).append (heard _)).bytes = _
  simp [Console.append, Console.blank, Console.bytes]

/-! ## The target -/

/-- The hidden file of a view is where the target of some redirections leads. -/
structure Target (v : View) (target : String) : Prop where
  sound : v.files.Sound
  opens : v.files.openForWriting (v.env.locate target) = .ok (.file v.hidden, v.files)

/-- A world in which the target of some redirections opens to the view, and the hidden file holds
some bytes. -/
structure Ready (v : View) (target : String) (held : Bytes) (w : World) : Prop where
  env_eq : w.env = v.env
  errors_room : w.errors.room = none
  sound : w.files.Sound
  opens : w.files.OpensTo (v.env.locate target) v.hidden v.files
  holds : (w.files.data v.hidden).content = held

/-- A world that has the tree of the view, with some bytes in the hidden file. -/
structure Written (v : View) (held : Bytes) (w : World) : Prop where
  env_eq : w.env = v.env
  errors_room : w.errors.room = none
  files_eq : ∃ touched, w.files = v.files.withData v.hidden ⟨held, touched⟩

section Lines

variable {v : View} {target line command : String} {mode : Redirection} {held : Bytes}
  {s plain : Session} {files : FileSystem} {lines : List String}
  {commands : List (String × Redirection)}

/-- One redirected line: the hidden file is left with what is kept of it and what the command prints
by itself, in any tree that the view shows. -/
theorem Ready.redirect (hs : Ready v target held s.world)
    (hplain : v.Shows (plain.alone files).world)
    (hline : Line.parse line = .ok (.redirect command target mode))
    (hlooks : LooksPast v.env v.files v.hidden command) :
    Written v (mode.kept held ++ plain.printsAmong files command)
      (executeLine .standard line s).2.world := by
  have hcommand := Line.parse_command_of_redirect hline
  obtain ⟨handle, d, hopen, hid⟩ := hs.opens.openTarget mode
  rw [← hs.env_eq] at hopen
  obtain ⟨l, -, hstands⟩ := FileSystem.exists_entry_of_openTarget hopen hid
  -- the world in which the command runs by itself, with the target open
  have hstart : v.Shows ((s.world.redirected handle (v.files.withData v.hidden d)).elsewhere
      (.blank none) .console) := ⟨hs.env_eq, ⟨d, rfl⟩, rfl, rfl, hs.errors_room⟩
  obtain ⟨halike, hpasses, -⟩ := (program_looks hlooks).run hstart
  obtain ⟨-, hprinted⟩ := (program_looks hlooks).congr hstart hplain
  obtain ⟨hworld, hbeside, hkept⟩ := redirected_beside hs.sound hopen hid hstands hstart.takes
  obtain ⟨-, touched, hequal⟩ := executeLine_aside hline hopen hworld hbeside (hpasses l)
  have hheld : s.world.files.keptBy mode v.hidden = mode.kept held := by
    rw [← hs.holds]
    rcases mode with _ | _ <;> rfl
  rw [hkept, hheld, Action.heard_prints_uttered, hprinted, ← printsAmong_eq hplain hcommand hlooks,
    world_of_simple hcommand] at hequal
  rw [hequal]
  constructor
  case env_eq => exact halike.agrees.env_eq.symm.trans hs.env_eq
  case errors_room => exact halike.symm.room
  case files_eq =>
    refine ⟨touched, ?_⟩
    show FileSystem.withData _ _ _ = _
    rw [← halike.agrees.files_eq]
    exact FileSystem.withData_withData _ _ _ _

/-- What was written to is ready for the next redirection. -/
theorem Target.ready (h : Target v target) {w : World} (hw : Written v held w) :
    Ready v target held w := by
  obtain ⟨touched, hfiles⟩ := hw.files_eq
  constructor
  case env_eq => exact hw.env_eq
  case errors_room => exact hw.errors_room
  case sound => exact hfiles ▸ h.sound.withData _ _
  case opens => exact hfiles ▸ FileSystem.opensTo_withData v.known h.opens _
  case holds => rw [hfiles, FileSystem.data_withData_self v.known]

/-- Over several redirected lines, one at least, the hidden file holds in turn what each of them
leaves. -/
theorem Target.behind (h : Target v target) (hplain : v.Shows (plain.alone files).world)
    (hlines : List.Forall₂ (fun line c => Line.parse line = .ok (.redirect c.1 target c.2))
      lines commands)
    (hsome : lines ≠ []) (hlooks : ∀ c ∈ commands, LooksPast v.env v.files v.hidden c.1)
    (hs : Ready v target held s.world) :
    Written v (commands.foldl (Redirection.leaves (plain.printsAmong files)) held)
      (behind .standard lines s).world := by
  induction hlines generalizing s held with
  | nil => exact absurd rfl hsome
  | @cons line c lines commands hline hrest ih =>
    obtain ⟨hfirst, hlater⟩ := List.forall_mem_cons.mp hlooks
    have hwritten := hs.redirect hplain hline hfirst
    by_cases hlast : lines = []
    · subst hlast
      cases hrest
      exact hwritten
    · exact ih hlast hlater (h.ready hwritten)

end Lines

/-- **A file that is redirected to again and again holds what was printed since the last
redirection that overwrites it.** The lines redirect looking commands to one target, which leads to
a regular file or to the place for one, and the error stream takes everything. Behind the last line
the file holds what it held at first, unless one of the redirections overwrites it, followed by what
the commands from the last such redirection on print by themselves in the tree with the file in it,
whatever is in the file. No other location looks different, but for times of change.
Redirecting a command twice, overwriting, leaves the same tree as redirecting it once. -/
theorem redirections_accumulate {s : Session} {target : String} {id : FileId} {there : FileSystem}
    {lines : List String} {commands : List (String × Redirection)}
    (hsound : s.world.files.Sound) (hroom : s.world.errors.room = none)
    (hopen : s.world.files.openForWriting (s.world.env.locate target) = .ok (.file id, there))
    (hlines : List.Forall₂ (fun line c => Line.parse line = .ok (.redirect c.1 target c.2))
      lines commands)
    (hsome : lines ≠ []) (hlooks : ∀ c ∈ commands, LooksPast s.world.env there id c.1)
    (held : FileData) :
    (∃ l, s.world.files.entryAt? .create (s.world.env.locate target) = some l
        ∧ (behind .standard lines s).world.files.HoldsAt l
          ((if ∃ c ∈ commands, c.2 = .overwrite then [] else (s.world.files.data id).content)
            ++ (sinceOverwrite commands).flatMap fun c =>
              s.printsAmong (there.withData id held) c.1)
        ∧ ∀ k, k ≠ l → s.world.files.SameAt (behind .standard lines s).world.files k)
      ∧ ∀ line command, Line.parse line = .ok (.redirect command target .overwrite) →
        LooksPast s.world.env there id command →
        ∀ k, (behind .standard [line] s).world.files.SameAt
          (behind .standard [line, line] s).world.files k := by
  obtain ⟨hknown, -⟩ := FileSystem.content_of_openForWriting hsound.numbered hopen
  let v : View := ⟨s.world.env, there, id, hknown⟩
  have htarget : Target v target :=
    ⟨hsound.openForWriting hopen, FileSystem.openForWriting_again hopen⟩
  have hready : Ready v target (s.world.files.data id).content s.world :=
    ⟨rfl, hroom, hsound, FileSystem.opensTo_of_opens hopen, rfl⟩
  have hplain : v.Shows (s.alone (there.withData id held)).world :=
    ⟨rfl, ⟨held, rfl⟩, rfl, rfl, hroom⟩
  constructor
  · obtain ⟨l, hl, hholds, hsame⟩ := FileSystem.sameAt_withData_of_opens hsound hopen
    obtain ⟨-, -, touched, hfiles⟩ := htarget.behind hplain hlines hsome hlooks hready
    rw [foldl_leaves] at hfiles
    rw [hfiles]
    exact ⟨l, hl, hholds ⟨_, touched⟩, hsame ⟨_, touched⟩⟩
  · intro line command hline hcommand k
    have honce : ∀ c ∈ [(command, Redirection.overwrite)],
        LooksPast v.env v.files v.hidden c.1 := by simpa using hcommand
    have htwice : ∀ c ∈ [(command, Redirection.overwrite), (command, Redirection.overwrite)],
        LooksPast v.env v.files v.hidden c.1 := by simpa using hcommand
    obtain ⟨-, -, touched, hfiles⟩ := htarget.behind hplain (.cons hline .nil)
      (List.cons_ne_nil line []) honce hready
    obtain ⟨-, -, touchedAgain, hfilesAgain⟩ := htarget.behind hplain
      (.cons hline (.cons hline .nil)) (List.cons_ne_nil line [line]) htwice hready
    -- both times nothing is kept
    rw [hfiles, hfilesAgain]
    refine FileSystem.sameAt_withData hknown ?_ k
    rfl

/-- The tree of the quiet session with a file that was opened in it. -/
def withTarget : FileSystem := (quiet.world.files.addFile [encode "f", encode "r"]).2

/-- A listing shows the file that it is printed to. What was printed in front of it is gone, a file
that is missing prints nothing, and what is printed behind it is kept. -/
theorem redirections_accumulate_listed :
    quiet.world.files.Sound ∧ quiet.world.errors.room = none
      ∧ quiet.world.files.openForWriting (quiet.world.env.locate "f") = .ok (.file 0, withTarget)
      ∧ (∀ c ∈ [("pwd", Redirection.append), ("ls", .overwrite), ("cat x", .append),
          ("pwd", .append)], LooksPast quiet.world.env withTarget 0 c.1)
      ∧ (behind .standard ["pwd >> f", "ls > f", "cat x >> f", "pwd >> f"]
          quiet).world.files.HoldsAt [encode "f", encode "r"]
          (encode "Listing directory: /r\nf\n/r\n") := by
  have hsound : quiet.world.files.Sound := FileSystem.sound_fresh (by decide +kernel)
  have hopen : quiet.world.files.openForWriting (quiet.world.env.locate "f")
      = .ok (.file 0, withTarget) := by decide +kernel
  have hlooks : ∀ c ∈ [("pwd", Redirection.append), ("ls", .overwrite), ("cat x", .append),
      ("pwd", .append)], LooksPast quiet.world.env withTarget 0 c.1 := by
    have hpwd : LooksPast quiet.world.env withTarget 0 "pwd" :=
      ⟨"pwd", [], by decide +kernel, .inl rfl⟩
    have hls : LooksPast quiet.world.env withTarget 0 "ls" :=
      ⟨"ls", [], by decide +kernel, .inr (.inr (.inl rfl))⟩
    have hcat : LooksPast quiet.world.env withTarget 0 "cat x" :=
      ⟨"cat", ["x"], by decide +kernel,
        .inr (.inr (.inr ⟨rfl, by decide +kernel, by decide +kernel⟩))⟩
    simp [hpwd, hls, hcat]
  obtain ⟨⟨l, hl, hholds, -⟩, -⟩ := @redirections_accumulate quiet "f" 0 withTarget
    ["pwd >> f", "ls > f", "cat x >> f", "pwd >> f"] _ hsound rfl hopen
    (.cons (by decide) (.cons (by decide) (.cons (by decide) (.cons (by decide) .nil))))
    (List.cons_ne_nil _ _) hlooks ⟨[], false⟩
  have hplace : quiet.world.files.entryAt? .create (quiet.world.env.locate "f")
      = some [encode "f", encode "r"] := by decide +kernel
  obtain rfl : [encode "f", encode "r"] = l := Option.some.inj (hplace.symm.trans hl)
  obtain ⟨file, hnode, hcontent⟩ := hholds
  exact ⟨hsound, rfl, hopen, hlooks, file, hnode, hcontent.trans (by decide +kernel)⟩

end Session

end LineShell
