/-
What a redirection captures.

A redirected command and the same command run plainly, from the world in which the target has
just been opened, are one run in two worlds.  The worlds differ in the console, in the output and in
what the opened file holds.  The command sees none of that, as long as it makes no call that touches
the file, so both runs get the same replies throughout.  What the plain run prints is owed to the
file in the other one, and the flush in the end settles it.

Only questions to a user do not follow the output.  They go to the console of the session, also
while the output is a file.
-/
import LineShell.Proofs.Files.Aside
import LineShell.Proofs.Session.Complaints
import LineShell.Proofs.Session.Transparency

set_option autoImplicit false

namespace LineShell

open LineShell.Text

/-! ## Running aside -/

/-- A console to which some utterances were written, as far as it has room. -/
def Console.hearing (c : Console) (us : List Utterance) : Console :=
  us.foldl (fun c u => (c.write u.bytes).2) c

theorem Console.hearing_append (c : Console) (us vs : List Utterance) :
    c.hearing (us ++ vs) = (c.hearing us).hearing vs :=
  List.foldl_append

namespace World

/-- The call of a request, if it touches a regular file that stands at a location. -/
def disturbs (l : Location) (id : FileId) (w : World) : Request → List FileCall
  | .files call => if call.disturbs w.files l id then [call] else []
  | _ => []

/-- A world that differs in the console, in the output, which is a sink, and in what one file
holds. -/
def aside (p : World) (c : Console) (sink : FileSink) (id : FileId) (d : FileData) : World :=
  { p with console := c, output := .file sink, files := p.files.withData id d }

/-- A world with an output that takes everything, and beside it a sink on a regular file that stands
at a location. -/
structure Beside (p : World) (l : Location) (id : FileId) (sink : FileSink) (d : FileData) :
    Prop where
  takes : p.Takes
  sound : p.files.Sound
  stands : p.files.node? l = some (.file id)
  follows : sink.Follows (p.files.withData id d) id

end World

/-- The calls of a run that touch a regular file that stands at a location. -/
def Action.disturbances {α : Type} (l : Location) (id : FileId) (a : Action α) (w : World) :
    List FileCall :=
  a.record (World.disturbs l id) w

namespace World.Beside

variable {p : World} {l : Location} {id : FileId} {sink : FileSink} {d : FileData} {c : Console}

theorem known (h : p.Beside l id sink d) : p.files.Knows id := h.sound.numbered l id h.stands

theorem file? (h : p.Beside l id sink d) : sink.handle.file? = some id := by
  rcases h.follows.handle with hend | hoffset
  · rw [hend]
    rfl
  · rw [hoffset]
    rfl

/-- Where the files stay as they are, the worlds go on side by side. -/
theorem of_files {q : World} (h : p.Beside l id sink d) (hq : q.Takes)
    (hfiles : q.files = p.files) : q.Beside l id sink d :=
  ⟨hq, hfiles ▸ h.sound, hfiles ▸ h.stands, hfiles ▸ h.follows⟩

/-- What is printed goes to the sink, and nothing but its file changes. -/
theorem print (h : p.Beside l id sink d) (data : Bytes) :
    ∃ sink' d', (p.aside c sink id d).print data
        = (.ok (), (p.print data).2.aside c sink' id d')
      ∧ (p.print data).2.Beside l id sink' d'
      ∧ sink'.owed ((p.print data).2.files.withData id d') id
        = sink.owed (p.files.withData id d) id ++ data := by
  obtain ⟨sink', after, hwrite, hfollows, howed⟩ := FileSink.write_of_follows h.follows data
  obtain ⟨d', hafter⟩ := @FileSink.write_eq_withData (p.files.withData id d) id sink h.file? data
  rw [hwrite, FileSystem.withData_withData] at hafter
  simp only at hafter
  subst hafter
  have hprint : (p.aside c sink id d).print data
      = (.ok (), { p.aside c sink id d with
        output := .file sink', files := p.files.withData id d' }) := by
    rw [World.print]
    simp only [aside, hwrite]
  rw [hprint, h.takes.print data]
  exact ⟨sink', d', rfl, ⟨h.takes.hear _, h.sound, h.stands, hfollows⟩, howed⟩

/-- A call that does not touch the file is made in both worlds. -/
theorem perform (h : p.Beside l id sink d) {call : FileCall}
    (hcall : call.disturbs p.files l id = false) :
    (p.aside c sink id d).answer (.files call)
        = ((p.answer (.files call)).1, (p.answer (.files call)).2.aside c sink id d)
      ∧ (p.answer (.files call)).2.Beside l id sink d
      ∧ sink.owed ((p.answer (.files call)).2.files.withData id d) id
        = sink.owed (p.files.withData id d) id := by
  have hperform := FileSystem.perform_withData h.known hcall d
  have hstands := (FileSystem.node?_perform h.sound h.stands hcall).trans h.stands
  have hsound := h.sound.perform call
  have hknown := hsound.numbered l id hstands
  obtain ⟨hfollows, howed⟩ := h.follows.of_content (FileSystem.knows_withData.mpr hknown)
    (by rw [FileSystem.data_withData_self hknown, FileSystem.data_withData_self h.known])
  refine ⟨?_, ⟨h.takes.answer _, hsound, hstands, hfollows⟩, howed⟩
  simp only [World.answer, aside, hperform]

/-- One request gets the same reply in both worlds. The questions go to the console, and what is
printed is owed to the file. -/
theorem answer (h : p.Beside l id sink d) {r : Request} (hr : p.disturbs l id r = []) :
    ∃ sink' d', (p.aside c sink id d).answer r
        = ((p.answer r).1, (p.answer r).2.aside
            (c.hearing (questions (r.uttered (p.answer r).1 p.respondent))) sink' id d')
      ∧ (p.answer r).2.Beside l id sink' d'
      ∧ sink'.owed ((p.answer r).2.files.withData id d') id
        = sink.owed (p.files.withData id d) id
          ++ heard (prints (r.uttered (p.answer r).1 p.respondent)) := by
  -- all requests but printing and calls leave the files alone and print nothing
  have hquiet : (p.answer r).2.files = p.files →
      prints (r.uttered (p.answer r).1 p.respondent) = [] →
      (p.answer r).2.Beside l id sink d
        ∧ sink.owed ((p.answer r).2.files.withData id d) id
          = sink.owed (p.files.withData id d) id
            ++ heard (prints (r.uttered (p.answer r).1 p.respondent)) := by
    intro hfiles hprints
    refine ⟨h.of_files (h.takes.answer r) hfiles, ?_⟩
    rw [hfiles, hprints]
    exact (List.append_nil _).symm
  cases r with
  | print data =>
    obtain ⟨sink', d', hprint, hbeside, howed⟩ := @print _ _ _ _ _ c h data
    refine ⟨sink', d', ?_⟩
    have hreply : (p.answer (.print data)).1 = .ok () := congrArg Prod.fst (h.takes.print data)
    rw [hreply]
    refine ⟨hprint, hbeside, howed.trans ?_⟩
    rw [show heard (prints (Request.uttered (.print data) (.ok ()) p.respondent)) = data from
      List.append_nil data]
  | complain data => exact ⟨sink, d, rfl, hquiet rfl rfl⟩
  | readUntil b =>
    refine ⟨sink, d, ?_, hquiet (p.readUntil_frame b).2.1 rfl⟩
    show (p.aside c sink id d).readUntil b
      = ((p.readUntil b).1, (p.readUntil b).2.aside c sink id d)
    rcases hinput : p.input with _ | reader
    · simp only [readUntil, aside, hinput]
    · simp only [readUntil, aside, hinput]
  | inputLeft => exact ⟨sink, d, rfl, hquiet rfl rfl⟩
  | confirm question =>
    refine ⟨sink, d, ?_, hquiet (p.confirm_frame question).2.2 ?_⟩
    · rcases hrespondent : p.respondent with (_ | ⟨reply, replies⟩) | _
      all_goals simp only [World.answer, confirm, aside, hrespondent]; rfl
    · rcases p.respondent with _ | _ <;> rfl
  | environment => exact ⟨sink, d, rfl, hquiet rfl rfl⟩
  | setEnvironment env => exact ⟨sink, d, rfl, hquiet rfl rfl⟩
  | files call =>
    have hcall : call.disturbs p.files l id = false := by
      rcases hdisturbs : call.disturbs p.files l id with _ | _
      · rfl
      · rw [disturbs, if_pos hdisturbs] at hr
        exact absurd hr (List.cons_ne_nil _ _)
    obtain ⟨hanswer, hbeside, howed⟩ := @perform _ _ _ _ _ c h _ hcall
    exact ⟨sink, d, hanswer, hbeside, howed.trans (List.append_nil _).symm⟩

end World.Beside

/-- A run that does not touch the file ends alike in both worlds. -/
theorem Action.run_aside {α : Type} (a : Action α) {p : World} {l : Location} {id : FileId}
    {sink : FileSink} {d : FileData} {c : Console} (h : p.Beside l id sink d)
    (ha : a.disturbances l id p = []) :
    ∃ sink' d', a.run (p.aside c sink id d)
        = ((a.run p).1,
          (a.run p).2.aside (c.hearing (questions (a.uttered p))) sink' id d')
      ∧ (a.run p).2.Beside l id sink' d'
      ∧ sink'.owed ((a.run p).2.files.withData id d') id
        = sink.owed (p.files.withData id d) id ++ heard (prints (a.uttered p)) := by
  induction a generalizing p sink d c with
  | done a => exact ⟨sink, d, rfl, h, (List.append_nil _).symm⟩
  | fail failure => exact ⟨sink, d, rfl, h, (List.append_nil _).symm⟩
  | panic message => exact ⟨sink, d, rfl, h, (List.append_nil _).symm⟩
  | request r next ih =>
    obtain ⟨hr, hnext⟩ := List.append_eq_nil_iff.mp ha
    obtain ⟨sink₁, d₁, hanswer, hbeside, howed₁⟩ := @World.Beside.answer _ _ _ _ _ c h _ hr
    obtain ⟨sink₂, d₂, hrun, hafter, howed₂⟩ := ih _ hbeside hnext
    refine ⟨sink₂, d₂, ?_, hafter, ?_⟩
    · rw [run_request, run_request, hanswer, hrun, ← Console.hearing_append, ← questions_append]
      rfl
    · rw [run_request, howed₂, howed₁, List.append_assoc, ← heard_append, ← prints_append]
      rfl

/-! ## Commands -/

namespace Session

variable {table : VerbTable} {command target line : String} {mode : Redirection} {handle : Handle}
  {files : FileSystem} {s : Session} {id : FileId} {l : Location}

/-- The status that a command leaves is told by how its handler ended. -/
theorem dispatch_status_congr {w w' : World} {status : Int}
    (h : ∀ verb words handler, tokenize command = verb :: words →
      table.find? verb = some handler →
      ((handler (verb :: words)).run w).1 = ((handler (verb :: words)).run w').1) :
    (dispatch table command ⟨w, status⟩).2.status
      = (dispatch table command ⟨w', status⟩).2.status := by
  rcases htokens : tokenize command with _ | ⟨verb, words⟩
  · rw [dispatch, dispatch, htokens]
  · rcases hverb : table.find? verb with _ | handler
    · rw [dispatch, dispatch, htokens]
      simp only [hverb]
      rfl
    · have hended := h verb words handler htokens hverb
      rw [dispatch_of_find? htokens hverb, dispatch_of_find? htokens hverb, runHandler, runHandler]
      simp only
      revert hended
      rcases (handler (verb :: words)).run w with ⟨ended, _⟩
      rcases (handler (verb :: words)).run w' with ⟨_, _⟩
      rintro rfl
      rcases ended with _ | _ | _ <;> rfl

/-- What a program does not touch, its handler does not touch. -/
theorem disturbances_handler {w : World} {verb : String} {words : List String} {handler : Handler}
    (htokens : tokenize command = verb :: words) (hverb : table.find? verb = some handler)
    (h : (program table command).disturbances l id w = []) :
    (handler (verb :: words)).disturbances l id w = [] := by
  unfold program at h
  simp only [htokens, hverb] at h
  rw [Action.disturbances, Action.record_bind, Action.record_attempt] at h
  exact (List.append_eq_nil_iff.mp h).1

/-- A simple command that does not touch the file ends alike in both worlds. -/
theorem dispatch_aside {p : World} {sink : FileSink} {d : FileData} {c : Console} {status : Int}
    (h : p.Beside l id sink d) (hc : (program table command).disturbances l id p = []) :
    ∃ sink' d', dispatch table command ⟨p.aside c sink id d, status⟩
        = ((dispatch table command ⟨p, status⟩).1,
          ⟨(dispatch table command ⟨p, status⟩).2.world.aside
              (c.hearing (questions ((program table command).uttered p))) sink' id d',
            (dispatch table command ⟨p, status⟩).2.status⟩)
      ∧ (dispatch table command ⟨p, status⟩).2.world.Beside l id sink' d'
      ∧ sink'.owed ((dispatch table command ⟨p, status⟩).2.world.files.withData id d') id
        = sink.owed (p.files.withData id d) id
          ++ heard (prints ((program table command).uttered p)) := by
  obtain ⟨sink', d', hrun, hbeside, howed⟩ :=
    @Action.run_aside _ (program table command) _ _ _ _ _ c h hc
  obtain ⟨hending, hworld⟩ := @dispatch_eq_run table command ⟨p, status⟩
  obtain ⟨hendingAside, hworldAside⟩ :=
    @dispatch_eq_run table command ⟨p.aside c sink id d, status⟩
  have hstatus := @dispatch_status_congr table command (p.aside c sink id d) p status
    fun verb words handler htokens hverb => by
      obtain ⟨_, _, hhandler, -⟩ := @Action.run_aside _ (handler (verb :: words)) _ _ _ _ _ c h
        (disturbances_handler htokens hverb hc)
      rw [hhandler]
  rw [hrun] at hendingAside hworldAside
  refine ⟨sink', d', ?_, hworld ▸ hbeside, hworld ▸ howed⟩
  rcases hdispatch : dispatch table command ⟨p.aside c sink id d, status⟩ with
    ⟨endingAside, worldAside, statusAside⟩
  rw [hdispatch] at hendingAside hworldAside hstatus
  simp only at hendingAside hworldAside hstatus
  rw [hendingAside, hworldAside, hstatus, hending, hworld]

/-! ## Lines -/

/-- The world in which a redirected command runs stands beside the one in which it runs plainly. -/
theorem redirected_beside {c : Console} {o : Output} (hsound : s.world.files.Sound)
    (hopen : s.world.files.openTarget (s.world.env.locate target) mode = .ok (handle, files))
    (hid : handle.file? = some id) (hstands : files.node? l = some (.file id))
    (htakes : ((s.world.redirected handle files).elsewhere c o).Takes) :
    let plain := (s.world.redirected handle files).elsewhere c o
    s.world.redirected handle files
        = plain.aside s.world.console ⟨handle, []⟩ id (files.data id)
      ∧ plain.Beside l id ⟨handle, []⟩ (files.data id)
      ∧ FileSink.owed ⟨handle, []⟩ (plain.files.withData id (files.data id)) id
        = s.world.files.keptBy mode id := by
  obtain ⟨⟨sink, houtput, hfollows⟩, howed⟩ := World.redirected_writesTo hsound hopen hid
  obtain rfl : ⟨handle, []⟩ = sink := Output.file.inj houtput
  have hsame := files.withData_data id
  refine ⟨?_, ⟨htakes, hsound.openTarget hopen, hstands, ?_⟩, ?_⟩
  · show s.world.redirected handle files
      = { s.world with files := files.withData id (files.data id), output := .file ⟨handle, []⟩ }
    rw [hsame]
    rfl
  · show FileSink.Follows ⟨handle, []⟩ (files.withData id (files.data id)) id
    rw [hsame]
    exact hfollows
  · show FileSink.owed ⟨handle, []⟩ (files.withData id (files.data id)) id = _
    rw [hsame]
    exact howed

/-- Behind the final flush the file holds all that was owed to it, and the world differs in nothing
else but the console from the plain one. -/
theorem flushOutput_aside {p : World} {sink : FileSink} {d : FileData} {c : Console} {status : Int}
    (h : p.Beside l id sink d) :
    ∃ touched settled,
      flushOutput ⟨p.aside c sink id d, status⟩ = (.ok (),
        ⟨p.aside c settled id ⟨sink.owed (p.files.withData id d) id, touched⟩, status⟩) := by
  obtain ⟨settled, after, hflush, -, -, hcontent⟩ := FileSink.flush_of_follows h.follows
  obtain ⟨d', hafter⟩ := @FileSink.flush_eq_withData (p.files.withData id d) id sink h.file?
  rw [hflush, FileSystem.withData_withData] at hafter
  simp only at hafter
  subst hafter
  rw [FileSystem.data_withData_self h.known] at hcontent
  refine ⟨d'.touched, settled, ?_⟩
  rw [← hcontent, flushOutput]
  simp only [World.aside, hflush]

/-- Executing a redirected line, told from the plain run in a world that stands beside it. -/
theorem executeLine_aside {p : World} {d : FileData}
    (hline : Line.parse line = .ok (.redirect command target mode))
    (hopen : s.world.files.openTarget (s.world.env.locate target) mode = .ok (handle, files))
    (hworld : s.world.redirected handle files = p.aside s.world.console ⟨handle, []⟩ id d)
    (hbeside : p.Beside l id ⟨handle, []⟩ d)
    (hquiet : (program table command).disturbances l id p = []) :
    let plain := executeLine table command ⟨p, s.status⟩
    plain.2.world.files.node? l = some (.file id)
      ∧ ∃ touched, executeLine table line s
        = (plain.1,
          ⟨{ plain.2.world with
              console := s.world.console.hearing (questions ((program table command).uttered p))
              output := s.world.output
              files := plain.2.world.files.withData id
                ⟨FileSink.owed ⟨handle, []⟩ (p.files.withData id d) id
                  ++ heard (prints ((program table command).uttered p)), touched⟩ },
            plain.2.status⟩) := by
  obtain ⟨sink, d', hdispatch, hafter, howed⟩ :=
    @dispatch_aside table command _ _ _ _ _ s.world.console 0 hbeside hquiet
  have hplain : executeLine table command ⟨p, s.status⟩ = dispatch table command ⟨p, 0⟩ :=
    executeLine_of_simple (Line.parse_command_of_redirect hline)
  rw [← hworld] at hdispatch
  rw [hplain, ← howed]
  generalize dispatch table command ⟨p, 0⟩ = ran at hdispatch hafter ⊢
  obtain ⟨touched, settled, hflush⟩ := @flushOutput_aside _ _ _ _ _
    (s.world.console.hearing (questions ((program table command).uttered p))) ran.2.status hafter
  refine ⟨hafter.stands, touched, ?_⟩
  rw [executeLine_of_flushed hline hopen (by rw [hdispatch, hflush]), hdispatch]
  simp only [hflush]
  rfl

/-- A redirected line does what its command does when it is run plainly, from the world in which the
target has just been opened and with any output that takes everything: it ends alike, with the same
status, and the two worlds are the same but for the output, which is the session's own again, the
console, and the opened file. The file holds what the redirection kept, followed by what the plain
run printed. The console has got the questions to a user, and nothing where it is not a user who
answers. This holds where the plain run makes no call that touches the file at the place to which
the target led before the command ran. -/
theorem redirect_captures (hline : Line.parse line = .ok (.redirect command target mode))
    (hsound : s.world.files.Sound)
    (hopen : s.world.files.openTarget (s.world.env.locate target) mode = .ok (handle, files))
    (hid : handle.file? = some id) :
    ∃ l, s.world.files.entryAt? .create (s.world.env.locate target) = some l
      ∧ files.node? l = some (.file id)
      ∧ ∀ (c : Console) (o : Output),
        let start := (s.world.redirected handle files).elsewhere c o
        let plain := executeLine table command ⟨start, s.status⟩
        let us := (program table command).uttered start
        start.Takes → (program table command).disturbances l id start = [] →
        ∃ touched,
          plain.2.world.console = c.append (o.audible us)
          ∧ plain.2.world.output = o.keeping us
          ∧ Asks start plain.2.world us
          ∧ plain.2.world.files.node? l = some (.file id)
          ∧ executeLine table line s
            = (plain.1,
              ⟨{ plain.2.world with
                  console := s.world.console.hearing (questions us)
                  output := s.world.output
                  files := plain.2.world.files.withData id
                    ⟨s.world.files.keptBy mode id ++ heard (prints us), touched⟩ },
                plain.2.status⟩)
          ∧ (s.world.respondent ≠ .user →
            (executeLine table line s).2.world.console = s.world.console) := by
  obtain ⟨l, htarget, hstands⟩ := FileSystem.exists_entry_of_openTarget hopen hid
  refine ⟨l, htarget, hstands, ?_⟩
  intro c o start plain us htakes hquiet
  obtain ⟨hworld, hbeside, hkept⟩ := redirected_beside hsound hopen hid hstands htakes
  obtain ⟨hafter, touched, hequal⟩ := executeLine_aside hline hopen hworld hbeside hquiet
  rw [hkept] at hequal
  -- the plain run itself
  have hrun : plain.2.world = ((program table command).run start).2 := by
    show (executeLine table command ⟨start, s.status⟩).2.world = _
    rw [executeLine_of_simple (Line.parse_command_of_redirect hline)]
    exact (@dispatch_eq_run table command ⟨start, 0⟩).2
  have hasks : Asks start plain.2.world us := by
    rw [hrun]
    exact (program table command).run_asked start
  refine ⟨touched, ?_, ?_, hasks, hafter, hequal, ?_⟩
  · rw [hrun]
    exact (program table command).run_console htakes.room
  · rw [hrun]
    exact (program table command).run_output htakes
  · intro hscripted
    rw [hequal]
    show s.world.console.hearing (questions us) = s.world.console
    rw [questions_eq_nil (hasks.2 hscripted)]
    rfl

/-- A session in which the current directory was printed to a file. -/
def noted : Session := (executeLine .standard "pwd > f" quiet).2

/-- What is printed to the same file later on stands behind it, and none of it is on the console. -/
theorem redirect_captures_appended :
    Line.parse "pwd >> f" = .ok (.redirect "pwd" "f" .append)
      ∧ noted.world.files.Sound
      ∧ noted.world.files.openTarget (noted.world.env.locate "f") .append
        = .ok (.atEnd 0, noted.world.files)
      ∧ (Handle.atEnd 0).file? = some 0
      ∧ ((executeLine .standard "pwd >> f" noted).2.world.files.data 0).content
        = encode "/r\n" ++ encode "/r\n"
      ∧ (executeLine .standard "pwd >> f" noted).2.world.console = noted.world.console := by
  have hline : Line.parse "pwd >> f" = .ok (.redirect "pwd" "f" .append) := by decide
  have hsound : noted.world.files.Sound :=
    FileSystem.Sound.preserved.execute .standard (Job.ofText "pwd > f") quiet
      (FileSystem.sound_fresh (by decide +kernel))
  have hopen : noted.world.files.openTarget (noted.world.env.locate "f") .append
      = .ok (.atEnd 0, noted.world.files) := by
    decide +kernel
  obtain ⟨l, htarget, -, hplain⟩ :=
    @redirect_captures .standard _ _ _ _ _ _ noted 0 hline hsound hopen rfl
  have hl : some [encode "f", encode "r"] = some l := by
    rw [← htarget]
    decide +kernel
  injection hl with hl
  subst hl
  have htakes : ((noted.world.redirected (.atEnd 0) noted.world.files).elsewhere
      (.blank none) .console).Takes := ⟨fun sink => nofun, rfl⟩
  obtain ⟨touched, -, -, -, -, hequal, hconsole⟩ :=
    hplain (.blank none) .console htakes (by decide +kernel)
  refine ⟨hline, hsound, hopen, rfl, ?_, hconsole (by decide +kernel)⟩
  rw [hequal]
  refine (congrArg FileData.content
    (FileSystem.data_withData_self (show 0 < List.length _ by decide +kernel) _)).trans ?_
  show noted.world.files.keptBy .append 0 ++ heard _ = encode "/r\n" ++ encode "/r\n"
  decide +kernel

/-- A question to a user is on the output of the session, while what the command prints goes to a
file that the command does not touch. -/
theorem redirect_shows_questions :
    Line.parse "mv a b > t" = .ok (.redirect "mv a b" "t" .overwrite)
      ∧ ∃ handle files l, asking.world.files.openTarget (asking.world.env.locate "t") .overwrite
          = .ok (handle, files)
        ∧ handle.file? = some 3 ∧ files.node? l = some (.file 3)
        ∧ (program .standard "mv a b").disturbances l 3
            ((asking.world.redirected handle files).elsewhere (.blank none) .console) = []
        ∧ (executeLine .standard "mv a b > t" asking).2.world.console.bytes
          ≠ asking.world.console.bytes :=
  ⟨by decide, .atOffset 3 0,
    (asking.world.files.addFile [encode "t", encode "r"]).2.setContent 3 [],
    [encode "t", encode "r"], by decide +kernel, rfl, by decide +kernel, by decide +kernel,
    by decide +kernel⟩

end Session

end LineShell
