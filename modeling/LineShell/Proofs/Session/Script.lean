/-
The loop over the lines of an input.

The loop is told here without a count of rounds, by what it does with each line that it reads
(`Session.Loop`).  A round takes at least a byte from an input that does not fail, and nothing that
is executed puts any back, so the count in `runLines` never cuts the loop short
(`Session.loop_runLines`).

If no line reads from the input itself, the lines that the loop reads are the lines of the input.
The session of the loop then stays abreast of the one in which the same lines are executed
directly: the two differ in what is left to read, in prompts on the console, in reports on the error
stream, and in the status behind a report.  Each round of the loop is one step of this comparison,
and the induction is on the lines that are left (`Session.exists_scripted`).
-/
import LineShell.Proofs.Session.Transparency
import LineShell.Proofs.Session.Undrawn
import LineShell.Proofs.Stream.Chunked
import LineShell.Session.Script

set_option autoImplicit false

namespace LineShell

open LineShell.Text

/-! ## The lines of an input -/

/-- The lines of some bytes, each with the newline that ends it. What stands behind the last newline
is a line as well, if it is anything. -/
def inputLines : Bytes → List Bytes
  | [] => []
  | b :: rest => if b = newline then [b] :: inputLines rest else extendFirst b (inputLines rest)

section Lines

variable {b c : UInt8} {bytes : Bytes}

theorem cutAfter_cons_self (b : UInt8) (rest : Bytes) : cutAfter b (b :: rest) = ([b], rest) :=
  @cutAfter_concat b [] List.not_mem_nil rest

theorem cutAfter_cons_of_ne (h : c ≠ b) (rest : Bytes) :
    cutAfter b (c :: rest) = (c :: (cutAfter b rest).1, (cutAfter b rest).2) :=
  @cutAfter_append_of_not_mem b [c] (by simpa using h.symm) rest

theorem cutAfter_fst_ne_nil (h : bytes ≠ []) : (cutAfter b bytes).1 ≠ [] := by
  rcases bytes with _ | ⟨c, rest⟩
  · exact absurd rfl h
  · by_cases hc : c = b
    · subst hc
      rw [cutAfter_cons_self]
      exact List.cons_ne_nil _ _
    · rw [cutAfter_cons_of_ne hc]
      exact List.cons_ne_nil _ _

/-- The first line is what a read up to a newline gives, and the other lines are those of the bytes
that the read leaves. -/
theorem inputLines_eq (h : bytes ≠ []) :
    inputLines bytes = (cutAfter newline bytes).1 :: inputLines (cutAfter newline bytes).2 := by
  induction bytes with
  | nil => exact absurd rfl h
  | cons b rest ih =>
    rw [inputLines]
    by_cases hb : b = newline
    · rw [if_pos hb, hb, cutAfter_cons_self]
    · rw [if_neg hb, cutAfter_cons_of_ne hb]
      by_cases hrest : rest = []
      · subst hrest
        rfl
      · rw [ih hrest]
        rfl

/-- No byte gets lost between the lines. -/
theorem flatten_inputLines (bytes : Bytes) : (inputLines bytes).flatten = bytes := by
  induction bytes with
  | nil => rfl
  | cons b rest ih =>
    rw [inputLines]
    split
    · rw [List.flatten_cons, ih]
      rfl
    · rcases hlines : inputLines rest with _ | ⟨line, lines⟩
      · rw [hlines] at ih
        obtain rfl : rest = [] := ih.symm
        rfl
      · rw [hlines] at ih
        rw [← ih]
        rfl

/-- A line that no backspace is in is executed as it stands, but for its end. -/
theorem lineOfInput?_of_plain {text : String} (htext : decode? bytes = some text)
    (hplain : backspace ∉ chopLineEnd text.toList) :
    lineOfInput? bytes = some (String.ofList (chopLineEnd text.toList)) := by
  have hkept : ∀ (parts kept : List (List Char)), (∀ part ∈ parts, backspace ∉ part) →
      parts.foldl eraseStep kept = parts.reverse ++ kept := by
    intro parts
    induction parts with
    | nil => exact fun kept _ => rfl
    | cons part parts ih =>
      intro kept hparts
      have hpart : part ≠ [backspace] := by
        rintro rfl
        exact hparts _ List.mem_cons_self (List.mem_singleton_self _)
      rw [List.foldl_cons, eraseStep, if_neg hpart,
        ih _ fun other hother => hparts other (List.mem_cons_of_mem _ hother)]
      simp
  have hparts : ∀ part ∈ clusters (chopLineEnd text.toList), backspace ∉ part := by
    intro part hpart hmem
    apply hplain
    rw [← flatten_clusters (chopLineEnd text.toList)]
    exact List.mem_flatten_of_mem hpart hmem
  rw [lineOfInput?, htext, Option.map_some, applyBackspaces, hkept _ _ hparts, List.append_nil,
    List.reverse_reverse, flatten_clusters]

end Lines

/-! ## What is left to read -/

/-- A later state of the same input: some bytes were read from its front. -/
def Source.LeadsTo (s later : Source) : Prop :=
  later.ending = s.ending ∧ ∃ taken, s.bytes = taken ++ later.bytes

namespace Source.LeadsTo

variable {s t u : Source}

theorem refl (s : Source) : s.LeadsTo s := ⟨rfl, [], rfl⟩

theorem trans (hst : s.LeadsTo t) (htu : t.LeadsTo u) : s.LeadsTo u := by
  obtain ⟨hending, first, hfirst⟩ := hst
  obtain ⟨hendingNext, second, hsecond⟩ := htu
  exact ⟨hendingNext.trans hending, first ++ second, by rw [hfirst, hsecond, List.append_assoc]⟩

theorem readUntil (s : Source) (b : UInt8) : s.LeadsTo (s.readUntil b).2 := by
  obtain ⟨-, hbytes, hending⟩ := s.readUntil_eq b
  exact ⟨hending, (cutAfter b s.bytes).1, by rw [hbytes, cutAfter_append]⟩

theorem answer (w : World) (r : Request) : w.source.LeadsTo (w.answer r).2.source := by
  cases r with
  | print data =>
    show w.source.LeadsTo (w.print data).2.source
    unfold World.print
    split <;> exact refl _
  | readUntil b =>
    show w.source.LeadsTo (w.readUntil b).2.source
    unfold World.readUntil
    split
    · exact readUntil _ b
    · exact refl _
  | confirm question =>
    show w.source.LeadsTo (w.confirm question).2.source
    unfold World.confirm
    rcases w.respondent with (_ | ⟨reply, replies⟩) | _
    · exact refl _
    · exact refl _
    · exact readUntil _ newline
  | complain data => exact refl _
  | inputLeft => exact refl _
  | environment => exact refl _
  | setEnvironment env => exact refl _
  | files call => exact refl _

/-- Whatever is executed, nothing is put back into the input. -/
theorem carried (table : VerbTable) :
    World.Carried table fun before after => before.source.LeadsTo after.source where
  refl w := refl w.source
  trans := trans
  run command w := Action.run_of_step (R := fun u v => u.source.LeadsTo v.source)
    (fun w => refl w.source) trans answer _ w
  exchange w _ _ := refl w.source
  opened := by
    intro s opened path mode hopen
    obtain ⟨handle, files, -, rfl⟩ := Session.openOutput_cases hopen
    exact refl _
  flushed s := by
    unfold Session.flushOutput
    split <;> exact refl _
  voiced w _ := refl w.source

end Source.LeadsTo

/-! ## The loop -/

namespace Session

/-- What the loop does with a line that it has read. -/
inductive Round where
  /-- The line is executed. -/
  | passed (line : String)
  /-- The line is no text; this is reported, and the line is skipped. -/
  | reported
  deriving DecidableEq, Repr

/-- Every line that is text is executed. -/
def Round.ofLine (bytes : Bytes) : Round :=
  match lineOfInput? bytes with
  | some line => .passed line
  | none => .reported

variable {table : VerbTable} {prompt : Option String} {s t later other : Session} {bytes : Bytes}
  {rounds more : List Round}

/-- The loop over the lines of the session's own input, with what it does in its rounds, from the
session that it finds to the one that it leaves. It goes on until the session is to end, or until
the input has no more bytes. -/
inductive Loop (table : VerbTable) (prompt : Option String) : Session → List Round → Session → Prop
  | leaving {s : Session} (hleaving : s.world.env.exiting = true) : Loop table prompt s [] s
  | ended {s after : Session} (hstays : s.world.env.exiting = false)
      (hread : (s.showPrompt prompt).nextLine = (.ok [], after)) : Loop table prompt s [] after
  | skipped {s after later : Session} {bytes : Bytes} {rounds : List Round}
      (hstays : s.world.env.exiting = false)
      (hread : (s.showPrompt prompt).nextLine = (.ok bytes, after)) (hbytes : bytes ≠ [])
      (hline : lineOfInput? bytes = none)
      (hrest : Loop table prompt (after.report (.unreadableLine .notText)) rounds later) :
      Loop table prompt s (.reported :: rounds) later
  | passed {s after ran later : Session} {bytes : Bytes} {line : String} {rounds : List Round}
      (hstays : s.world.env.exiting = false)
      (hread : (s.showPrompt prompt).nextLine = (.ok bytes, after)) (hbytes : bytes ≠ [])
      (hline : lineOfInput? bytes = some line)
      (hexecuted : executeLine table line after = (.returned, ran))
      (hrest : Loop table prompt ran rounds later) :
      Loop table prompt s (.passed line :: rounds) later
  | unwound {s after ran : Session} {bytes : Bytes} {line message : String}
      (hstays : s.world.env.exiting = false)
      (hread : (s.showPrompt prompt).nextLine = (.ok bytes, after)) (hbytes : bytes ≠ [])
      (hline : lineOfInput? bytes = some line)
      (hexecuted : executeLine table line after = (.unwound message, ran)) :
      Loop table prompt s [.passed line] ran

/-! ### One round -/

@[simp] theorem showPrompt_source (s : Session) (prompt : Option String) :
    (s.showPrompt prompt).world.source = s.world.source := by
  cases prompt <;> rfl

@[simp] theorem showPrompt_status (s : Session) (prompt : Option String) :
    (s.showPrompt prompt).status = s.status := by
  cases prompt <;> rfl

/-- The same session with other things to read. -/
def withSource (s : Session) (source : Source) : Session :=
  { s with world := { s.world with source := source } }

/-- A read from an input that does not fail gives the bytes in front of the cut. -/
theorem nextLine_of_finished (h : s.world.source.ending = .finished) :
    ∃ source, s.nextLine
        = (.ok (cutAfter newline s.world.source.bytes).1, s.withSource source)
      ∧ source.bytes = (cutAfter newline s.world.source.bytes).2 ∧ source.ending = .finished := by
  obtain ⟨hresult, hbytes, hending⟩ := s.world.source.readUntil_eq newline
  refine ⟨(s.world.source.readUntil newline).2, ?_, hbytes, hending.trans h⟩
  rw [nextLine, withSource]
  rw [SourceEnd.deliver, if_pos (.inr h)] at hresult
  simp only [hresult]

/-- A prompt in front of the read takes nothing from the input. -/
theorem nextLine_prompted (prompt : Option String) (h : s.world.source.ending = .finished) :
    ∃ source, (s.showPrompt prompt).nextLine
        = (.ok (cutAfter newline s.world.source.bytes).1, (s.showPrompt prompt).withSource source)
      ∧ source.bytes = (cutAfter newline s.world.source.bytes).2 ∧ source.ending = .finished := by
  rw [← s.showPrompt_source prompt] at h ⊢
  exact nextLine_of_finished h

theorem executeLine_leadsTo (table : VerbTable) (line : String) (s : Session) :
    s.world.source.LeadsTo (executeLine table line s).2.world.source :=
  (Source.LeadsTo.carried table).execute (Job.ofText line) s

/-! ### The end of the loop -/

/-- An input that does not fail is met with enough rounds. -/
theorem loop_runLines {count : Nat} (hfinished : s.world.source.ending = .finished)
    (hcount : s.world.source.bytes.length < count) :
    ∃ rounds, Loop table prompt s rounds (runLines table prompt count s) := by
  induction count generalizing s with
  | zero => exact absurd hcount (Nat.not_lt_zero _)
  | succ count ih =>
    rw [runLines]
    by_cases hexiting : s.world.env.exiting = true
    · rw [if_pos hexiting]
      exact ⟨[], .leaving hexiting⟩
    · rw [if_neg hexiting]
      have hstays := Bool.eq_false_iff.mpr hexiting
      obtain ⟨source, hread, hbehind, hending⟩ := s.nextLine_prompted prompt hfinished
      rw [hread]
      by_cases hbytes : s.world.source.bytes = []
      · have hnothing : (cutAfter newline s.world.source.bytes).1 = [] := by
          rw [hbytes]
          rfl
        rw [hnothing] at hread ⊢
        exact ⟨[], .ended hstays hread⟩
      · have hline := @cutAfter_fst_ne_nil newline _ hbytes
        -- the read has taken the line, and the line is not empty
        have hshorter : source.bytes.length < count := by
          have hall := congrArg List.length (cutAfter_append newline s.world.source.bytes)
          have hpos := List.length_pos_iff.mpr hline
          rw [List.length_append] at hall
          rw [hbehind]
          omega
        generalize (cutAfter newline s.world.source.bytes).1 = bytes at hread hline ⊢
        rcases bytes with _ | ⟨b, rest⟩
        · exact absurd rfl hline
        · simp only
          rcases htext : lineOfInput? (b :: rest) with _ | line
          · obtain ⟨rounds, hrounds⟩ :=
              @ih (((s.showPrompt prompt).withSource source).report (.unreadableLine .notText))
                hending hshorter
            exact ⟨_, .skipped hstays hread hline htext hrounds⟩
          · have hleads := executeLine_leadsTo table line
              ((s.showPrompt prompt).withSource source)
            simp only
            rcases hran : executeLine table line ((s.showPrompt prompt).withSource source) with
              ⟨_ | message, ran⟩
            · rw [hran] at hleads
              obtain ⟨hendingRan, taken, htaken⟩ : source.LeadsTo ran.world.source := hleads
              have hshorterRan : ran.world.source.bytes.length < count := by
                rw [htaken, List.length_append] at hshorter
                exact Nat.lt_of_add_left_lt hshorter
              obtain ⟨rounds, hrounds⟩ := ih (hendingRan.trans hending) hshorterRan
              exact ⟨_, .passed hstays hread hline htext hran hrounds⟩
            · exact ⟨_, .unwound hstays hread hline htext hran⟩

/-- Over an input that does not fail the loop comes to its end. -/
theorem loop_runInput (hfinished : s.world.source.ending = .finished) :
    ∃ rounds, Loop table prompt s rounds (s.runInput table prompt) :=
  loop_runLines hfinished (Nat.lt_succ_self _)

/-- There is one way for the loop to go. -/
theorem Loop.unique (h : Loop table prompt s rounds later)
    (hother : Loop table prompt s more other) : more = rounds ∧ other = later := by
  induction h generalizing more other with
  | leaving hleaving => cases hother <;> simp_all
  | ended hstays hread => cases hother <;> simp_all
  | skipped hstays hread hbytes hline hrest ih =>
    cases hother with
    | skipped _ hreadThere _ _ hrestThere =>
      rw [hread] at hreadThere
      injection hreadThere with hsame hafter
      subst hafter
      obtain ⟨rfl, rfl⟩ := ih hrestThere
      exact ⟨rfl, rfl⟩
    | _ => simp_all
  | passed hstays hread hbytes hline hexecuted hrest ih =>
    cases hother with
    | passed _ hreadThere _ hlineThere hexecutedThere hrestThere =>
      rw [hread] at hreadThere
      injection hreadThere with hsame hafter
      injection hsame with hsame
      subst hsame hafter
      rw [hline] at hlineThere
      injection hlineThere with hsame
      subst hsame
      rw [hexecuted] at hexecutedThere
      injection hexecutedThere with _ hran
      subst hran
      obtain ⟨rfl, rfl⟩ := ih hrestThere
      exact ⟨rfl, rfl⟩
    | _ => simp_all
  | unwound hstays hread hbytes hline hexecuted => cases hother <;> simp_all

end Session

/-! ## What the loop itself writes -/

/-- A console that has got the same as another one and, at some points in between, some bytes
besides. -/
inductive Console.Woven (extra : Bytes) : Nat → Console → Console → Prop
  | same (c : Console) : Woven extra 0 c c
  | both {n : Nat} {c d : Console} (h : Woven extra n c d) (data : Bytes) :
      Woven extra n (c.append data) (d.append data)
  | besides {n : Nat} {c d : Console} (h : Woven extra n c d) :
      Woven extra (n + 1) c (d.append extra)

namespace Console

theorem Woven.room_eq {extra : Bytes} {n : Nat} {c d : Console} (h : Woven extra n c d) :
    d.room = c.room := by
  induction h with
  | same c => rfl
  | both h data ih => exact ih
  | besides h ih => exact ih

/-- Being the same. -/
def Pace.same : Pace where
  rel := Eq
  write data h := by rw [h]; exact ⟨rfl, rfl⟩

/-- Taking everything, of which one has got more. -/
def Pace.woven (extra : Bytes) (n : Nat) : Pace where
  rel c d := c.room = none ∧ Woven extra n c d
  write {c d} data h := by
    rw [write_eq_append h.1, write_eq_append (h.2.room_eq.trans h.1)]
    exact ⟨rfl, h.1, h.2.both data⟩

/-- The console of the loop, where a prompt was shown a number of times or there is none. -/
def Pace.prompted : Option String → Nat → Pace
  | none, _ => .same
  | some prompt, n => .woven (encode prompt) n

end Console

/-- What is written for a line that is no text. -/
def unreadable : Bytes := encode (Report.unreadableLine .notText).message ++ [newline]

namespace World.Abreast

variable {prompt : Option String} {here there : Source} {shown said : Nat} {P Q : Console.Pace}
  {direct s : Session}

theorem showPrompt
    (h : direct.world.Abreast (.prompted prompt shown) Q here there s.world) :
    direct.world.Abreast (.prompted prompt (shown + 1)) Q here there
      (s.showPrompt prompt).world := by
  obtain ⟨hsource, console, errors, hconsole, herrors, hworld⟩ := h
  cases prompt with
  | none => exact ⟨hsource, console, errors, hconsole, herrors, hworld⟩
  | some prompt =>
    refine ⟨hsource, console.append (encode prompt), errors, ⟨hconsole.1, hconsole.2.besides⟩,
      herrors, ?_⟩
    rw [Session.showPrompt, hworld]
    simp only
    rw [Console.write_eq_append (hconsole.2.room_eq.trans hconsole.1)]

theorem reportUnreadable
    (h : direct.world.Abreast P (.woven unreadable said) here there s.world) :
    direct.world.Abreast P (.woven unreadable (said + 1)) here there
      (s.report (.unreadableLine .notText)).world := by
  obtain ⟨hsource, console, errors, hconsole, herrors, hworld⟩ := h
  refine ⟨hsource, console, errors.append unreadable, hconsole, ⟨herrors.1, herrors.2.besides⟩, ?_⟩
  rw [Session.report, hworld, World.complain]
  simp only
  rw [Console.write_eq_append (herrors.2.room_eq.trans herrors.1)]
  rfl

theorem withSource (h : direct.world.Abreast P Q here there s.world) (source : Source) :
    direct.world.Abreast P Q here source (s.withSource source).world := by
  obtain ⟨hsource, console, errors, hconsole, herrors, hworld⟩ := h
  exact ⟨hsource, console, errors, hconsole, herrors, by rw [Session.withSource, hworld]⟩

end World.Abreast

namespace Session

variable {table : VerbTable} {prompt : Option String} {here : Source} {shown said : Nat}
  {direct s later : Session} {bytes : Bytes} {line : String} {read left : List Bytes}

/-! ## Lines that are executed directly -/

/-- Executes lines one after the other. -/
def executeAll (table : VerbTable) (lines : List String) (s : Session) : Session :=
  lines.foldl (fun s line => (executeLine table line s).2) s

/-- The lines of a script that are text. -/
def scriptOf (script : List Bytes) : List String := script.filterMap lineOfInput?

/-- Of the lines, none that is executed before the session is to end reads from the session's own
input. -/
def ScriptLeavesInput (table : VerbTable) : Session → List String → Prop
  | _, [] => True
  | s, line :: rest =>
    s.world.env.exiting = true
      ∨ LeavesInput table (Job.ofText line) s
        ∧ ScriptLeavesInput table (executeLine table line s).2 rest

/-- The status behind some lines: that of the last one, which is 1 if it is no text. -/
def statusBehind (read : List Bytes) (begun direct : Int) : Int :=
  match read.getLast? with
  | none => begun
  | some bytes => if (lineOfInput? bytes).isSome then direct else 1

/-- In front of other lines a line decides nothing. -/
theorem statusBehind_cons_cons (bytes next : Bytes) (read : List Bytes) (begun other direct : Int) :
    statusBehind (bytes :: next :: read) begun direct
      = statusBehind (next :: read) other direct := by
  rw [statusBehind, statusBehind, List.getLast?_cons_cons]
  rcases hlast : (next :: read).getLast? with _ | last
  · exact absurd (List.getLast?_eq_none_iff.mp hlast) (List.cons_ne_nil _ _)
  · rfl

/-! ## The loop over a script -/

/-- What the loop has done that began with the session `s`. It has read some lines of the input and
left the others. The session `direct` is abreast of `s`, but for what the loop itself has written by
then, which is a number of prompts that were shown and of reports that were said. -/
structure Scripted (table : VerbTable) (prompt : Option String) (shown said : Nat)
    (direct s later : Session) (read left : List Bytes) : Prop where
  lines : inputLines s.world.source.bytes = read ++ left
  /-- It has passed on the lines that are text, and reported the others, in order. -/
  loop : Loop table prompt s (read.map Round.ofLine) later
  /-- Before each of these lines the session was not to end. -/
  going : ∀ earlier behind, read = earlier ++ behind → behind ≠ [] →
    (direct.executeAll table (scriptOf earlier)).world.env.exiting = false
  /-- If a line is left, the session is to end. -/
  ended : left ≠ [] → (direct.executeAll table (scriptOf read)).world.env.exiting = true
  unread : later.world.source.bytes = left.flatten
  /-- The world is that behind a direct execution, but for the input, a prompt for each read, and a
  report for each line that is no text. -/
  world :
    let ran := direct.executeAll table (scriptOf read)
    ran.world.Abreast
      (.prompted prompt (shown + (read.length + if ran.world.env.exiting then 0 else 1)))
      (.woven unreadable (said + read.countP fun bytes => (lineOfInput? bytes).isNone))
      direct.world.source later.world.source later.world
  status : later.status
    = statusBehind read s.status (direct.executeAll table (scriptOf read)).status

/-- Between two states of the loop there is a read of one line. -/
theorem nextLine_cons {rest : List Bytes} (hfinished : s.world.source.ending = .finished)
    (hlines : inputLines s.world.source.bytes = bytes :: rest) :
    ∃ source, (s.showPrompt prompt).nextLine
        = (.ok bytes, (s.showPrompt prompt).withSource source)
      ∧ bytes ≠ [] ∧ inputLines source.bytes = rest ∧ source.ending = .finished := by
  have hsome : s.world.source.bytes ≠ [] := by
    intro hnil
    rw [hnil] at hlines
    exact nomatch hlines
  rw [inputLines_eq hsome] at hlines
  injection hlines with hfirst hrest
  obtain ⟨source, hread, hbehind, hending⟩ := s.nextLine_prompted prompt hfinished
  rw [hfirst] at hread
  exact ⟨source, hread, hfirst ▸ cutAfter_fst_ne_nil hsome, by rw [hbehind, hrest], hending⟩

/-- One round in front of the others. Whether the line is executed or reported, the sessions behind
it are abreast again, with one more prompt, and with one more report in the second case. -/
theorem Scripted.cons {next after : Session} {rest : List Bytes} {saidNext : Nat}
    (h : Scripted table prompt (shown + 1) saidNext after next later read left)
    (hsaid : saidNext = said + if (lineOfInput? bytes).isNone then 1 else 0)
    (hstays : direct.world.env.exiting = false)
    (hlines : inputLines s.world.source.bytes = bytes :: rest)
    (hrest : inputLines next.world.source.bytes = rest)
    (hround : ∀ rounds, Loop table prompt next rounds later →
      Loop table prompt s (Round.ofLine bytes :: rounds) later)
    (hscript : ∀ others, direct.executeAll table (scriptOf (bytes :: others))
      = after.executeAll table (scriptOf others))
    (hsource : after.world.source = direct.world.source)
    (hstatus : next.status = if (lineOfInput? bytes).isSome then after.status else 1) :
    Scripted table prompt shown said direct s later (bytes :: read) left := by
  constructor
  case lines =>
    rw [hlines, ← hrest, h.lines]
    rfl
  case loop => exact hround _ h.loop
  case going =>
    intro earlier behind hsplit hbehind
    rcases earlier with _ | ⟨first, earlier⟩
    · exact hstays
    · injection hsplit with hfirst hrest
      subst hfirst
      rw [hscript]
      exact h.going earlier behind hrest hbehind
  case ended =>
    rw [hscript]
    exact h.ended
  case unread => exact h.unread
  case world =>
    have hworld := h.world
    simp only [hsource, hsaid] at hworld
    simp only [hscript, List.length_cons, List.countP_cons]
    rw [Nat.add_right_comm read.length, Nat.add_comm _ 1, ← Nat.add_assoc shown,
      Nat.add_comm (read.countP _), ← Nat.add_assoc said]
    exact hworld
  case status =>
    rw [h.status, hscript]
    rcases read with _ | ⟨other, read⟩
    · exact hstatus
    · exact (statusBehind_cons_cons bytes other read _ _ _).symm

/-- Where the session is to end, no line is read any more. -/
theorem Scripted.leave {script : List Bytes} (hexiting : direct.world.env.exiting = true)
    (h : direct.world.Abreast (.prompted prompt shown) (.woven unreadable said) direct.world.source
      s.world.source s.world)
    (hlines : inputLines s.world.source.bytes = script) :
    Scripted table prompt shown said direct s s [] script where
  lines := hlines
  loop := .leaving (by rw [h.env_eq, hexiting])
  going := fun earlier behind hsplit hbehind =>
    absurd (List.append_eq_nil_iff.mp hsplit.symm).2 hbehind
  ended := fun _ => hexiting
  unread := by rw [← hlines, flatten_inputLines]
  world := by
    show direct.world.Abreast
      (.prompted prompt (shown + (0 + if direct.world.env.exiting then 0 else 1)))
      (.woven unreadable (said + 0)) direct.world.source s.world.source s.world
    rw [hexiting]
    exact h
  status := rfl

/-- Where no line is left, one more prompt is shown, and the read meets the end. -/
theorem Scripted.finish (hstays : direct.world.env.exiting = false)
    (h : direct.world.Abreast (.prompted prompt shown) (.woven unreadable said) direct.world.source
      s.world.source s.world)
    (hfinished : s.world.source.ending = .finished)
    (hlines : inputLines s.world.source.bytes = []) :
    ∃ later, Scripted table prompt shown said direct s later [] [] := by
  have hempty : s.world.source.bytes = [] := by
    rw [← flatten_inputLines s.world.source.bytes, hlines]
    rfl
  obtain ⟨source, hread, hbehind, -⟩ := s.nextLine_prompted prompt hfinished
  rw [hempty] at hread hbehind
  refine ⟨(s.showPrompt prompt).withSource source, ?_⟩
  constructor
  case lines => exact hlines
  case loop => exact .ended (by rw [h.env_eq, hstays]) hread
  case going =>
    intro earlier behind hsplit hbehind
    exact absurd (List.append_eq_nil_iff.mp hsplit.symm).2 hbehind
  case ended => exact fun hleft => absurd rfl hleft
  case unread => exact hbehind
  case world =>
    have hshown := h.showPrompt.withSource source
    show direct.world.Abreast
      (.prompted prompt (shown + (0 + if direct.world.env.exiting then 0 else 1)))
      (.woven unreadable (said + 0)) direct.world.source source _
    rw [hstays]
    exact hshown
  case status => exact showPrompt_status s prompt

/-- **The loop executes the lines of a script**, up to the one behind which the session is to
end. -/
theorem exists_scripted {script : List Bytes}
    (hreturns : ∀ (line : String) (s : Session), (executeLine table line s).1 = .returned)
    (h : direct.world.Abreast (.prompted prompt shown) (.woven unreadable said) direct.world.source
      s.world.source s.world)
    (hfinished : s.world.source.ending = .finished)
    (hlines : inputLines s.world.source.bytes = script)
    (hleaves : ScriptLeavesInput table direct (scriptOf script)) :
    ∃ read left later, Scripted table prompt shown said direct s later read left := by
  induction script generalizing direct s shown said with
  | nil =>
    rcases hexiting : direct.world.env.exiting with _ | _
    · obtain ⟨later, hlater⟩ := Scripted.finish hexiting h hfinished hlines
      exact ⟨[], [], later, hlater⟩
    · exact ⟨[], [], s, .leave hexiting h hlines⟩
  | cons bytes rest ih =>
    rcases hexiting : direct.world.env.exiting with _ | _
    · have hstays : s.world.env.exiting = false := by rw [h.env_eq, hexiting]
      obtain ⟨source, hread, hbytes, hrest, hending⟩ := nextLine_cons hfinished hlines
      have habreast := h.showPrompt.withSource source
      rcases hline : lineOfInput? bytes with _ | line
      · -- reported and skipped: what is to be executed directly is the same as before
        have hscript : ∀ others, scriptOf (bytes :: others) = scriptOf others :=
          fun others => List.filterMap_cons_none hline
        rw [hscript] at hleaves
        obtain ⟨read, left, later, hlater⟩ :=
          @ih _ _ direct
            (((s.showPrompt prompt).withSource source).report (.unreadableLine .notText))
            habreast.reportUnreadable hending hrest hleaves
        refine ⟨bytes :: read, left, later,
          hlater.cons (by rw [hline]; rfl) hexiting hlines hrest ?_ ?_ rfl (by rw [hline]; rfl)⟩
        · intro rounds hrounds
          rw [Round.ofLine, hline]
          exact .skipped hstays hread hbytes hline hrounds
        · exact fun others => by rw [hscript]
      · -- executed in both sessions
        have hscript : ∀ others, scriptOf (bytes :: others) = line :: scriptOf others :=
          fun others => List.filterMap_cons_some hline
        rw [hscript] at hleaves
        obtain ⟨hleavesLine, hleavesRest⟩ := hleaves.resolve_left (by rw [hexiting]; exact nofun)
        obtain ⟨-, hstatus, hran⟩ := executeLine_abreast habreast hleavesLine
        have hexecuted : executeLine table line ((s.showPrompt prompt).withSource source)
            = (.returned,
              (executeLine table line ((s.showPrompt prompt).withSource source)).2) := by
          rw [← hreturns line ((s.showPrompt prompt).withSource source)]
        generalize (executeLine table line ((s.showPrompt prompt).withSource source)).2 = ran
          at hexecuted hstatus hran
        have hsource : ran.world.source = source := hran.source_there
        obtain ⟨read, left, later, hlater⟩ := @ih _ _ (executeLine table line direct).2 ran
          (by rw [hran.source, hsource]; exact hran) (by rw [hsource, hending])
          (by rw [hsource, hrest]) hleavesRest
        refine ⟨bytes :: read, left, later, hlater.cons (by rw [hline]; rfl) hexiting hlines
          (by rw [hsource, hrest]) ?_ ?_ hran.source (by rw [hline]; exact hstatus.symm)⟩
        · intro rounds hrounds
          rw [Round.ofLine, hline]
          exact .passed hstays hread hbytes hline hexecuted hrounds
        · exact fun others => by rw [hscript]; rfl
    · exact ⟨[], bytes :: rest, s, .leave hexiting h hlines⟩

/-! ## The result -/

/-- With the standard table no line breaks off. -/
theorem execute_standard_returned (job : Job) (s : Session) :
    (execute .standard job s).1 = .returned := by
  induction job generalizing s with
  | blank => rfl
  | malformed e => rfl
  | simple command => exact dispatch_standard_returned command _
  | redirect job target mode ih =>
    rw [execute]
    rcases hopen : { s with status := 0 }.openOutput (s.world.env.locate target) mode with
      e | opened
    · rw [redirect_of_error hopen]
    · rw [redirect_of_opened hopen, ih]
      generalize (execute .standard job opened).2.flushOutput = flushed
      rcases flushed with ⟨e | _, after⟩ <;> rfl
  | pipe left right ih =>
    rw [execute, pipe_of_returned (ih _)]
    simp only
    split
    · exact dispatch_standard_returned right _
    · rfl

/-- **The loop runs each line of a script once, and stops behind the line that asks for it.**  The
input is a script, whatever its bytes, of which no line that is executed reads from the input
itself.  The loop comes to an end.  It has read the lines up to the first one behind which the
session is to end, has executed those that are text, in order, and has reported and skipped the
others; and apart from its own prompts and reports, and from the status behind a report, it leaves
the session that executing the same lines directly leaves. -/
theorem runInput_executes_script {prompt : Option String} {s : Session}
    (hfinished : s.world.source.ending = .finished) (herrors : s.world.errors.room = none)
    (hconsole : prompt = none ∨ s.world.console.room = none)
    (hleaves : ScriptLeavesInput .standard s (scriptOf (inputLines s.world.source.bytes))) :
    ∃ read left, Scripted .standard prompt 0 0 s s (s.runInput .standard prompt) read left := by
  have hstart : s.world.Abreast (.prompted prompt 0) (.woven unreadable 0) s.world.source
      s.world.source s.world := by
    refine ⟨rfl, s.world.console, s.world.errors, ?_, ⟨herrors, .same _⟩, rfl⟩
    cases prompt with
    | none => rfl
    | some prompt => exact ⟨hconsole.resolve_left nofun, .same _⟩
  obtain ⟨read, left, later, hscripted⟩ := exists_scripted
    (fun line s => execute_standard_returned (Job.ofText line) s) hstart hfinished rfl hleaves
  -- there is one way for the loop to go, and the count of rounds does not cut it short
  obtain ⟨rounds, hrun⟩ := @loop_runInput .standard prompt s hfinished
  obtain ⟨-, rfl⟩ := hrun.unique hscripted.loop
  exact ⟨read, left, hscripted⟩

/-- A script with a line that is no text, and a line behind the one that ends the session. -/
def leavingScript : Session :=
  { quiet with world := { quiet.world with
      source := .ofBytes (encode "pwd\n" ++ [0xff, newline] ++ encode "exit | cat\npwd\n") } }

/-- The last line is not read any more. -/
theorem runInput_executes_script_leaving :
    (leavingScript.world.source.ending = .finished ∧ leavingScript.world.errors.room = none)
      ∧ (leavingScript.runInput .standard none).world.source.bytes = encode "pwd\n"
      ∧ (leavingScript.runInput .standard none).world.errors.bytes
        = encode "Error reading input: stream did not contain valid UTF-8\n"
      ∧ ∃ read left,
        Scripted .standard none 0 0 leavingScript leavingScript
          (leavingScript.runInput .standard none) read left := by
  have hleaves : ScriptLeavesInput .standard leavingScript
      (scriptOf (inputLines leavingScript.world.source.bytes)) := by
    have hlines : scriptOf (inputLines leavingScript.world.source.bytes)
        = ["pwd", "exit | cat", "pwd"] := by decide +kernel
    rw [hlines]
    refine .inr ⟨?_, .inr ⟨?_, .inl (by decide +kernel)⟩⟩
    · unfold LeavesInput
      decide +kernel
    · unfold LeavesInput
      decide +kernel
  exact ⟨⟨rfl, rfl⟩, by decide +kernel, by decide +kernel,
    runInput_executes_script rfl rfl (.inl rfl) hleaves⟩

end Session

end LineShell
