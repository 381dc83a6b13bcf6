/-
What the verbs do whether or not they are heard.

A run of a verb on the console may be cut short: the first print that is not taken ends it, except
that `mv` goes on with the next source.  The verbs differ in what is lost by that.  Most of them do
nothing behind the first line that they print (`SpeaksLast`), and `ls` only prints more lines.
Behind such a run, and behind one that was heard to its end, the worlds are alike
(`Action.Settles`).  `cat` reads on only as long as it is heard, but neither the files nor the
environment are changed by what it does (`Action.Inert`).  `exit` alone acts behind its message.
-/
import LineShell.Proofs.Session.Alike
import LineShell.Proofs.Verbs.Environments
import LineShell.Proofs.Verbs.Moves
import LineShell.Proofs.Verbs.Reporting

set_option autoImplicit false

namespace LineShell

open LineShell.Text

/-- The console takes all of some bytes, written at once. -/
def Console.takes (c : Console) (data : Bytes) : Bool := (c.write data).1.isOk

namespace Action

variable {α β : Type} {m : Action α} {f : α → Action β} {u v w : World}

/-- The console stays the output of a command. -/
theorem run_console_output (a : Action α) (h : w.output = .console) :
    (a.run w).2.output = .console :=
  (a.run_sameStreams w).output.console_iff.mp h

/-! ## Commands that do not print -/

/-- A command that goes through the same run in alike worlds, wherever its output goes. -/
def Steady (a : Action α) : Prop :=
  ∀ u v : World, u.Alike v → (a.run u).1 = (a.run v).1 ∧ (a.run u).2.Alike (a.run v).2

/-- A command behind which alike worlds are alike, even if it ended earlier in one of them. -/
def Settles (a : Action α) : Prop := ∀ u v : World, u.Alike v → (a.run u).2.Alike (a.run v).2

namespace Steady

/-- Behind a steady command the same command follows in both worlds, or none in either. -/
theorem bind_cases (hm : m.Steady) (h : u.Alike v) (f : α → Action β) :
    ∃ u' v', u'.Alike v'
      ∧ ((∃ a, (m >>= f).run u = (f a).run u' ∧ (m >>= f).run v = (f a).run v')
        ∨ ∃ ended, (m >>= f).run u = (ended, u') ∧ (m >>= f).run v = (ended, v')) := by
  obtain ⟨hended, halike⟩ := hm u v h
  rw [run_bind, run_bind]
  rcases hleft : m.run u with ⟨a | failure | message, u'⟩
  all_goals
    rcases hright : m.run v with ⟨ended, v'⟩
    rw [hleft, hright] at hended halike
    subst hended
  · exact ⟨u', v', halike, .inl ⟨a, rfl, rfl⟩⟩
  · exact ⟨u', v', halike, .inr ⟨_, rfl, rfl⟩⟩
  · exact ⟨u', v', halike, .inr ⟨_, rfl, rfl⟩⟩

theorem bind (hm : m.Steady) (hf : ∀ a, (f a).Steady) : (m >>= f).Steady := by
  intro u v h
  obtain ⟨u', v', halike, ⟨a, hleft, hright⟩ | ⟨ended, hleft, hright⟩⟩ := hm.bind_cases h f
  · rw [hleft, hright]
    exact hf a u' v' halike
  · rw [hleft, hright]
    exact ⟨rfl, halike⟩

theorem andThen (hm : m.Steady) (hf : ∀ a, (f a).Settles) : (m >>= f).Settles := by
  intro u v h
  obtain ⟨u', v', halike, ⟨a, hleft, hright⟩ | ⟨ended, hleft, hright⟩⟩ := hm.bind_cases h f
  · rw [hleft, hright]
    exact hf a u' v' halike
  · rw [hleft, hright]
    exact halike

theorem ask {r : Request} (hr : ∀ data, r ≠ .print data) : (Action.ask r).Steady := by
  intro u v h
  obtain ⟨hreply, hafter⟩ := h.answer fun _ => hr
  exact ⟨congrArg Outcome.done hreply, hafter⟩

theorem sequential : Sequential fun _ => Steady where
  done := fun _ _ _ h => ⟨rfl, h⟩
  fail := fun _ _ _ h => ⟨rfl, h⟩
  bind := bind
  ask := fun _ hprint _ _ => ask hprint

end Steady

/-! ## Commands that do nothing but speak -/

/-- On the console and the error stream, a command does nothing but speak. -/
def Speaks (a : Action α) : Prop :=
  ∀ w : World, w.output = .console → w.errors.room = none → w.Alike (a.run w).2

namespace Speaks

theorem done (a : α) : (Action.done a).Speaks := fun _ _ hroom => .refl hroom

theorem fail (failure : Failure) : (Action.fail failure : Action α).Speaks :=
  fun _ _ hroom => .refl hroom

/-- Speaking behind a command adds nothing to what the command does. -/
theorem behind (hf : ∀ a, (f a).Speaks) (m : Action α) (hconsole : w.output = .console)
    (hroom : w.errors.room = none) : (m.run w).2.Alike ((m >>= f).run w).2 := by
  have hconsoleAfter := m.run_console_output hconsole
  have hroomAfter := m.run_room hroom
  rw [run_bind]
  rcases hrun : m.run w with ⟨a | failure | message, u⟩
  all_goals rw [hrun] at hconsoleAfter hroomAfter
  · exact hf a u hconsoleAfter hroomAfter
  · exact .refl hroomAfter
  · exact .refl hroomAfter

theorem bind (hm : m.Speaks) (hf : ∀ a, (f a).Speaks) : (m >>= f).Speaks := by
  intro w hconsole hroom
  exact (hm w hconsole hroom).trans (behind hf m hconsole hroom)

theorem print (data : Bytes) : (Action.print data).Speaks := by
  intro w hconsole hroom
  have hprint : w.print data
      = ((w.console.write data).1, { w with console := (w.console.write data).2 }) := by
    rw [World.print, hconsole]
  rw [run_print_eq, hprint]
  rcases w.console.write data with ⟨e | ⟨⟩, console⟩
  · exact ⟨hroom, console, w.errors, hroom, rfl⟩
  · exact ⟨hroom, console, w.errors, hroom, rfl⟩

theorem printing : Printing fun _ => Speaks := ⟨done, bind, print⟩

theorem printLine (pieces : List String) : (Action.printLine pieces).Speaks :=
  printing.printLine pieces

theorem complain (message : String) : (Action.complain message).Speaks := by
  intro w _ hroom
  rw [run_complain hroom]
  exact ⟨hroom, w.console, w.errors.append (encode message ++ [newline]), hroom, rfl⟩

theorem settles {a : Action α} (h : a.Speaks) : a.Settles := by
  intro u v halike
  by_cases hconsole : u.output = .console
  · have hconsoleThere : v.output = .console := halike.output_eq.trans hconsole
    exact (h u hconsole halike.room).symm.trans
      (halike.trans (h v hconsoleThere halike.symm.room))
  · exact (a.run_alike halike hconsole).2

end Speaks

namespace Settles

/-- Where one run has ended earlier, the other may speak on. -/
theorem andSpeaks (hm : m.Settles) (hf : ∀ a, (f a).Speaks) : (m >>= f).Settles := by
  intro u v halike
  -- off the console nothing is cut short, and the runs are the same
  by_cases hconsole : u.output = .console
  · have hconsoleThere : v.output = .console := halike.output_eq.trans hconsole
    have hleft := Speaks.behind hf m hconsole halike.room
    have hright := Speaks.behind hf m hconsoleThere halike.symm.room
    exact hleft.symm.trans ((hm u v halike).trans hright)
  · exact ((m >>= f).run_alike halike hconsole).2

theorem attempt (hm : m.Settles) : m.attempt.Settles := by
  have hsame : ∀ w, (m.attempt.run w).2 = (m.run w).2 := by
    intro w
    rw [run_attempt]
    rcases m.run w with ⟨a | failure | message, u⟩ <;> rfl
  intro u v halike
  rw [hsame, hsame]
  exact hm u v halike

/-- Of the verbs that speak last, a print that is not taken takes nothing away. -/
theorem speaksLast : SpeaksLast (fun _ => Steady) Settles where
  toSequential := Steady.sequential
  giveUp := fun failure => (Speaks.fail failure).settles
  andThen := Steady.andThen
  speaks := fun pieces => ((Speaks.printLine pieces).bind fun _ => .done 0).settles

end Settles

/-! ## Commands that change nothing -/

/-- On the console, a command changes neither the files nor the environment. -/
def Inert (a : Action α) : Prop := ∀ w : World, w.output = .console → w.Agrees (a.run w).2

namespace Inert

theorem done (a : α) : (Action.done a).Inert := fun w _ => .refl w

theorem fail (failure : Failure) : (Action.fail failure : Action α).Inert := fun w _ => .refl w

theorem bind (hm : m.Inert) (hf : ∀ a, (f a).Inert) : (m >>= f).Inert := by
  intro w hconsole
  have hfirst := hm w hconsole
  have hconsoleAfter := m.run_console_output hconsole
  rw [run_bind]
  rcases hrun : m.run w with ⟨a | failure | message, u⟩
  all_goals rw [hrun] at hfirst hconsoleAfter
  · exact hfirst.trans (hf a u hconsoleAfter)
  · exact hfirst
  · exact hfirst

theorem attempt (hm : m.Inert) : m.attempt.Inert := by
  intro w hconsole
  have hrun := hm w hconsole
  rw [run_attempt]
  revert hrun
  rcases m.run w with ⟨a | failure | message, u⟩ <;> exact id

/-- A request that asks for no change is inert. -/
theorem ask {r : Request} (hset : ∀ env, r ≠ .setEnvironment env)
    (hcalls : ∀ fs : FileSystem, fs.performAll r.calls = fs) : (Action.ask r).Inert := by
  intro w hconsole
  have hfileless : w.output.IsFileless := by
    rw [hconsole]
    exact fun _ => nofun
  exact ⟨((World.files_answer hfileless r).trans (hcalls w.files)).symm, (w.env_answer hset).symm⟩

theorem orGiveUp (result : Except IoError α) : (Action.orGiveUp result).Inert := by
  cases result with
  | error e => exact fail _
  | ok a => exact done a

theorem print (data : Bytes) : (Action.print data).Inert :=
  bind (ask (fun _ => nofun) fun _ => rfl) fun _ => orGiveUp _

theorem complain (message : String) : (Action.complain message).Inert :=
  bind (ask (fun _ => nofun) fun _ => rfl) fun _ => orGiveUp _

theorem printing : Printing fun _ => Inert := ⟨done, bind, print⟩

theorem echoLines (n : Nat) : (Verbs.echoLines n).Inert := by
  induction n with
  | zero => exact done ()
  | succ n ih =>
    apply bind (ask (r := .readUntil newline) (fun _ => nofun) fun _ => rfl)
    intro reply
    cases reply with
    | error e => exact fail _
    | ok line =>
      show Inert (if line.isEmpty = true then Pure.pure () else _)
      split
      · exact done ()
      · exact bind (printing.printText line) fun _ => ih

theorem echo : Verbs.echo.Inert :=
  bind (ask (fun _ => nofun) fun _ => rfl) fun _ => echoLines _

theorem printFile (operand : String) : (Verbs.printFile operand).Inert := by
  have hlocate : (Action.locate operand).Inert :=
    bind (ask (fun _ => nofun) fun _ => rfl) fun _ => done _
  apply bind hlocate
  intro p
  apply bind (ask (r := .files (.read p)) (fun _ => nofun) fun _ => rfl)
  intro reply
  cases reply with
  | error e => exact bind (complain _) fun _ => done 1
  | ok bytes => exact bind (printing.printText bytes) fun _ => done 0

theorem printFiles (status : Int) (operands : List String) :
    (Verbs.printFiles status operands).Inert := by
  induction operands generalizing status with
  | nil => exact done status
  | cons operand operands ih => exact bind (printFile operand) fun _ => ih _

theorem cat (args : Arguments) : (Verbs.cat.body args).Inert := by
  show Inert (if args.operands.isEmpty = true then _ else Verbs.printFiles 0 args.operands)
  split
  · apply bind echo.attempt
    intro ended
    cases ended with
    | error failure => exact fail _
    | ok _ => exact done 0
  · exact printFiles 0 args.operands

end Inert

/-! ## Moving and listing -/

namespace Settles

theorem moveEntry (shown : String) (source target : Path) :
    (Verbs.moveEntry shown source target).Settles := by
  apply (Steady.sequential.mayOverwrite target).andThen
  intro allowed
  cases allowed with
  | false => exact (Speaks.printLine _).settles
  | true =>
    apply (Steady.sequential.renameOrCopy source target).andThen
    intro result
    apply (Steady.sequential.orFail result _).andThen
    intro _
    exact (Speaks.printLine _).settles

theorem moveInto (shown : String) (dest : Path) : (Verbs.moveInto shown dest).Settles := by
  apply (Steady.sequential.locate shown).andThen
  intro source
  apply (Steady.sequential.isEntry source).andThen
  intro entry
  cases entry with
  | false => exact (Speaks.fail _).settles
  | true =>
    rw [if_pos rfl]
    split
    · exact moveEntry shown source _
    · exact (Speaks.fail _).settles

theorem moveOne (shown : String) (dest : Path) : (Verbs.moveOne shown dest).Settles := by
  apply (Steady.sequential.locate shown).andThen
  intro source
  apply (Steady.sequential.isEntry source).andThen
  intro entry
  cases entry with
  | false => exact (Speaks.fail _).settles
  | true =>
    apply (Steady.sequential.targetOf source dest).andThen
    intro target
    exact (moveEntry shown source target).andSpeaks fun _ => .done 0

/-- What becomes of one of several sources is told as a complaint, and is no failure of the loop. -/
theorem exists_run_tryMove (shown : String) (dest : Path) (hroom : w.errors.room = none) :
    ∃ moved u, (Verbs.tryMove shown dest).run w = (.done moved, u) := by
  have hcalm := (Calm.composable.moveInto shown dest).run_ne_panicked w
  have hroomAfter := (Verbs.moveInto shown dest).run_room hroom
  unfold Verbs.tryMove
  rw [run_bind, run_attempt]
  rcases hrun : (Verbs.moveInto shown dest).run w with ⟨⟨⟩ | failure | message, u⟩
  · exact ⟨true, u, rfl⟩
  · rw [hrun] at hroomAfter
    simp only
    rw [run_bind, run_complain hroomAfter]
    exact ⟨false, _, rfl⟩
  · rw [hrun] at hcalm
    exact absurd rfl (hcalm message)

theorem tryMove (shown : String) (dest : Path) : (Verbs.tryMove shown dest).Settles := by
  apply (moveInto shown dest).attempt.andSpeaks
  intro ended
  cases ended with
  | error failure => exact (Speaks.complain _).bind fun _ => .done false
  | ok _ => exact .done true

/-- A source that was not heard to be moved counts as one that failed, and the next one is tried.
So two runs stay together, and only their statuses differ. -/
theorem moveAll_alike (status other : Int) (dest : Path) (sources : List String) (h : u.Alike v) :
    ((Verbs.moveAll status dest sources).run u).2.Alike
      ((Verbs.moveAll other dest sources).run v).2 := by
  -- the statuses differ from the first source on that only one run was heard to move
  induction sources generalizing u v status other with
  | nil => exact h
  | cons shown sources ih =>
    -- neither loop stops at this source, whatever became of it
    obtain ⟨moved, u', hleft⟩ := exists_run_tryMove shown dest h.room
    obtain ⟨movedThere, v', hright⟩ := exists_run_tryMove shown dest h.symm.room
    have halike := tryMove shown dest u v h
    rw [hleft, hright] at halike
    rw [Verbs.moveAll_cons, Verbs.moveAll_cons, run_bind, run_bind, hleft, hright]
    exact ih _ _ halike

theorem moveTo (sources : List String) (shown : String) : (Verbs.moveTo sources shown).Settles := by
  apply (Steady.sequential.locate shown).andThen
  intro dest
  split
  · exact moveOne _ dest
  · apply (Steady.sequential.isDirectory dest).andThen
    intro directory
    cases directory with
    | false => exact (Speaks.fail _).settles
    | true => exact fun u v h => moveAll_alike 0 0 dest _ h

theorem mv (args : Arguments) : (Verbs.mv.body args).Settles := by
  unfold Verbs.mv
  dsimp only
  split
  · exact moveTo _ _
  · exact (Speaks.fail _).settles

theorem listDirectory (shown : String) (dir : Path) (all reversed : Bool) :
    (Verbs.listDirectory shown dir all reversed).Settles := by
  apply (Steady.sequential.isDirectory dir).andThen
  intro directory
  cases directory with
  | false => exact (Speaks.fail _).settles
  | true =>
    apply (Steady.sequential.call (.list dir)).andThen
    intro reply
    cases reply with
    | error e => exact (Speaks.fail _).settles
    | ok names =>
      apply Speaks.settles
      apply (Speaks.printLine _).bind
      intro _
      exact (Speaks.printing.printNames _).bind fun _ => .done 0

theorem ls (args : Arguments) : (Verbs.ls.body args).Settles := by
  apply Steady.sequential.environment.andThen
  intro env
  split
  · exact listDirectory _ _ _ _
  · exact listDirectory _ _ _ _

/-- The bodies of the verbs but `cat` and `exit` come to the same whether or not they are heard. -/
theorem body {b : Builtin} (hb : b ∈ VerbTable.builtins) (hcat : b ≠ Verbs.cat)
    (hexit : b ≠ Verbs.exit) (args : Arguments) : (b.body args).Settles := by
  simp only [VerbTable.builtins, List.mem_cons, List.not_mem_nil, or_false] at hb
  -- the verbs in the order of the table, from `exit` to `cd`
  rcases hb with rfl | rfl | rfl | rfl | rfl | rfl | rfl | rfl | rfl | rfl | rfl
  · exact absurd rfl hexit
  · exact speaksLast.speaks _
  · exact (Steady.sequential.firstOperand args _).andThen fun _ => speaksLast.makeDirectory _
  · exact (Steady.sequential.firstOperand args _).andThen fun _ => speaksLast.removeDirectory _
  · exact (Steady.sequential.firstOperand args _).andThen fun _ => speaksLast.touchFile _
  · exact (Steady.sequential.firstOperand args _).andThen fun _ => speaksLast.removeFile _
  · exact absurd rfl hcat
  · exact mv args
  · exact ls args
  · exact Steady.sequential.environment.andThen fun _ => speaksLast.speaks _
  · apply speaksLast.changeDirectory
    intro env
    apply Steady.ask
    intro data h
    cases h

end Settles

end Action

/-! ## Handlers -/

namespace Builtin

open LineShell.Action

variable {b : Builtin} {body : Action Int} {u v : World}

theorem reporting_settles (h : body.Settles) : (reporting body).Settles := by
  apply h.attempt.andSpeaks
  intro ended
  cases ended with
  | error failure => exact (Speaks.complain _).bind fun _ => .done 1
  | ok status => exact .done status

theorem reporting_inert (h : body.Inert) : (reporting body).Inert := by
  apply h.attempt.bind
  intro ended
  cases ended with
  | error failure => exact (Inert.complain _).bind fun _ => .done 1
  | ok status => exact .done status

/-- Words that do not reach a body are answered, and nothing else is done. -/
theorem handler_settles {tokens : List String}
    (h : ∀ args, b.signature.read (flagsFirst tokens.tail) = .accepted args →
      (b.body args).Settles) :
    (b.handler tokens).Settles := by
  unfold handler
  split
  · rename_i args hread
    exact reporting_settles (h args hread)
  · exact ((Speaks.printLine _).bind fun _ => .done 0).settles
  · exact ((Speaks.complain _).bind fun _ => .done 1).settles

theorem handler_of_accepted {tokens : List String} {args : Arguments}
    (h : b.signature.read (flagsFirst tokens.tail) = .accepted args) :
    b.handler tokens = reporting (b.body args) := by
  unfold handler
  rw [h]

/-- What `cat` prints is read, and nothing is changed by that. -/
theorem handler_cat_agrees {tokens : List String} (h : u.Alike v) (hconsole : u.output = .console) :
    ((Verbs.cat.handler tokens).run u).2.Agrees ((Verbs.cat.handler tokens).run v).2 := by
  by_cases haccepted : ∃ args, Verbs.cat.signature.read (flagsFirst tokens.tail) = .accepted args
  · obtain ⟨args, hread⟩ := haccepted
    have hinert := reporting_inert (Inert.cat args)
    have hconsoleThere : v.output = .console := h.output_eq.trans hconsole
    rw [handler_of_accepted hread]
    exact (hinert u hconsole).symm.trans (h.agrees.trans (hinert v hconsoleThere))
  · have hsettles : (Verbs.cat.handler tokens).Settles := by
      apply handler_settles
      intro args hread
      exact absurd ⟨args, hread⟩ haccepted
    exact (hsettles u v h).agrees

/-- Unless it is `exit` with words that are accepted, a verb does the same whether or not it is
heard. -/
theorem handler_agrees (hb : b ∈ VerbTable.builtins) {tokens : List String}
    (hexit : b = Verbs.exit → ∀ args, b.signature.read (flagsFirst tokens.tail) ≠ .accepted args)
    (h : u.Alike v) : ((b.handler tokens).run u).2.Agrees ((b.handler tokens).run v).2 := by
  by_cases hconsole : u.output = .console
  · by_cases hcat : b = Verbs.cat
    · subst hcat
      exact handler_cat_agrees h hconsole
    · have hsettles : (b.handler tokens).Settles := by
        apply handler_settles
        intro args hread
        exact Settles.body hb hcat (fun heq => hexit heq args hread) args
      exact (hsettles u v h).agrees
  · exact ((b.handler tokens).run_alike h hconsole).2.agrees

/-- `exit` asks for the end of the session if the console takes its farewell, and changes nothing
else. -/
theorem run_exit_effects (args : Arguments) {w : World} (hroom : w.errors.room = none)
    (hconsole : w.output = .console) :
    ((reporting (Verbs.exit.body args)).run w).2.files = w.files
      ∧ ((reporting (Verbs.exit.body args)).run w).2.env
        = { w.env with exiting := w.env.exiting || w.console.takes (encode "Exiting...\n") } := by
  have hprint : w.print (encode "Exiting...\n") = ((w.console.write (encode "Exiting...\n")).1,
      { w with console := (w.console.write (encode "Exiting...\n")).2 }) := by
    rw [World.print, hconsole]
  have hbody := Verbs.run_exit args w
  rw [hprint] at hbody
  unfold Console.takes
  rcases hwritten : w.console.write (encode "Exiting...\n") with ⟨e | ⟨⟩, console⟩
  · rw [hwritten] at hbody
    rw [run_reporting_of_failed hroom hbody]
    exact ⟨rfl, by simp [Except.isOk, Except.toBool]⟩
  · rw [hwritten] at hbody
    rw [run_reporting_of_done hbody]
    exact ⟨rfl, by simp [Except.isOk, Except.toBool]⟩

end Builtin

end LineShell
