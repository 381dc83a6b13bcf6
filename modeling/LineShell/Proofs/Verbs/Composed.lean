/-
What the verbs are put together from.

Every built-in verb is a composition of few parts: requests that write nothing, whole lines
printed or complained at once, texts printed with their last newline, and giving up.  A property
of commands that these parts have, and that running one part after the other keeps, is a
property of every built-in verb (`Builtin.handler_composed`); so it is that no verb breaks off, and
that every verb prints whole lines.  Replacing the environment is kept apart from the other
requests: only `cd` and `exit` make it, so what holds of everything else holds of the other verbs.

Properties that speak of the status need more care.  Most verbs make no complaint of their own and
end with 0 or not at all; only `cat` and `mv` go on behind a failure.  `StatusComposable`
separates what is asked of the parts from what is asked of a whole body, and the two loops of
these verbs are left to the property.  The verbs that look and act before they say one line, and do
nothing behind it, need less (`SpeaksLast`).
-/
import LineShell.Proofs.Session.Observed
import LineShell.Verbs.Table

set_option autoImplicit false

namespace LineShell

open LineShell.Text

/-- Bytes that end at the end of a line, if there are any. -/
def EndsLine (bytes : Bytes) : Prop := bytes = [] ∨ bytes.getLast? = some newline

/-- A property of commands that giving a result, giving up and all requests that write nothing and
leave the environment alone have, and that is kept when one is run after the other. -/
structure Sequential (P : (α : Type) → Action α → Prop) : Prop where
  done : ∀ {α : Type} (a : α), P α (.done a)
  fail : ∀ {α : Type} (failure : Failure), P α (.fail failure)
  bind : ∀ {α β : Type} {m : Action α} {f : α → Action β},
    P α m → (∀ a, P β (f a)) → P β (m >>= f)
  ask : ∀ r : Request, (∀ data, r ≠ .print data) → (∀ data, r ≠ .complain data) →
    (∀ env, r ≠ .setEnvironment env) → P _ (Action.ask r)

/-- A property of commands that giving a result and all prints have, and that is kept when one is
run after the other. -/
structure Printing (P : (α : Type) → Action α → Prop) : Prop where
  done : ∀ {α : Type} (a : α), P α (.done a)
  bind : ∀ {α β : Type} {m : Action α} {f : α → Action β},
    P α m → (∀ a, P β (f a)) → P β (m >>= f)
  print : ∀ data : Bytes, P Unit (Action.print data)

/-- Such a property that is kept when a failure is caught, and that lines on the error stream have.
-/
structure Composable (P : (α : Type) → Action α → Prop) : Prop extends Sequential P where
  attempt : ∀ {α : Type} {m : Action α}, P α m → P _ m.attempt
  voice : ∀ message : String, P _ (Action.ask (.complain (encode message ++ [newline])))

/-- Such a property that printing whole lines and texts has as well. -/
structure LineSequential (P : (α : Type) → Action α → Prop) : Prop extends Sequential P where
  print : ∀ data : Bytes, EndsLine data → P Unit (Action.print data)
  printLine : ∀ pieces : List String, P Unit (Action.printLine pieces)
  printText : ∀ bytes : Bytes, P Unit (Verbs.printText bytes)

/-- A property that all parts of the verbs have. -/
structure LineComposable (P : (α : Type) → Action α → Prop) : Prop
    extends Composable P, LineSequential P

/-- A property `S` of whole bodies that begin with parts that have the property `P` and may say one
line at their end. Behind a line that was said there is nothing to be done any more. -/
structure SpeaksLast (P : (α : Type) → Action α → Prop) (S : Action Int → Prop) : Prop
    extends Sequential P where
  giveUp : ∀ failure : Failure, S (.fail failure)
  andThen : ∀ {α : Type} {m : Action α} {f : α → Action Int},
    P α m → (∀ a, S (f a)) → S (m >>= f)
  speaks : ∀ pieces : List String, S (Action.printLine pieces >>= fun _ => Pure.pure 0)

/-- A property `S` of whole bodies that begin with parts that have the property `P`. -/
structure StatusComposable (P : (α : Type) → Action α → Prop) (S : Action Int → Prop) : Prop
    extends LineSequential P, SpeaksLast P S where
  zero : S (Pure.pure 0)
  speaks := fun pieces => andThen (printLine pieces) fun _ => zero
  /-- A body may give up in other words than one of its parts. -/
  reword : ∀ {m : Action Unit} (words : Failure → Failure), P Unit m →
    S (m.attempt >>= fun ended =>
      match ended with
      | .ok () => Pure.pure 0
      | .error failure => .fail (words failure))
  printFiles : ∀ operands : List String, S (Verbs.printFiles 0 operands)
  moveAll : ∀ (dest : Path) (sources : List String), S (Verbs.moveAll 0 dest sources)

namespace Printing

variable {P : (α : Type) → Action α → Prop} (hP : Printing P)
include hP

/-! ## Whole lines and texts -/

theorem printLine (pieces : List String) : P Unit (Action.printLine pieces) := by
  rw [Action.printLine]
  induction pieces.map encode ++ [[newline]] with
  | nil => exact hP.done ()
  | cons piece pieces ih => exact hP.bind (hP.print piece) fun _ => ih

theorem printNames (names : List String) : P Unit (Verbs.printNames names) := by
  induction names with
  | nil => exact hP.done ()
  | cons name names ih => exact hP.bind (hP.printLine [name]) fun _ => ih

theorem printText (bytes : Bytes) : P Unit (Verbs.printText bytes) := by
  refine hP.bind (hP.print bytes) fun _ => ?_
  split
  · exact hP.print _
  · exact hP.done ()

end Printing

namespace Sequential

variable {P : (α : Type) → Action α → Prop} (hP : Sequential P) {α : Type}
include hP

/-! ## The parts -/

theorem pure (a : α) : P α (Pure.pure a) := hP.done a

theorem orGiveUp (result : Except IoError α) : P α (Action.orGiveUp result) := by
  rcases result with e | a
  · exact hP.fail _
  · exact hP.done a

theorem call (c : FileCall) : P c.Reply (Action.call c) :=
  hP.ask (.files c) (fun _ => nofun) (fun _ => nofun) fun _ => nofun

theorem isThere (p : Path) : P Bool (Action.isThere p) := by
  refine hP.bind (hP.call (.status p)) fun reply => ?_
  rcases reply with e | kind <;> exact hP.pure _

theorem isDirectory (p : Path) : P Bool (Action.isDirectory p) := by
  refine hP.bind (hP.call (.status p)) fun reply => ?_
  rcases reply with e | kind <;> exact hP.pure _

theorem isRegular (p : Path) : P Bool (Action.isRegular p) := by
  refine hP.bind (hP.call (.status p)) fun reply => ?_
  rcases reply with e | kind <;> exact hP.pure _

theorem isEntry (p : Path) : P Bool (Action.isEntry p) := by
  refine hP.bind (hP.call (.entryStatus p)) fun reply => ?_
  rcases reply with e | kind <;> exact hP.pure _

theorem environment : P _ (Action.ask .environment) :=
  hP.ask _ (fun _ => nofun) (fun _ => nofun) fun _ => nofun

theorem locate (operand : String) : P Path (Action.locate operand) :=
  hP.bind hP.environment fun _ => hP.pure _

theorem orFail (result : Except IoError α) (failure : IoError → Failure) :
    P α (Verbs.orFail result failure) := by
  rcases result with e | a
  · exact hP.fail _
  · exact hP.done a

theorem firstOperand (args : Arguments) (verb : String) :
    P String (args.firstOperand verb) := by
  unfold Arguments.firstOperand
  split
  · exact hP.pure _
  · exact hP.fail _

theorem renameOrCopy (source target : Path) : P _ (Verbs.renameOrCopy source target) := by
  refine hP.bind (hP.call _) fun renamed => ?_
  split
  · exact hP.pure _
  · refine hP.bind (hP.isRegular source) fun regular => ?_
    rcases regular with _ | _
    · exact hP.pure _
    · refine hP.bind (hP.call _) fun copied => ?_
      split
      · exact hP.call (.removeFile source)
      · exact hP.pure _

theorem mayOverwrite (target : Path) : P Bool (Verbs.mayOverwrite target) := by
  refine hP.bind (hP.isThere target) fun there => ?_
  rcases there with _ | _
  · exact hP.pure true
  · exact hP.ask (.confirm _) (fun _ => nofun) (fun _ => nofun) fun _ => nofun

theorem targetOf (source dest : Path) : P Path (Verbs.targetOf source dest) := by
  unfold Verbs.targetOf
  split
  · refine hP.bind (hP.isDirectory dest) fun directory => ?_
    rcases directory with _ | _ <;> exact hP.pure _
  · exact hP.pure dest

/-- Where all that is printed has the property, whole lines and texts have it. -/
theorem lines (hprint : ∀ data : Bytes, P Unit (Action.print data)) : LineSequential P :=
  have hprinting : Printing P := ⟨hP.done, hP.bind, hprint⟩
  { toSequential := hP
    print := fun data _ => hprint data
    printLine := hprinting.printLine
    printText := hprinting.printText }

end Sequential

namespace Composable

variable {P : (α : Type) → Action α → Prop} (hP : Composable P)
include hP

theorem complain (message : String) : P Unit (Action.complain message) :=
  hP.bind (hP.voice message) fun _ => hP.orGiveUp _

/-- Printing the failure of a body. -/
theorem reporting {body : Action Int} (h : P Int body) : P Int (Builtin.reporting body) := by
  refine hP.bind (hP.attempt h) fun ended => ?_
  rcases ended with failure | status
  · exact hP.bind (hP.complain _) fun _ => hP.pure 1
  · exact hP.pure status

end Composable

namespace LineSequential

variable {P : (α : Type) → Action α → Prop} (hP : LineSequential P)
include hP

/-! ## Parts that print -/

theorem echoLines (n : Nat) : P Unit (Verbs.echoLines n) := by
  induction n with
  | zero => exact hP.done ()
  | succ n ih =>
    refine hP.bind (hP.ask _ (fun _ => nofun) (fun _ => nofun) fun _ => nofun) fun reply => ?_
    rcases reply with e | line
    · exact hP.fail _
    · show P Unit (if line.isEmpty = true then Pure.pure () else _)
      split
      · exact hP.pure ()
      · exact hP.bind (hP.printText line) fun _ => ih

theorem echo : P Unit Verbs.echo :=
  hP.bind (hP.ask _ (fun _ => nofun) (fun _ => nofun) fun _ => nofun) fun _ => hP.echoLines _

theorem moveEntry (shown : String) (source target : Path) :
    P Unit (Verbs.moveEntry shown source target) := by
  refine hP.bind (hP.mayOverwrite target) fun allowed => ?_
  rcases allowed with _ | _
  · exact hP.printLine _
  · exact hP.bind (hP.renameOrCopy source target) fun result =>
      hP.bind (hP.orFail result _) fun _ => hP.printLine _

theorem moveInto (shown : String) (dest : Path) : P Unit (Verbs.moveInto shown dest) := by
  refine hP.bind (hP.locate shown) fun source => hP.bind (hP.isEntry source) fun entry => ?_
  rcases entry with _ | _
  · exact hP.fail _
  · rw [if_pos rfl]
    split
    · exact hP.moveEntry shown source _
    · exact hP.fail _

theorem printNames (names : List String) : P Unit (Verbs.printNames names) := by
  induction names with
  | nil => exact hP.done ()
  | cons name names ih => exact hP.bind (hP.printLine _) fun _ => ih

end LineSequential

namespace SpeaksLast

variable {P : (α : Type) → Action α → Prop} {S : Action Int → Prop} (hP : SpeaksLast P S)
include hP

/-! ## The verbs that speak last -/

theorem makeDirectory (operand : String) : S (Verbs.makeDirectory operand) := by
  refine hP.andThen (hP.locate operand) fun p => hP.andThen (hP.isThere p) fun there => ?_
  rcases there with _ | _
  · exact hP.andThen (hP.call _) fun result => hP.andThen (hP.orFail result _) fun _ => hP.speaks _
  · exact hP.giveUp _

theorem removeDirectory (operand : String) : S (Verbs.removeDirectory operand) := by
  refine hP.andThen (hP.locate operand) fun p =>
    hP.andThen (hP.isDirectory p) fun directory => ?_
  rcases directory with _ | _
  · exact hP.giveUp _
  · refine hP.andThen (hP.call _) fun result => hP.andThen (hP.orFail result _) fun names => ?_
    split
    · exact hP.andThen (hP.call _) fun result => hP.andThen (hP.orFail result _) fun _ => hP.speaks _
    · exact hP.giveUp _

theorem touchFile (operand : String) : S (Verbs.touchFile operand) :=
  hP.andThen (hP.locate operand) fun _ => hP.andThen (hP.call _) fun result =>
    hP.andThen (hP.orFail result _) fun _ => hP.speaks _

theorem removeFile (operand : String) : S (Verbs.removeFile operand) := by
  refine hP.andThen (hP.locate operand) fun p => hP.andThen (hP.call _) fun status => ?_
  split
  · exact hP.giveUp _
  · exact hP.giveUp _
  · exact hP.andThen (hP.call _) fun result => hP.andThen (hP.orFail result _) fun _ => hP.speaks _

theorem changeDirectory (hset : ∀ env, P _ (Action.ask (.setEnvironment env)))
    (operand : Option String) : S (Verbs.changeDirectory operand) := by
  refine hP.andThen hP.environment fun env => ?_
  split
  · exact hP.giveUp _
  · refine hP.andThen (hP.isDirectory _) fun directory => ?_
    rcases directory with _ | _
    · exact hP.giveUp _
    · exact hP.andThen (hset _) fun _ => hP.speaks _

end SpeaksLast

namespace StatusComposable

variable {P : (α : Type) → Action α → Prop} {S : Action Int → Prop} (hP : StatusComposable P S)
include hP

/-! ## The verbs -/

theorem moveOne (shown : String) (dest : Path) : S (Verbs.moveOne shown dest) := by
  refine hP.andThen (hP.locate shown) fun source =>
    hP.andThen (hP.isEntry source) fun entry => ?_
  rcases entry with _ | _
  · exact hP.giveUp _
  · exact hP.andThen (hP.targetOf source dest) fun target =>
      hP.andThen (hP.moveEntry shown source target) fun _ => hP.zero

theorem moveTo (sources : List String) (shown : String) : S (Verbs.moveTo sources shown) := by
  refine hP.andThen (hP.locate shown) fun dest => ?_
  split
  · exact hP.moveOne _ dest
  · refine hP.andThen (hP.isDirectory dest) fun directory => ?_
    rcases directory with _ | _
    · exact hP.giveUp _
    · exact hP.moveAll dest _

theorem listDirectory (shown : String) (dir : Path) (all reversed : Bool) :
    S (Verbs.listDirectory shown dir all reversed) := by
  refine hP.andThen (hP.isDirectory dir) fun directory => ?_
  rcases directory with _ | _
  · exact hP.giveUp _
  · refine hP.andThen (hP.call _) fun reply => ?_
    split
    · exact hP.giveUp _
    · exact hP.andThen (hP.printLine _) fun _ => hP.andThen (hP.printNames _) fun _ => hP.zero

theorem cat (args : Arguments) : S (Verbs.cat.body args) := by
  show S (if args.operands.isEmpty = true then _ else Verbs.printFiles 0 args.operands)
  split
  · exact hP.reword Verbs.echoFailure hP.echo
  · exact hP.printFiles _

theorem mv (args : Arguments) : S (Verbs.mv.body args) := by
  unfold Verbs.mv
  dsimp only
  split
  · exact hP.moveTo _ _
  · exact hP.giveUp _

theorem ls (args : Arguments) : S (Verbs.ls.body args) := by
  refine hP.andThen hP.environment fun env => ?_
  split <;> exact hP.listDirectory _ _ _ _

theorem exit (hset : ∀ env, P _ (Action.ask (.setEnvironment env))) (args : Arguments) :
    S (Verbs.exit.body args) :=
  hP.andThen (hP.print _ (.inr (by decide +kernel))) fun _ => hP.andThen hP.environment fun _ =>
    hP.andThen (hset _) fun _ => hP.zero

/-- The bodies of the built-in verbs are put together from the parts, and those of `cd` and `exit`
from replacing the environment besides. -/
theorem body {b : Builtin} (hb : b ∈ VerbTable.builtins)
    (hset : b = Verbs.cd ∨ b = Verbs.exit → ∀ env, P _ (Action.ask (.setEnvironment env)))
    (args : Arguments) : S (b.body args) := by
  simp only [VerbTable.builtins, List.mem_cons, List.not_mem_nil, or_false] at hb
  rcases hb with rfl | rfl | rfl | rfl | rfl | rfl | rfl | rfl | rfl | rfl | rfl
  · exact hP.exit (hset (.inr rfl)) args
  · exact hP.speaks _
  · exact hP.andThen (hP.firstOperand args _) fun _ => hP.makeDirectory _
  · exact hP.andThen (hP.firstOperand args _) fun _ => hP.removeDirectory _
  · exact hP.andThen (hP.firstOperand args _) fun _ => hP.touchFile _
  · exact hP.andThen (hP.firstOperand args _) fun _ => hP.removeFile _
  · exact hP.cat args
  · exact hP.mv args
  · exact hP.ls args
  · exact hP.andThen hP.environment fun _ => hP.speaks _
  · exact hP.changeDirectory (hset (.inl rfl)) _

end StatusComposable

namespace LineComposable

variable {P : (α : Type) → Action α → Prop} (hP : LineComposable P)
include hP

/-! ## Where all parts have the property -/

theorem printFile (operand : String) : P Int (Verbs.printFile operand) := by
  refine hP.bind (hP.locate operand) fun p => hP.bind (hP.call _) fun reply => ?_
  split
  · exact hP.bind (hP.printText _) fun _ => hP.pure 0
  · exact hP.bind (hP.complain _) fun _ => hP.pure 1

theorem printFiles (status : Int) (operands : List String) :
    P Int (Verbs.printFiles status operands) := by
  induction operands generalizing status with
  | nil => exact hP.pure status
  | cons operand operands ih => exact hP.bind (hP.printFile operand) fun _ => ih _

theorem moveAll (status : Int) (dest : Path) (sources : List String) :
    P Int (Verbs.moveAll status dest sources) := by
  induction sources generalizing status with
  | nil => exact hP.pure status
  | cons shown sources ih =>
    refine hP.bind (hP.attempt (hP.moveInto shown dest)) fun ended => ?_
    rcases ended with failure | _
    · exact hP.bind (hP.complain _) fun _ => ih 1
    · exact ih status

/-- Of a property of all parts, the bodies are a special case. -/
theorem status : StatusComposable P (P Int) where
  toLineSequential := hP.toLineSequential
  zero := hP.pure 0
  giveUp := hP.fail
  andThen := hP.bind
  reword := fun words hm => hP.bind (hP.attempt hm) fun ended => by
    rcases ended with failure | _
    · exact hP.fail _
    · exact hP.pure 0
  printFiles := hP.printFiles 0
  moveAll := hP.moveAll 0

end LineComposable

namespace Builtin

variable {P : (α : Type) → Action α → Prop} {b : Builtin}

/-- What the parts have and composition keeps, every built-in verb has, whatever its words. -/
theorem handler_composed (hP : LineComposable P) (hb : b ∈ VerbTable.builtins)
    (hset : b = Verbs.cd ∨ b = Verbs.exit → ∀ env, P _ (Action.ask (.setEnvironment env)))
    (tokens : List String) : P Int (b.handler tokens) := by
  unfold handler
  split
  · exact hP.reporting (hP.status.body hb hset _)
  · exact hP.bind (hP.printLine _) fun _ => hP.pure 0
  · exact hP.bind (hP.complain _) fun _ => hP.pure 1

end Builtin

/-! ## No verb breaks off -/

namespace Action.Calm

theorem orGiveUp {α : Type} (result : Except IoError α) : (Action.orGiveUp result).Calm := by
  rcases result with e | a <;> trivial

theorem sequential : Sequential fun _ => Action.Calm where
  done := done
  fail := fail
  bind := bind
  ask := fun r _ _ _ => ask r

/-- Being calm is kept when parts are put together. -/
theorem composable : LineComposable fun _ => Action.Calm where
  toLineSequential := sequential.lines fun _ => bind (ask _) fun _ => orGiveUp _
  attempt := attempt
  voice := fun _ => ask _

end Action.Calm

/-- The handlers of the built-in verbs never break off. -/
theorem Builtin.handler_calm {b : Builtin} (hb : b ∈ VerbTable.builtins) (tokens : List String) :
    (b.handler tokens).Calm :=
  handler_composed Action.Calm.composable hb (fun _ _ => Action.Calm.ask _) tokens

end LineShell
