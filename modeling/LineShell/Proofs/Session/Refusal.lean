/-
Lines that are refused.

A line can be turned away at five points, and they lie at different depths: two kinds of malformed
line are found by the reader, a target that does not open before the command in front of it is
looked at, an unknown verb before there is a handler, and words that a verb does not admit in front
of its body.  What the five have in common is that nothing has happened by then.  `Refusal` lists
them, each with the message that belongs to it, and a refused line does nothing but say this message.

The message may quote the line, so its newlines are looked at as well.  The verb and the words
behind it hold no white space, so the only newline that can be quoted is one inside the target of a
redirection.
-/
import LineShell.Proofs.Session.Reentry
import LineShell.Proofs.Verbs.SinglePath

set_option autoImplicit false

namespace LineShell

open LineShell.Text

/-! ## Words that are quoted -/

namespace Signature

variable {sig : Signature} {e : ArgumentError}

theorem words_of_readOperands {words : List String} {help : Bool} {args : Arguments}
    (h : sig.readOperands help args words = .refused e) : e.words ⊆ words := by
  induction words generalizing args with
  | nil => cases help <;> exact nomatch h
  | cons word rest ih =>
    rw [readOperands] at h
    split at h
    · exact List.Subset.trans (ih h) (List.subset_cons_self _ _)
    · -- a verb without operands refuses the first of them
      injection h with h
      subst h
      simp [ArgumentError.words]

/-- Whatever words are refused for, the message quotes some of them. -/
theorem words_of_readFrom {words : List String} {help : Bool} {args : Arguments}
    (h : sig.readFrom help args words = .refused e) : e.words ⊆ words := by
  fun_induction sig.readFrom help args words with
  | case1 help args => cases help <;> exact nomatch h
  | case2 help args word rest hhelp ih => exact List.Subset.trans (ih h) (List.subset_cons_self _ _)
  | case3 help args rest hmark =>
    exact List.Subset.trans (words_of_readOperands h) (List.subset_cons_self _ _)
  -- an option without a value, and an operand: the reading goes on behind the word
  | case9 help args word rest hhelp hmark hdash hearly spec hspec htakes ih =>
    exact List.Subset.trans (ih h) (List.subset_cons_self _ _)
  | case10 help args word rest hhelp hmark hdash hoperands ih =>
    exact List.Subset.trans (ih h) (List.subset_cons_self _ _)
  -- an option with a value: the reading goes on behind the value
  | case8 help args word hhelp hmark hdash hearly spec hspec htakes value rest hnew ih =>
    have hpair : rest ⊆ word :: value :: rest :=
      List.Subset.trans (List.subset_cons_self value rest) (List.subset_cons_self word _)
    exact List.Subset.trans (ih h) hpair
  -- the five ways to be refused
  | case4 | case5 | case6 | case7 | case11 =>
    injection h with h
    subst h
    simp [ArgumentError.words]

/-- The words that a message quotes are among those behind the verb, if the reader's own mark is not
counted. -/
theorem words_of_read {words : List String} (h : sig.read (flagsFirst words) = .refused e) :
    ∀ word ∈ e.words, word = "--" ∨ word ∈ words := by
  intro word hword
  rcases List.mem_append.mp (words_of_readFrom h hword) with hflag | hword
  · exact .inr (isFlag_of_mem_flagsOf hflag).2.2
  · exact (List.mem_cons.mp hword).imp id mem_of_mem_operandsOf

end Signature

/-- A message that quotes only texts without newlines has none. -/
theorem Quotes.of_plain {quoted others : List String} {line : String} (h : Quotes quoted line)
    (hplain : ∀ text ∈ quoted, '\n' ∉ text.toList) : Quotes others line := by
  intro hmem
  obtain ⟨text, htext, hnewline⟩ := h hmem
  exact absurd hnewline (hplain text htext)

/-- The target of a redirection is a part of the line. -/
theorem Line.subset_of_redirect {line command target : String} {mode : Redirection}
    (h : parse line = .ok (.redirect command target mode)) :
    target.toList ⊆ line.toList := by
  have hspells := spells_of_ofChars h
  generalize line.toList = cs at hspells
  cases hspells with
  | redirect hcommand htarget hpipe harrow =>
    intro c hc
    exact List.mem_append_right _ (mem_of_padded htarget hc)

/-- No word of a simple command holds a newline. -/
theorem Line.newline_not_mem_of_simple {line command word : String}
    (h : parse line = .ok (.simple command)) (hword : word ∈ tokenize command) :
    '\n' ∉ word.toList := by
  obtain ⟨hpipe, harrow⟩ := not_mem_of_simple h
  intro hmem
  have hspace := ((Session.mem_tokenize hword hpipe harrow).2 '\n' hmem).1
  exact absurd hspace (by decide)

/-! ## Refusals -/

/-- A line that a session refuses, and the message about it. -/
inductive Refusal (table : VerbTable) (line : String) (s : Session) : String → Prop where
  /-- An operator is out of its place. -/
  | malformed {e : LineError} (read : Line.parse line = .error e) : Refusal table line s e.message
  /-- The target of a redirection does not open, whatever the reason. -/
  | unwritable {command target : String} {mode : Redirection} {e : IoError}
      (read : Line.parse line = .ok (.redirect command target mode))
      (closed : s.world.files.openTarget (s.world.env.locate target) mode = .error e) :
      Refusal table line s (Report.unwritable target e).message
  /-- Nothing is registered for the verb. -/
  | unknownVerb {command verb : String} {words : List String}
      (read : Line.parse line = .ok (.simple command))
      (tokens : tokenize command = verb :: words) (unknown : table.find? verb = none) :
      Refusal table line s (Report.unknownVerb verb).message
  /-- A built-in verb does not admit the words behind it. -/
  | arguments {command : String} {b : Builtin} {words : List String} {e : ArgumentError}
      (read : Line.parse line = .ok (.simple command))
      (tokens : tokenize command = b.verb :: words) (known : table.find? b.verb = some b.handler)
      (refused : b.signature.read (flagsFirst words) = .refused e) :
      Refusal table line s (b.verb ++ ": " ++ String.ofList (trimEnd e.message.toList))

/-- A handler that is run without its body: it is that of a built-in verb which refuses the words
that it is handed. -/
def Session.HandlerRun.TurnsAway (run : Session.HandlerRun) : Prop :=
  ∃ b : Builtin, ∃ e, run.handler = b.handler
    ∧ b.signature.read (flagsFirst run.tokens.tail) = .refused e

namespace Refusal

variable {table : VerbTable} {line message : String} {s : Session}

/-- The newlines in the message are those of the line. -/
theorem quotes (h : Refusal table line s message) : Quotes [line] message := by
  cases h with
  | @malformed e read => cases e with
    | badPipe => exact .plain (by decide)
    | badRedirection mode => cases mode <;> exact .plain (by decide)
  | @unwritable command target mode e read closed =>
    have htarget : Quotes [line] target := by
      intro hmem
      exact ⟨line, List.mem_cons_self, Line.subset_of_redirect read hmem⟩
    have hopening : Quotes [line] ("Error with file redirection: Unable to write to " ++ target) :=
      (Quotes.plain (by decide)).append htarget
    exact (hopening.append (.plain (by decide))).append (.io e)
  | @unknownVerb command verb words read tokens unknown =>
    have hverb : verb ∈ tokenize command := tokens ▸ List.mem_cons_self
    have hquotes : Quotes [verb] ("Unknown command: " ++ verb) :=
      (Quotes.plain (by decide)).append (.text List.mem_cons_self)
    apply hquotes.of_plain
    intro text htext
    rw [List.mem_singleton.mp htext]
    exact Line.newline_not_mem_of_simple read hverb
  | @arguments command b words e read tokens known refused =>
    have hword : ∀ word ∈ b.verb :: words, '\n' ∉ word.toList := by
      intro word hword
      exact Line.newline_not_mem_of_simple read (tokens ▸ hword)
    have hblames := Blames.refused (hword b.verb List.mem_cons_self) (List.Subset.refl e.words)
    apply hblames.quotes.of_plain
    intro text htext
    rcases Signature.words_of_read refused text htext with rfl | htext
    · decide
    · exact hword text (List.mem_cons_of_mem _ htext)

/-- A target that does not open is no output. -/
theorem openOutput_of_closed {target : String} {mode : Redirection} {e : IoError}
    (h : s.world.files.openTarget (s.world.env.locate target) mode = .error e) :
    Session.openOutput { s with status := 0 } (s.world.env.locate target) mode = .error e := by
  show (s.world.files.openSink (s.world.env.locate target) mode >>= _) = _
  rw [FileSystem.openSink, h]
  rfl

/-- No body of a built-in verb is run, and no other handler. -/
theorem turnsAway (h : Refusal table line s message) :
    ∀ run ∈ Session.handlerRuns table line s, run.TurnsAway := by
  intro run hrun
  obtain ⟨x, hx, hran⟩ := List.mem_filterMap.mp hrun
  obtain ⟨verb, words, htokens, hfound, hwords, -⟩ :=
    Session.Stage.handlerRun?_eq_some_iff.mp hran
  cases h with
  | malformed read =>
    rw [Job.ofText_eq, read] at hx
    exact nomatch hx
  | unwritable read closed =>
    rw [Job.ofText_eq, read, Session.stages_redirect, openOutput_of_closed closed] at hx
    exact nomatch hx
  | unknownVerb read tokens unknown =>
    rw [Job.ofText_eq, read] at hx
    rw [List.mem_singleton.mp hx, tokens] at htokens
    rw [← (List.cons.inj htokens).1, unknown] at hfound
    exact nomatch hfound
  | @arguments command b refusedWords e read tokens known refused =>
    rw [Job.ofText_eq, read] at hx
    rw [List.mem_singleton.mp hx, tokens] at htokens
    obtain ⟨hverb, hrest⟩ := List.cons.inj htokens
    rw [← hverb, known] at hfound
    refine ⟨b, e, (Option.some.inj hfound).symm, ?_⟩
    rw [hwords, List.tail_cons, ← hrest]
    exact refused

end Refusal

/-! ## What is left behind -/

namespace Session

variable {table : VerbTable} {line message : String} {s : Session}

/-- A report is one line on the error stream, and makes the status 1. -/
theorem report_eq (hroom : s.world.errors.room = none) (r : Report) :
    s.report r = ⟨s.world.warned r.message, 1⟩ := by
  rw [report, World.complain, Console.write_eq_append hroom]
  rfl

/-- **A refused line does nothing.** With an error stream that takes everything, a line that is
refused leaves the whole world of the session as it was, except for one line on the error stream;
this line has no newline in it that is not one of the refused line, the status is 1, and no body of
a verb has been run. -/
theorem executeLine_refused (hroom : s.world.errors.room = none)
    (hrefusal : Refusal table line s message) :
    executeLine table line s = (.returned, ⟨s.world.warned message, 1⟩)
      ∧ Quotes [line] message
      ∧ ∀ run ∈ handlerRuns table line s, run.TurnsAway := by
  refine ⟨?_, hrefusal.quotes, hrefusal.turnsAway⟩
  have hbegun : ({ s with status := 0 } : Session).world.errors.room = none := hroom
  cases hrefusal with
  | @malformed e read =>
    have hreport := report_eq hbegun (.malformed e)
    rw [executeLine, Job.ofText_eq, read]
    exact congrArg (Prod.mk Ending.returned) hreport
  | @unwritable command target mode e read closed =>
    have hclosed := Refusal.openOutput_of_closed closed
    rw [executeLine_of_redirect read, redirect_of_error hclosed, report_eq hbegun]
  | @unknownVerb command verb words read tokens unknown =>
    rw [executeLine_of_simple read, dispatch, tokens]
    simp only [unknown]
    rw [report_eq hbegun]
  | @arguments command b words e read tokens known refused =>
    -- the handler is run, and comes no further than to the reader of its words
    have hhandler : b.handler (b.verb :: words) = b.refuse e := by
      unfold Builtin.handler
      rw [List.tail_cons, refused]
    rw [executeLine_of_simple read, dispatch_of_find? tokens known, runHandler, hhandler,
      b.run_refuse hbegun]

/-- A directory is no target, and is left as it is. -/
theorem executeLine_refused_directory :
    quiet.world.errors.room = none
      ∧ Refusal .standard "pwd > /r" quiet (Report.unwritable "/r" (.os .isDirectory)).message
      ∧ executeLine .standard "pwd > /r" quiet
        = (.returned, ⟨quiet.world.warned
            "Error with file redirection: Unable to write to /r: Is a directory (os error 21)", 1⟩)
      ∧ (executeLine .standard "pwd > /r" quiet).2.world.files = quiet.world.files := by
  have hread : Line.parse "pwd > /r" = .ok (.redirect "pwd" "/r" .overwrite) := by decide +kernel
  have hclosed : quiet.world.files.openTarget (quiet.world.env.locate "/r") .overwrite
      = .error (.os .isDirectory) := by decide +kernel
  have hrefusal : Refusal .standard "pwd > /r" quiet
      (Report.unwritable "/r" (.os .isDirectory)).message := .unwritable hread hclosed
  obtain ⟨hline, -, -⟩ := executeLine_refused rfl hrefusal
  have hfiles : (executeLine .standard "pwd > /r" quiet).2.world.files = quiet.world.files := by
    rw [hline]
    rfl
  exact ⟨rfl, hrefusal, hline, hfiles⟩

end Session

end LineShell
