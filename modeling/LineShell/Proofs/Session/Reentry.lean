/-
How deep a line goes, and which handlers it reaches.

Executing a line executes lines again: the left side of a pipe and the command of a redirection are
read once more as lines of their own.  What bounds this is what the reader guarantees about the
texts that it returns.  The left side of a pipe holds no `|`, so it is no pipe; the command of a
redirection holds no `>` either, so it is a simple command.  Three lines are therefore in execution
at once at most, and to say so without a count of calls, the execution is written over texts with a
limit to the nesting (`Session.executeWithin`), and whatever stands behind the limit is shown not
to matter.

The same guarantees tell what arrives at the handlers.  A handler is run by a stage of the line, on
the words of its command (`Session.handlerRuns`), and the command of a stage holds no operator: it
is the simple command that reading came down to, or the text behind a `|`, which is executed only
where its one word is `cat`.
-/
import LineShell.Proofs.Session.Failures
import LineShell.Proofs.Command.Grammar

set_option autoImplicit false

namespace LineShell

open LineShell.Text

/-! ## What the parts of a line hold -/

namespace Line

variable {s command target left right : String} {mode : Redirection}

/-- A simple command holds no operator. -/
theorem not_mem_of_simple (h : parse s = .ok (.simple command)) :
    '|' ∉ command.toList ∧ '>' ∉ command.toList := by
  have hspells := spells_of_ofChars h
  generalize s.toList = cs at hspells
  cases hspells with
  | simple hpadded hpipe harrow =>
    exact ⟨fun hmem => hpipe (mem_of_padded hpadded hmem),
      fun hmem => harrow (mem_of_padded hpadded hmem)⟩

/-- The command of a redirection holds no operator. -/
theorem not_mem_of_redirect (h : parse s = .ok (.redirect command target mode)) :
    '|' ∉ command.toList ∧ '>' ∉ command.toList :=
  not_mem_of_simple (parse_command_of_redirect h)

/-- The left side of a pipe holds no `|`. -/
theorem not_mem_of_pipe (h : parse s = .ok (.pipe left right)) : '|' ∉ left.toList := by
  have hspells := spells_of_ofChars h
  generalize s.toList = cs at hspells
  cases hspells with
  | pipe hl hr hpipe => exact fun hmem => hpipe.1 (mem_of_padded hl hmem)

/-- The right side of a pipe that has the one word `cat` is that word. -/
theorem eq_cat_of_pipe (h : parse s = .ok (.pipe left right)) (hcat : tokenize right = ["cat"]) :
    right = "cat" := by
  have htight : Tight right.toList := by
    apply (spells_of_ofChars h).tight_parts
    simp [parts]
  obtain ⟨word, hword, hwordcat⟩ := List.map_eq_singleton_iff.mp hcat
  rw [← hwordcat, ← eq_of_words_eq_singleton htight hword, String.ofList_toList]

end Line

/-! ## Nesting -/

namespace Job

theorem depth_pos (job : Job) : 0 < job.depth := by
  cases job <;> simp [depth]

/-- A line without a `|` is a redirection of a simple command at most. -/
theorem depth_le_two {line : String} (h : '|' ∉ line.toList) : (ofText line).depth ≤ 2 := by
  rw [ofText_eq]
  split
  · simp [depth]
  · simp [depth]
  · rename_i command target mode hread
    simp [ofText_of_redirect hread, depth]
  · rename_i left right hread
    exact absurd hread (Line.parse_ne_pipe h left right)
  · simp [depth]

theorem depth_le_three (line : String) : (ofText line).depth ≤ 3 := by
  rcases hread : Line.parse line with e | _ | command | ⟨left, right⟩ | ⟨command, target, mode⟩
  · simp [ofText_eq line, hread, depth]
  · simp [ofText_eq line, hread, depth]
  · simp [ofText_eq line, hread, depth]
  · have hleft := depth_le_two (Line.not_mem_of_pipe hread)
    simp only [ofText_eq line, hread, depth]
    omega
  · simp [ofText_eq line, hread, ofText_of_redirect hread, depth]

/-- The bound is reached where the left side of a pipe is redirected. -/
example : (ofText "pwd > f | cat").depth = 3 := by decide +kernel

end Job

namespace Session

variable {s : Session} {line : String} {table : VerbTable}

/-- Executes a line, and the texts in it as lines again, with at most `n` lines in execution at
once. Where one more would begin, `beyond` is done in its place. -/
def executeWithin (table : VerbTable) (beyond : String → Session → Ending × Session) :
    Nat → String → Session → Ending × Session
  | 0, line, s => beyond line s
  | n + 1, line, s =>
    match Line.parse line with
    | .ok .blank => (.returned, { s with status := 0 })
    | .ok (.simple command) => dispatch table command { s with status := 0 }
    | .ok (.redirect command target mode) =>
      redirect (executeWithin table beyond n command) target mode { s with status := 0 }
    | .ok (.pipe left right) =>
      pipe table (executeWithin table beyond n left) right { s with status := 0 }
    | .error e => (.returned, { s with status := 0 }.report (.malformed e))

/-- Nothing is done beyond the depth of a line. -/
theorem executeWithin_of_depth {beyond : String → Session → Ending × Session} {n : Nat}
    (h : (Job.ofText line).depth ≤ n) :
    executeWithin table beyond n line = executeLine table line := by
  induction n generalizing line with
  | zero => exact absurd h (Nat.not_le_of_gt (Job.depth_pos _))
  | succ n ih =>
    funext s
    rw [executeLine, executeWithin]
    rw [Job.ofText_eq] at h ⊢
    generalize Line.parse line = read at h ⊢
    rcases read with e | _ | command | ⟨left, right⟩ | ⟨command, target, mode⟩
    · rfl
    · rfl
    · rfl
    · have hleft := @ih left (Nat.le_of_succ_le_succ h)
      show pipe table (executeWithin table beyond n left) right { s with status := 0 } = _
      rw [hleft]
      rfl
    · have hcommand := @ih command (Nat.le_of_succ_le_succ h)
      show redirect (executeWithin table beyond n command) target mode { s with status := 0 } = _
      rw [hcommand]
      rfl

/-! ## Handlers that are run -/

/-- A handler that is run: the words that it is handed, and the session that it finds. -/
structure HandlerRun where
  handler : Handler
  tokens : List String
  before : Session

/-- The handler that a stage runs, if its command has a verb and the verb is registered. -/
def Stage.handlerRun? (table : VerbTable) (x : Stage) : Option HandlerRun :=
  match tokenize x.command with
  | [] => none
  | verb :: words => (table.find? verb).map (⟨·, verb :: words, x.before⟩)

/-- The handlers that a line runs, in order. -/
def handlerRuns (table : VerbTable) (line : String) (s : Session) : List HandlerRun :=
  (stages table (Job.ofText line) s).filterMap (Stage.handlerRun? table)

/-- What the words that are handed to a handler are: a registered verb, and words in which neither
white space nor an operator is left. -/
structure HandlerRun.Proper (table : VerbTable) (run : HandlerRun) : Prop where
  registered : ∃ verb words, run.tokens = verb :: words ∧ table.find? verb = some run.handler
  words : ∀ word ∈ run.tokens, word ≠ ""
    ∧ ∀ c ∈ word.toList, isSpace c = false ∧ c ≠ '|' ∧ c ≠ '>'

/-- The words of a text without operators. -/
theorem mem_tokenize {command word : String} (h : word ∈ tokenize command)
    (hpipe : '|' ∉ command.toList) (harrow : '>' ∉ command.toList) :
    word ≠ "" ∧ ∀ c ∈ word.toList, isSpace c = false ∧ c ≠ '|' ∧ c ≠ '>' := by
  obtain ⟨cs, hcs, rfl⟩ := List.mem_map.mp h
  constructor
  · intro hnil
    apply ne_nil_of_mem_words hcs
    rw [← String.toList_ofList (l := cs), hnil]
    rfl
  · intro c hc
    rw [String.toList_ofList] at hc
    have hmem : c ∈ command.toList :=
      subset_of_mem_split isSpace _ cs (List.mem_filter.mp hcs).1 hc
    refine ⟨not_isSpace_of_mem_words hcs c hc, ?_, ?_⟩
    · rintro rfl
      exact hpipe hmem
    · rintro rfl
      exact harrow hmem

namespace Stage

variable {x : Stage} {run : HandlerRun}

theorem handlerRun?_eq_some_iff : x.handlerRun? table = some run ↔
    ∃ verb words, tokenize x.command = verb :: words ∧ table.find? verb = some run.handler
      ∧ run.tokens = verb :: words ∧ run.before = x.before := by
  unfold handlerRun?
  rcases tokenize x.command with _ | ⟨verb, words⟩
  · simp
  · obtain ⟨handler, tokens, before⟩ := run
    simp only [Option.map_eq_some_iff, HandlerRun.mk.injEq, List.cons.injEq]
    constructor
    · rintro ⟨found, hfound, rfl, rfl, rfl⟩
      exact ⟨verb, words, ⟨rfl, rfl⟩, hfound, rfl, rfl⟩
    · rintro ⟨_, _, ⟨rfl, rfl⟩, hfound, rfl, rfl⟩
      exact ⟨handler, hfound, rfl, rfl, rfl⟩

end Stage

/-- A stage whose text holds no operator runs its handler on proper words. -/
theorem proper_of_handlerRun? {x : Stage} {run : HandlerRun} (h : x.handlerRun? table = some run)
    (hpipe : '|' ∉ x.command.toList) (harrow : '>' ∉ x.command.toList) : run.Proper table := by
  obtain ⟨verb, words, htokens, hfound, hrun, -⟩ := Stage.handlerRun?_eq_some_iff.mp h
  refine ⟨⟨verb, words, hrun, hfound⟩, ?_⟩
  intro word hword
  rw [hrun, ← htokens] at hword
  exact mem_tokenize hword hpipe harrow

/-! ## Stages of a line -/

/-- A line that is no pipe has one stage at most, and its text holds no operator. -/
theorem stages_of_not_pipe (h : ∀ left right, Line.parse line ≠ .ok (.pipe left right)) :
    stages table (Job.ofText line) s = []
      ∨ ∃ x, stages table (Job.ofText line) s = [x]
        ∧ '|' ∉ x.command.toList ∧ '>' ∉ x.command.toList := by
  rw [Job.ofText_eq]
  split
  · exact .inl rfl
  · rename_i command hread
    exact .inr ⟨_, rfl, Line.not_mem_of_simple hread⟩
  · rename_i command target mode hread
    rw [Job.ofText_of_redirect hread, stages_redirect]
    split
    · exact .inl rfl
    · exact .inr ⟨_, rfl, Line.not_mem_of_redirect hread⟩
  · rename_i left right hread
    exact absurd hread (h left right)
  · exact .inl rfl

/-- The session that the left side of a pipe finds. -/
def captive (s : Session) : Session := { s with status := 0 }.withOutput (.capture .empty)

/-- The session that the right side of a pipe finds: behind the left side, with what the left side
printed as its input. -/
def behindLeft (table : VerbTable) (left : String) (s : Session) : Session :=
  let after := (executeLine table left s.captive).2
  (after.withOutput s.world.output).withInput (.memory ⟨after.captured⟩)

/-- A pipe has the stages of its left side, and behind them its right side, if that is `cat`. -/
theorem stages_of_pipe {left right : String} (h : Line.parse line = .ok (.pipe left right)) :
    ∃ last, stages table (Job.ofText line) s = stages table (Job.ofText left) s.captive ++ last
      ∧ (last = [] ∨ right = "cat" ∧ last = [⟨right, behindLeft table left s⟩]) := by
  rw [Job.ofText_eq, h]
  refine ⟨_, rfl, ?_⟩
  split
  · rename_i hcat
    exact .inr ⟨Line.eq_cat_of_pipe h hcat.2, rfl⟩
  · exact .inl rfl

/-! ## Handlers of a line -/

theorem handlerRuns_of_not_pipe (h : ∀ left right, Line.parse line ≠ .ok (.pipe left right)) :
    (handlerRuns table line s).length ≤ 1
      ∧ ∀ run ∈ handlerRuns table line s, run.Proper table := by
  rcases @stages_of_not_pipe s line table h with hstages | ⟨x, hstages, hpipe, harrow⟩
  · simp [handlerRuns, hstages]
  · rw [handlerRuns, hstages]
    refine ⟨List.length_filterMap_le _ _, ?_⟩
    intro run hrun
    obtain ⟨y, hy, hran⟩ := List.mem_filterMap.mp hrun
    rw [List.mem_singleton] at hy
    subst hy
    exact proper_of_handlerRun? hran hpipe harrow

/-- A pipe runs what its left side runs, and behind that a `cat` at most, if that is its right
side. -/
theorem handlerRuns_of_pipe {left right : String}
    (h : Line.parse line = .ok (.pipe left right)) :
    ∃ last, handlerRuns table line s = handlerRuns table left s.captive ++ last
      ∧ last.length ≤ 1
      ∧ ∀ run ∈ last, right = "cat" ∧ run.tokens = ["cat"] ∧ run.before = behindLeft table left s
        ∧ run.Proper table := by
  obtain ⟨last, hstages, hlast⟩ := @stages_of_pipe s line table left right h
  refine ⟨last.filterMap (Stage.handlerRun? table), ?_, ?_⟩
  · rw [handlerRuns, hstages, List.filterMap_append]
    rfl
  · rcases hlast with rfl | ⟨rfl, rfl⟩
    · simp
    · refine ⟨List.length_filterMap_le _ _, ?_⟩
      intro run hrun
      obtain ⟨x, hx, hran⟩ := List.mem_filterMap.mp hrun
      rw [List.mem_singleton] at hx
      subst hx
      obtain ⟨verb, words, htokens, -, hwords, hbefore⟩ := Stage.handlerRun?_eq_some_iff.mp hran
      refine ⟨rfl, ?_, hbefore, proper_of_handlerRun? hran (by simp) (by simp)⟩
      rw [hwords, ← htokens]
      show tokenize "cat" = ["cat"]
      decide

/-- Only the handlers that a line runs, on the words that they are handed, decide what the line
does. With other handlers behind the same verbs it does the same, if these do the same on those
words. -/
theorem executeLine_congr {other : VerbTable}
    (hverbs : ∀ verb, (other.find? verb).isSome = (table.find? verb).isSome)
    (h : ∀ run ∈ handlerRuns table line s, ∀ verb words, run.tokens = verb :: words →
      ∃ handler, other.find? verb = some handler ∧ handler run.tokens = run.handler run.tokens) :
    executeLine other line s = executeLine table line s := by
  apply execute_congr
  intro x hx
  rw [Stage.ran, Stage.ran, dispatch, dispatch]
  rcases htokens : tokenize x.command with _ | ⟨verb, words⟩
  · rfl
  · rcases hfound : table.find? verb with _ | handler
    · have hnone : other.find? verb = none := by
        simpa [hfound] using hverbs verb
      simp only [hnone, hfound]
    · have hrun : x.handlerRun? table = some ⟨handler, verb :: words, x.before⟩ :=
        Stage.handlerRun?_eq_some_iff.mpr ⟨verb, words, htokens, hfound, rfl, rfl⟩
      obtain ⟨handler', hfound', hsame⟩ :=
        h _ (List.mem_filterMap.mpr ⟨x, hx, hrun⟩) verb words rfl
      simp only [hfound', hfound, runHandler]
      rw [hsame]

theorem handlerRuns_of_left {left right : String} (h : Line.parse line = .ok (.pipe left right)) :
    (handlerRuns table left s).length ≤ 1
      ∧ ∀ run ∈ handlerRuns table left s, run.Proper table :=
  handlerRuns_of_not_pipe (Line.parse_ne_pipe (Line.not_mem_of_pipe h))

theorem handlerRuns_le_two (table : VerbTable) (line : String) (s : Session) :
    (handlerRuns table line s).length ≤ 2
      ∧ ∀ run ∈ handlerRuns table line s, run.Proper table := by
  by_cases hread : ∃ left right, Line.parse line = .ok (.pipe left right)
  · obtain ⟨left, right, hread⟩ := hread
    obtain ⟨last, hruns, hlast, hlastRuns⟩ := @handlerRuns_of_pipe s line table left right hread
    obtain ⟨hfirst, hfirstRuns⟩ := @handlerRuns_of_left s.captive line table left right hread
    rw [hruns, List.length_append]
    refine ⟨by omega, ?_⟩
    intro run hrun
    rcases List.mem_append.mp hrun with hrun | hrun
    · exact hfirstRuns run hrun
    · exact (hlastRuns run hrun).2.2.2
  · simp only [not_exists] at hread
    obtain ⟨hlength, hruns⟩ := @handlerRuns_of_not_pipe s line table hread
    exact ⟨hlength.trans (by decide), hruns⟩

/-- A line is executed with at most three lines in execution at once, and nothing decides what it
does but the handlers that it runs.  It runs one at most if it holds no `|`.  A pipe runs at most
one for its left side, and behind that one for its right side, if that is exactly `cat`.  Every
handler is handed a registered verb, and words without white space and operators. -/
theorem executeLine_nesting (table : VerbTable) (line : String) (s : Session) :
    (∀ beyond, executeWithin table beyond 3 line s = executeLine table line s)
      ∧ (∀ other : VerbTable, (∀ verb, (other.find? verb).isSome = (table.find? verb).isSome) →
          (∀ run ∈ handlerRuns table line s, ∀ verb words, run.tokens = verb :: words →
            ∃ handler, other.find? verb = some handler
              ∧ handler run.tokens = run.handler run.tokens) →
          executeLine other line s = executeLine table line s)
      ∧ ('|' ∉ line.toList → (handlerRuns table line s).length ≤ 1)
      ∧ (handlerRuns table line s).length ≤ 2
      ∧ (∀ left right, Line.parse line = .ok (.pipe left right) →
          ∃ first second, handlerRuns table line s = first ++ second
            ∧ first = handlerRuns table left s.captive ∧ first.length ≤ 1 ∧ second.length ≤ 1
            ∧ ∀ run ∈ second, right = "cat" ∧ run.tokens = ["cat"]
              ∧ run.before = behindLeft table left s)
      ∧ ∀ run ∈ handlerRuns table line s, run.Proper table := by
  obtain ⟨hlength, hproper⟩ := handlerRuns_le_two table line s
  refine ⟨?_, ?_, ?_, hlength, ?_, hproper⟩
  · intro beyond
    rw [executeWithin_of_depth (Job.depth_le_three line)]
  · intro other hverbs hsame
    exact executeLine_congr hverbs hsame
  · intro hbar
    exact (handlerRuns_of_not_pipe (Line.parse_ne_pipe hbar)).1
  · intro left right hread
    obtain ⟨last, hruns, hlast, hlastRuns⟩ := @handlerRuns_of_pipe s line table left right hread
    refine ⟨_, last, hruns, rfl, (handlerRuns_of_left hread).1, hlast, ?_⟩
    intro run hrun
    obtain ⟨hright, htokens, hbefore, -⟩ := hlastRuns run hrun
    exact ⟨hright, htokens, hbefore⟩

/-- Three lines at once, and two handlers one behind the other: a redirection in front of a `|`. -/
theorem executeLine_nesting_pipe :
    Line.parse "pwd > f | cat" = .ok (.pipe "pwd > f" "cat")
      ∧ (Job.ofText "pwd > f | cat").depth = 3
      ∧ (handlerRuns .standard "pwd > f | cat" quiet).map HandlerRun.tokens = [["pwd"], ["cat"]]
      ∧ (handlerRuns .standard "pwd > f" quiet.captive).length ≤ 1
      ∧ (handlerRuns .standard "pwd > f | cat" quiet).length ≤ 2
      ∧ (handlerRuns .standard "pwd > f" quiet).length ≤ 1 := by
  have hread : Line.parse "pwd > f | cat" = .ok (.pipe "pwd > f" "cat") := by decide
  obtain ⟨-, -, -, hlength, hpipe, -⟩ := executeLine_nesting .standard "pwd > f | cat" quiet
  obtain ⟨-, -, hplain, -⟩ := executeLine_nesting .standard "pwd > f" quiet
  obtain ⟨first, second, -, hfirst, hle, -⟩ := hpipe "pwd > f" "cat" hread
  refine ⟨hread, by decide +kernel, by decide +kernel, ?_, hlength, hplain (by decide)⟩
  rw [← hfirst]
  exact hle

end Session

end LineShell
