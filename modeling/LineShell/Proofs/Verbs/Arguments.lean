/-
Flags and operands, wherever they stand.

Two readers look at the words behind a verb.  The first one brings them into order, and all that it
keeps of the words are their flags and their operands, so words with the same flags and the same
operands are the same to everything behind it (`execute_rearranged`).  The second one reads what the
first has put in order, and has its own opinion on dashes, on `--` and on the word `help`.

That the two agree is shown along the flags.  The second reader takes a flag for a request for help
or looks it up among the options (`readFrom_flag`), and no option of a verb takes the next word
as its value (`Switches`), so it stands in front of the `--` again with one flag less.  Behind the
`--` every word is an operand, however it is spelled.  Once help was asked for, nothing is accepted
any more (`not_accepted_of_help`).  So words are accepted exactly if their flags are known, and then
the flags are the options and the operands are the operands (`read_flagsFirst_iff`).

What a verb does with its arguments is no part of this.  Words reach the body of a verb if they
would reach whatever stood in its place (`Builtin.Receives`).
-/
import LineShell.Proofs.Verbs.SinglePath

set_option autoImplicit false

namespace LineShell

open LineShell.Text

/-! ## Putting the words in order -/

/-- The same flags and the same operands, each in their order. -/
structure SameArguments (words others : List String) : Prop where
  flags : flagsOf words = flagsOf others
  operands : operandsOf words = operandsOf others

/-- No more than this is kept of the words. -/
theorem SameArguments.flagsFirst_eq {words others : List String} (h : SameArguments words others) :
    flagsFirst words = flagsFirst others := by
  rw [flagsFirst, flagsFirst, h.flags, h.operands]

theorem isFlag_of_flagsOf {words : List String} :
    ∀ flag ∈ flagsOf words, isFlag flag = true ∧ flag ≠ "--" := by
  intro flag hflag
  obtain ⟨hisFlag, hmark, -⟩ := isFlag_of_mem_flagsOf hflag
  exact ⟨hisFlag, hmark⟩

/-- Words that are in order already have the same flags and operands as before. -/
theorem sameArguments_flagsFirst (words : List String) :
    SameArguments (flagsFirst words) words := by
  have hbefore : ∀ flag ∈ flagsOf words, (flag != "--") = true := by
    intro flag hflag
    exact bne_iff_ne.mpr (isFlag_of_flagsOf flag hflag).2
  have hfront : beforeMark (flagsFirst words) = flagsOf words := by
    rw [beforeMark, flagsFirst, List.takeWhile_append_of_pos hbefore]
    exact List.append_nil _
  have hbehind : behindMark (flagsFirst words) = operandsOf words := by
    rw [behindMark, flagsFirst, List.dropWhile_append_of_pos hbefore]
    rfl
  constructor
  · rw [flagsOf, hfront, List.filter_eq_self]
    exact fun flag hflag => (isFlag_of_flagsOf flag hflag).1
  · rw [operandsOf, hfront, hbehind, List.filter_eq_nil_iff.mpr, List.nil_append]
    intro flag hflag
    simp [(isFlag_of_flagsOf flag hflag).1]

/-! ## Reading words that are in order -/

namespace Signature

variable {sig : Signature} {args args' : Arguments} {words flags operands : List String}

/-- No option takes the next word as its value. -/
def Switches (sig : Signature) : Prop := ∀ spec ∈ sig.options, spec.takesValue = false

/-- The options that some flags spell, in their order. -/
def given (sig : Signature) (flags : List String) : List (OptionSpec × Option String) :=
  flags.filterMap fun flag => (sig.find? flag).map fun spec => (spec, none)

theorem find?_eq_none_iff {flag : String} :
    sig.find? flag = none ↔ ¬ ∃ spec ∈ sig.options, flag ∈ spec.spellings := by
  simp [find?]

/-- Behind the mark every word is an operand, and a verb without operands admits no word. -/
theorem readOperands_accepted_iff :
    sig.readOperands false args words = .accepted args' ↔
      (sig.operands = false → words = [])
        ∧ args' = { args with operands := args.operands ++ words } := by
  cases hoperands : sig.operands with
  | true =>
    rw [readOperands_eq hoperands]
    simp [finish, eq_comm]
  | false =>
    cases words with
    | nil =>
      rw [readOperands, List.append_nil, finish, if_neg Bool.false_ne_true, Reading.accepted.injEq]
      constructor
      · intro h
        exact ⟨fun _ => rfl, h.symm⟩
      · intro h
        exact h.2.symm
    | cons word words => simp [readOperands, hoperands]

/-- Once help was asked for, nothing is accepted any more. -/
theorem not_accepted_of_help : sig.readFrom true args words ≠ .accepted args' := by
  have hoperands : ∀ rest args, sig.readOperands true args rest ≠ .accepted args' := by
    intro rest
    induction rest with
    | nil =>
      intro args h
      cases h
    | cons word rest ih =>
      intro args
      rw [readOperands]
      split
      · exact ih _
      · simp
  induction words generalizing args with
  | nil =>
    intro h
    cases h
  | cons word rest ih =>
    rw [readFrom]
    split
    · exact ih
    · split
      · exact hoperands rest args
      · split
        · simp
        · split
          · exact ih
          · simp

/-- **What the flags come to.**  They are looked up one after the other, and what stands behind the
mark are the operands. -/
theorem readFrom_flags_iff (hsig : sig.Switches)
    (hflags : ∀ flag ∈ flags, isFlag flag = true ∧ flag ≠ "--") :
    sig.readFrom false args (flags ++ "--" :: operands) = .accepted args' ↔
      (∀ flag ∈ flags, ∃ spec ∈ sig.options, flag ∈ spec.spellings) ∧ "--help" ∉ flags
        ∧ (sig.operands = false → operands = [])
        ∧ args' = ⟨args.given ++ sig.given flags, args.operands ++ operands⟩ := by
  induction flags generalizing args with
  | nil =>
    rw [List.nil_append, readFrom, if_neg (by decide), if_pos rfl, readOperands_accepted_iff]
    simp [given]
  | cons flag flags ih =>
    obtain ⟨hflag, hmark⟩ := hflags flag List.mem_cons_self
    rw [List.cons_append, readFrom_flag hsig hflag hmark, if_neg Bool.false_ne_true,
      List.forall_mem_cons, List.mem_cons, not_or]
    by_cases hhelp : flag = "--help"
    · rw [if_pos hhelp]
      constructor
      · intro h
        exact absurd h not_accepted_of_help
      · rintro ⟨-, ⟨hne, -⟩, -⟩
        exact absurd hhelp.symm hne
    · rw [if_neg hhelp]
      cases hfind : sig.find? flag with
      | none =>
        constructor
        · intro h
          cases h
        · rintro ⟨⟨hknown, -⟩, -⟩
          exact absurd hknown (find?_eq_none_iff.mp hfind)
      | some spec =>
        have hknown : ∃ spec ∈ sig.options, flag ∈ spec.spellings := by
          by_contra hunknown
          rw [find?_eq_none_iff.mpr hunknown] at hfind
          cases hfind
        have hgiven : sig.given (flag :: flags) = (spec, none) :: sig.given flags := by
          simp [given, hfind]
        simp only [ih fun other hother => hflags other (List.mem_cons_of_mem _ hother), hknown,
          hgiven, Arguments.addOption, List.append_assoc, List.singleton_append, true_and,
          Ne.symm hhelp, not_false_eq_true]

/-- **Words are accepted exactly if their flags are known.** -/
theorem read_flagsFirst_iff (hsig : sig.Switches) :
    sig.read (flagsFirst words) = .accepted args ↔
      (∀ flag ∈ flagsOf words, ∃ spec ∈ sig.options, flag ∈ spec.spellings)
        ∧ "--help" ∉ flagsOf words ∧ (sig.operands = false → operandsOf words = [])
        ∧ args = ⟨sig.given (flagsOf words), operandsOf words⟩ :=
  readFrom_flags_iff hsig isFlag_of_flagsOf

/-- An option was given exactly if some flag spells it. -/
theorem has_given_iff (spelling : String) (operands : List String) :
    (⟨sig.given flags, operands⟩ : Arguments).has spelling = true ↔
      ∃ flag ∈ flags, ∃ spec, sig.find? flag = some spec ∧ spelling ∈ spec.spellings := by
  simp only [Arguments.has, given, List.any_eq_true, List.mem_filterMap, Option.map_eq_some_iff,
    List.contains_iff_mem]
  constructor
  · rintro ⟨g, ⟨flag, hflag, spec, hfind, rfl⟩, hspelling⟩
    exact ⟨flag, hflag, spec, hfind, hspelling⟩
  · rintro ⟨flag, hflag, spec, hfind, hspelling⟩
    exact ⟨(spec, none), ⟨flag, hflag, spec, hfind, rfl⟩, hspelling⟩

end Signature

/-! ## Reaching the body -/

namespace Builtin

variable {b : Builtin} {words others : List String} {args : Arguments}

/-- The words reach the body of the verb as these arguments, whatever the body is. -/
def Receives (b : Builtin) (words : List String) (args : Arguments) : Prop :=
  ∀ body : Arguments → Action Int,
    ({ b with body := body } : Builtin).handler (b.verb :: words) = reporting (body args)

theorem receives_iff :
    b.Receives words args ↔ b.signature.read (flagsFirst words) = .accepted args := by
  constructor
  · intro h
    -- a body that tells the arguments from all others
    have hprobe := h fun received => if received = args then pure 0 else pure 1
    unfold handler at hprobe
    rw [List.tail_cons] at hprobe
    simp only [if_true] at hprobe
    split at hprobe
    · rename_i received hread
      rw [hread]
      by_cases hsame : received = args
      · rw [hsame]
      · rw [if_neg hsame] at hprobe
        exact nomatch hprobe
    · exact nomatch hprobe
    · exact nomatch hprobe
  · intro h body
    unfold handler
    rw [List.tail_cons, h]

/-- Words that are admitted: their flags are known, none of them asks for help, and the two verbs
that take no operands get none. -/
structure Admits (b : Builtin) (words : List String) : Prop where
  known : ∀ flag ∈ flagsOf words, ∃ spec ∈ b.signature.options, flag ∈ spec.spellings
  no_help : "--help" ∉ flagsOf words
  no_operand : b.verb = "pwd" ∨ b.verb = "help" → operandsOf words = []

/-- No option of a built-in verb takes a value. -/
theorem switches_of_mem (hb : b ∈ VerbTable.builtins) : b.signature.Switches := by
  revert b
  unfold Signature.Switches
  decide

/-- The built-in verbs without operands. -/
theorem operands_eq_false_iff (hb : b ∈ VerbTable.builtins) :
    b.signature.operands = false ↔ b.verb = "pwd" ∨ b.verb = "help" := by
  revert b
  decide

theorem find?_of_mem (hb : b ∈ VerbTable.builtins) :
    VerbTable.standard.find? b.verb = some b.handler := by
  simp only [VerbTable.builtins, List.mem_cons, List.not_mem_nil, or_false] at hb
  rcases hb with rfl | rfl | rfl | rfl | rfl | rfl | rfl | rfl | rfl | rfl | rfl <;> rfl

/-- Words reach the body exactly if they are admitted, and then as they are. -/
theorem receives_iff_admits (hb : b ∈ VerbTable.builtins) :
    b.Receives words args ↔
      b.Admits words ∧ args = ⟨b.signature.given (flagsOf words), operandsOf words⟩ := by
  rw [receives_iff, Signature.read_flagsFirst_iff (switches_of_mem hb), operands_eq_false_iff hb]
  constructor
  · rintro ⟨hknown, hhelp, hoperands, hargs⟩
    exact ⟨⟨hknown, hhelp, hoperands⟩, hargs⟩
  · rintro ⟨h, hargs⟩
    exact ⟨h.known, h.no_help, h.no_operand, hargs⟩

/-- Other words are answered in front of the body. -/
theorem handler_of_not_admits (hb : b ∈ VerbTable.builtins) (h : ¬ b.Admits words) :
    b.handler (b.verb :: words) = b.showUsage ∨
      ∃ e, b.handler (b.verb :: words) = b.refuse e := by
  unfold handler
  rw [List.tail_cons]
  split
  · rename_i args hread
    exact absurd ((receives_iff_admits hb).mp (receives_iff.mpr hread)).1 h
  · exact .inl rfl
  · rename_i e hread
    exact .inr ⟨e, rfl⟩

theorem handler_eq_of_same (h : SameArguments words others) (verb : String) :
    b.handler (verb :: words) = b.handler (verb :: others) := by
  unfold handler
  rw [List.tail_cons, List.tail_cons, h.flagsFirst_eq]

end Builtin

/-- The options of `ls`, each with two names. -/
theorem find?_ls (flag : String) :
    Verbs.ls.signature.find? flag =
      if flag = "-a" ∨ flag = "--all" then some ⟨["-a", "--all"], false⟩
      else if flag = "-r" ∨ flag = "--reverse" then some ⟨["-r", "--reverse"], false⟩
      else none := by
  have hcontains : ∀ short long : String,
      [short, long].contains flag = true ↔ flag = short ∨ flag = long := by
    intro short long
    rw [List.contains_iff_mem]
    simp
  unfold Signature.find?
  show List.find? (fun spec : OptionSpec => spec.spellings.contains flag)
    [⟨["-a", "--all"], false⟩, ⟨["-r", "--reverse"], false⟩] = _
  simp only [List.find?_cons, List.find?_nil, ← hcontains]
  cases ["-a", "--all"].contains flag <;> cases ["-r", "--reverse"].contains flag <;> rfl

/-- The options of `ls` are given under either of their names. -/
theorem has_ls_iff {flags : List String} (operands : List String) :
    ((⟨Verbs.ls.signature.given flags, operands⟩ : Arguments).has "-a" = true ↔
        "-a" ∈ flags ∨ "--all" ∈ flags)
      ∧ ((⟨Verbs.ls.signature.given flags, operands⟩ : Arguments).has "-r" = true ↔
        "-r" ∈ flags ∨ "--reverse" ∈ flags) := by
  have hall : ∀ flag, (∃ spec, Verbs.ls.signature.find? flag = some spec ∧ "-a" ∈ spec.spellings)
      ↔ flag = "-a" ∨ flag = "--all" := by
    intro flag
    rw [find?_ls]
    split
    · simp_all
    · split <;> simp_all
  have hreverse : ∀ flag,
      (∃ spec, Verbs.ls.signature.find? flag = some spec ∧ "-r" ∈ spec.spellings)
        ↔ flag = "-r" ∨ flag = "--reverse" := by
    intro flag
    rw [find?_ls]
    split
    · rename_i h
      rcases h with rfl | rfl <;> simp
    · split <;> simp_all
  have hor : ∀ short long : String,
      (∃ flag ∈ flags, flag = short ∨ flag = long) ↔ short ∈ flags ∨ long ∈ flags := by
    intro short long
    simp [and_or_left, exists_or]
  rw [Signature.has_given_iff, Signature.has_given_iff]
  simp only [hall, hreverse, hor, and_self]

/-! ## Lines -/

/-- Two jobs that differ only in the words behind a verb, and there only in where the flags
stand. -/
inductive Job.Rearranged (verb : String) : Job → Job → Prop where
  | simple {command other : String} {words others : List String}
      (hcommand : tokenize command = verb :: words) (hother : tokenize other = verb :: others)
      (h : SameArguments words others) : Rearranged verb (.simple command) (.simple other)
  | redirect {job other : Job} (target : String) (mode : Redirection)
      (h : Rearranged verb job other) :
      Rearranged verb (.redirect job target mode) (.redirect other target mode)
  | pipe {left other : Job} (right : String) (h : Rearranged verb left other) :
      Rearranged verb (.pipe left right) (.pipe other right)

namespace Session

/-- To a session rearranged jobs are the same. -/
theorem execute_rearranged {table : VerbTable} {b : Builtin}
    (hfind : table.find? b.verb = some b.handler) {job other : Job}
    (h : job.Rearranged b.verb other) (s : Session) :
    execute table job s = execute table other s := by
  induction h generalizing s with
  | simple hcommand hother hsame =>
    simp only [execute, dispatch, hcommand, hother, hfind, runHandler]
    rw [Builtin.handler_eq_of_same hsame]
  | redirect target mode h ih =>
    rename_i job other
    have hinner : execute table job = execute table other := funext ih
    rw [execute, execute, hinner]
  | pipe right h ih =>
    rename_i job other
    have hinner : execute table job = execute table other := funext ih
    rw [execute, execute, hinner]

/-- **Arguments mean the same wherever the flags stand.**  Of lines that differ only in where the
flags of a built-in verb stand, every session makes the same.  The body of the verb runs exactly if
its words are admitted, and then it gets the options that the flags spell and the operands as they
stand, whether one of them looks like a flag, a mark or a request for help; otherwise the verb
answers with its usage or refuses the words.  The two options of `ls` are set exactly if one of
their names is among the flags.  And words that were put in order stay as they are. -/
theorem arguments_anywhere {b : Builtin} (hb : b ∈ VerbTable.builtins) :
    (∀ line other, (Job.ofText line).Rearranged b.verb (Job.ofText other) →
        ∀ s, executeLine .standard line s = executeLine .standard other s)
      ∧ (∀ words args, b.Receives words args ↔
        b.Admits words ∧ args = ⟨b.signature.given (flagsOf words), operandsOf words⟩)
      ∧ (∀ words, ¬ b.Admits words →
        b.handler (b.verb :: words) = b.showUsage ∨
          ∃ e, b.handler (b.verb :: words) = b.refuse e)
      ∧ (∀ words args, Verbs.ls.Receives words args →
        (args.has "-a" = true ↔ "-a" ∈ flagsOf words ∨ "--all" ∈ flagsOf words)
          ∧ (args.has "-r" = true ↔ "-r" ∈ flagsOf words ∨ "--reverse" ∈ flagsOf words))
      ∧ ∀ words, flagsFirst (flagsFirst words) = flagsFirst words := by
  refine ⟨?_, fun words args => b.receives_iff_admits hb, fun words => b.handler_of_not_admits hb,
    ?_, fun words => (sameArguments_flagsFirst words).flagsFirst_eq⟩
  · intro line other h s
    exact execute_rearranged (Builtin.find?_of_mem hb) h s
  · intro words args h
    have hls : Verbs.ls ∈ VerbTable.builtins := by simp [VerbTable.builtins]
    rw [((Builtin.receives_iff_admits hls).mp h).2]
    exact has_ls_iff _

/-- A listing with one flag in front of its operand and one behind it, and an operand that is
spelled like a flag. -/
theorem arguments_anywhere_ls :
    Verbs.ls ∈ VerbTable.builtins
      ∧ Verbs.ls.Receives ["-r", "help", "--all", "--", "-a"]
        ⟨[(⟨["-r", "--reverse"], false⟩, none), (⟨["-a", "--all"], false⟩, none)], ["help", "-a"]⟩
      ∧ ∀ s, executeLine .standard "ls -r sub -a > t" s
        = executeLine .standard "ls sub -r -a > t" s := by
  have hls : Verbs.ls ∈ VerbTable.builtins := by simp [VerbTable.builtins]
  obtain ⟨hlines, hreceives, -, -, -⟩ := arguments_anywhere hls
  refine ⟨hls, ?_, ?_⟩
  · refine (hreceives _ _).mpr ⟨⟨by decide, by decide, ?_⟩, by decide⟩
    intro hverb
    exact absurd hverb (by decide)
  · apply hlines
    have hjobs : Job.ofText "ls -r sub -a > t" = .redirect (.simple "ls -r sub -a") "t" .overwrite
        ∧ Job.ofText "ls sub -r -a > t" = .redirect (.simple "ls sub -r -a") "t" .overwrite := by
      decide +kernel
    rw [hjobs.1, hjobs.2]
    apply Job.Rearranged.redirect
    apply @Job.Rearranged.simple _ _ _ ["-r", "sub", "-a"] ["sub", "-r", "-a"]
    · decide +kernel
    · decide +kernel
    · exact ⟨by decide, by decide⟩

end Session

end LineShell
