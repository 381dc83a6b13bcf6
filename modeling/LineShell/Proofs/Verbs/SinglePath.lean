/-
The verbs about one path.

`mkdir`, `rmdir`, `touch`, `rm` and `cd` look at their first operand and make one change, or none.
Each of them makes at most one call that changes something, behind all its tests, and speaks last,
so where every stream takes everything nothing can go wrong behind the change.  There are two ways
to end, then.  Nothing has changed, there is one message on the error stream, and the status is 1;
or the change was made, there is one message on the output, and the status is 0.

What stands in front of the body adds nothing to this.  Words that the verb does not admit are
refused with a message as well.  Only words that ask for the usage by their flags, and have no
other flag, end in a third way: the usage is printed.
-/
import LineShell.Proofs.Files.Changes
import LineShell.Proofs.Session.Transparency
import LineShell.Proofs.Verbs.Environments
import LineShell.Proofs.Verbs.Reporting

set_option autoImplicit false

namespace LineShell

open LineShell.Text

/-! ## Reading the words -/

/-- Words that have flags, all of which ask for the usage. -/
def AsksUsage (words : List String) : Prop :=
  flagsOf words ≠ [] ∧ ∀ flag ∈ flagsOf words, flag = "--help"

theorem isFlag_of_mem_flagsOf {words : List String} {flag : String} (h : flag ∈ flagsOf words) :
    isFlag flag = true ∧ flag ≠ "--" ∧ flag ∈ words := by
  obtain ⟨hbefore, hflag⟩ := List.mem_filter.mp h
  refine ⟨hflag, ?_, (List.takeWhile_sublist _).subset hbefore⟩
  simpa using List.mem_takeWhile_imp hbefore

theorem mem_of_mem_operandsOf {words : List String} {operand : String}
    (h : operand ∈ operandsOf words) : operand ∈ words := by
  rcases List.mem_append.mp h with h | h
  · exact (List.takeWhile_sublist _).subset (List.mem_filter.mp h).1
  · exact (List.dropWhile_sublist _).subset (List.mem_of_mem_drop h)

namespace Signature

/-- Where no option takes a value, a flag asks for the usage or it is looked up. Behind a request for
the usage any other flag is refused. -/
theorem readFrom_flag {sig : Signature} (hsig : ∀ spec ∈ sig.options, spec.takesValue = false)
    {flag : String} (hflag : isFlag flag = true) (hmark : flag ≠ "--") (help : Bool)
    (args : Arguments) (rest : List String) :
    sig.readFrom help args (flag :: rest) =
      if flag = "--help" then sig.readFrom true args rest
      else if help then .refused .behindHelp
      else match sig.find? flag with
        | none => .refused (.unrecognized flag)
        | some spec => sig.readFrom help (args.addOption spec none) rest := by
  have hdash : beginsWithDash flag = true := (Bool.and_eq_true_iff.mp hflag).1
  have hne : flag ≠ "help" := by
    rintro rfl
    exact absurd hflag (by decide)
  have hhelp : isHelpWord flag = true ↔ flag = "--help" := by
    rw [isHelpWord, Bool.or_eq_true, beq_iff_eq, beq_iff_eq]
    exact or_iff_left hne
  rw [readFrom]
  simp only [hhelp, if_neg hmark, if_pos hdash]
  congr 2
  cases hfind : sig.find? flag with
  | none => rfl
  | some spec =>
    have hnoValue : spec.takesValue = false := hsig spec (List.mem_of_find?_eq_some hfind)
    simp only [hnoValue, if_neg Bool.false_ne_true]

/-- The flags of a verb without options decide what its words come to. -/
theorem readFrom_flags {flags : List String}
    (hflags : ∀ flag ∈ flags, isFlag flag = true ∧ flag ≠ "--") (help : Bool)
    (operands : List String) :
    ((∀ flag ∈ flags, flag = "--help")
        ∧ Builtin.operandsOnly.readFrom help .none (flags ++ "--" :: operands)
          = finish (help || !flags.isEmpty) ⟨[], operands⟩)
      ∨ ((¬ ∀ flag ∈ flags, flag = "--help")
        ∧ ∃ e, Builtin.operandsOnly.readFrom help .none (flags ++ "--" :: operands) = .refused e
          ∧ (e = .behindHelp ∨ ∃ flag ∈ flags, e = .unrecognized flag)) := by
  induction flags generalizing help with
  | nil =>
    left
    refine ⟨nofun, ?_⟩
    rw [List.nil_append, readFrom, if_neg (by decide), if_pos rfl, readOperands_eq rfl]
    simp [Arguments.none]
  | cons flag flags ih =>
    obtain ⟨hflag, hmark⟩ := hflags flag List.mem_cons_self
    have hnone : ∀ spec ∈ Builtin.operandsOnly.options, spec.takesValue = false :=
      fun _ hspec => absurd hspec List.not_mem_nil
    rw [List.cons_append, readFrom_flag hnone hflag hmark]
    by_cases heq : flag = "--help"
    · rw [if_pos heq]
      rcases ih (fun f hf => hflags f (List.mem_cons_of_mem _ hf)) true with
        ⟨hall, hread⟩ | ⟨hnot, e, hread, he⟩
      · left
        refine ⟨?_, by simp [hread]⟩
        intro f hf
        rcases List.mem_cons.mp hf with rfl | hf
        · exact heq
        · exact hall f hf
      · right
        refine ⟨fun hall => hnot fun f hf => hall f (List.mem_cons_of_mem _ hf), e, hread, ?_⟩
        rcases he with he | ⟨f, hf, he⟩
        · exact .inl he
        · exact .inr ⟨f, List.mem_cons_of_mem _ hf, he⟩
    · rw [if_neg heq]
      right
      refine ⟨fun hall => heq (hall flag List.mem_cons_self), ?_⟩
      cases help
      · exact ⟨_, rfl, .inr ⟨flag, List.mem_cons_self, rfl⟩⟩
      · exact ⟨_, rfl, .inl rfl⟩

end Signature

/-- The command behind the words of a verb that takes operands and no option. -/
theorem Builtin.handler_of_operandsOnly {b : Builtin} (hb : b.signature = operandsOnly)
    (words : List String) :
    (flagsOf words = []
        ∧ b.handler (b.verb :: words) = reporting (b.body ⟨[], operandsOf words⟩))
      ∨ (AsksUsage words ∧ b.handler (b.verb :: words) = b.showUsage)
      ∨ (¬ AsksUsage words ∧ ∃ e, b.handler (b.verb :: words) = b.refuse e
        ∧ (e = .behindHelp ∨ ∃ flag ∈ words, e = .unrecognized flag)) := by
  have hflags : ∀ flag ∈ flagsOf words, isFlag flag = true ∧ flag ≠ "--" := by
    intro flag hflag
    obtain ⟨hisFlag, hmark, -⟩ := isFlag_of_mem_flagsOf hflag
    exact ⟨hisFlag, hmark⟩
  have hread : ∀ reading,
      operandsOnly.readFrom false .none (flagsOf words ++ "--" :: operandsOf words) = reading →
      b.signature.read (flagsFirst words) = reading := by
    intro reading hreading
    rw [hb, ← hreading]
    rfl
  unfold handler
  rw [List.tail_cons]
  rcases Signature.readFrom_flags hflags false (operandsOf words) with
    ⟨hall, hreading⟩ | ⟨hnot, e, hreading, he⟩
  · rw [hread _ hreading]
    by_cases hnil : flagsOf words = []
    · left
      rw [hnil]
      exact ⟨rfl, rfl⟩
    · right
      left
      have hsome : (flagsOf words).isEmpty = false := by simpa using hnil
      rw [hsome]
      exact ⟨⟨hnil, hall⟩, rfl⟩
  · right
    right
    rw [hread _ hreading]
    refine ⟨fun husage => hnot husage.2, e, rfl, ?_⟩
    rcases he with he | ⟨flag, hflag, he⟩
    · exact .inl he
    · exact .inr ⟨flag, (isFlag_of_mem_flagsOf hflag).2.2, he⟩

/-! ## Lines that are said -/

theorem encode_append (first second : String) :
    encode (first ++ second) = encode first ++ encode second := by
  rw [encode, String.toList_append, List.flatMap_append]
  rfl

namespace World

variable {w : World}

/-- A world whose output has got one line more. -/
def told (w : World) (line : String) : World := w.hear [.printed (encode line ++ [newline])]

/-- A world whose error stream has got one line more. -/
def warned (w : World) (line : String) : World :=
  { w with errors := w.errors.append (encode line ++ [newline]) }

theorem Takes.run_printAll (h : w.Takes) (pieces : List Bytes) :
    (Action.printAll pieces).run w = (.done (), w.hear (pieces.map .printed)) := by
  induction pieces generalizing w with
  | nil =>
    rw [List.map_nil, hear_nil]
    rfl
  | cons piece pieces ih =>
    rw [Action.printAll, Action.run_bind, (Action.run_print h piece).1]
    simp only
    rw [ih (h.hear _), hear_hear]
    rfl

/-- Pieces are heard as the whole that they make. -/
theorem hear_pieces (w : World) (pieces : List Bytes) :
    w.hear (pieces.map .printed) = w.hear [.printed pieces.flatten] := by
  have hprints : prints (pieces.map .printed) = pieces.map .printed := by
    apply prints_eq_self
    simp [Utterance.question?]
  have hheard : heard (pieces.map .printed) = pieces.flatten := by
    simp [heard, List.flatMap_map, Utterance.bytes, List.flatMap_id']
  have hmerged := w.hear_prints (pieces.map .printed)
  rw [hprints, hheard] at hmerged
  exact hmerged

theorem Takes.run_printLine (h : w.Takes) (pieces : List String) {line : String}
    (hline : (pieces.map encode).flatten = encode line) :
    (Action.printLine pieces).run w = (.done (), w.told line) := by
  rw [Action.printLine, h.run_printAll, hear_pieces, List.flatten_append, hline]
  rfl

end World

/-- Refusing words is one line on the error stream, and status 1. -/
theorem Builtin.run_refuse {w : World} (hroom : w.errors.room = none) (b : Builtin)
    (e : ArgumentError) :
    (b.refuse e).run w
      = (.done 1, w.warned (b.verb ++ ": " ++ String.ofList (trimEnd e.message.toList))) := by
  rw [refuse, Action.run_bind, Action.run_complain hroom]
  rfl

/-- The newlines of a line are those of the texts that it quotes. -/
def Quotes (quoted : List String) (line : String) : Prop :=
  '\n' ∈ line.toList → ∃ text ∈ quoted, '\n' ∈ text.toList

namespace Quotes

variable {quoted : List String} {first second : String}

theorem plain (h : '\n' ∉ first.toList) : Quotes quoted first := fun hmem => absurd hmem h

theorem text (h : first ∈ quoted) : Quotes quoted first := fun hmem => ⟨first, h, hmem⟩

theorem append (hfirst : Quotes quoted first) (hsecond : Quotes quoted second) :
    Quotes quoted (first ++ second) := by
  intro hmem
  rw [String.toList_append] at hmem
  rcases List.mem_append.mp hmem with hmem | hmem
  · exact hfirst hmem
  · exact hsecond hmem

theorem io (e : IoError) : Quotes quoted e.message := by
  apply plain
  cases e with
  | os reason => cases reason <;> simp [IoError.message, Errno.message]
  | _ => simp [IoError.message]

/-- A newline at the end is trimmed. -/
theorem trimmed (h : Quotes quoted first) (closing : String) (hplain : '\n' ∉ closing.toList)
    (hend : second.toList = closing.toList ++ ['\n']) :
    Quotes quoted (String.ofList (trimEnd (first ++ second).toList)) := by
  have hspace : isSpace '\n' = true := by decide
  intro hmem
  rw [String.toList_ofList, String.toList_append, hend, ← List.append_assoc, trimEnd_eq_rdropWhile,
    List.rdropWhile_concat_pos isSpace _ _ hspace] at hmem
  rcases List.mem_append.mp ((List.rdropWhile_prefix isSpace _).subset hmem) with hmem | hmem
  · exact h hmem
  · exact absurd hmem hplain

end Quotes

/-- The words that a message about refused words quotes. -/
def ArgumentError.words : ArgumentError → List String
  | .unrecognized word => [word]
  | .missingValue option => [option]
  | .duplicate option value => [option, value]
  | .behindHelp => []

/-- A line about a failure of a verb: the verb comes first. -/
structure Blames (verb : String) (quoted : List String) (line : String) : Prop where
  named : (verb ++ ": ").toList <+: line.toList
  quotes : Quotes quoted line

namespace Blames

variable {verb first second : String} {quoted : List String}

theorem opening (hnamed : (verb ++ ": ").toList <+: first.toList) (hplain : '\n' ∉ first.toList) :
    Blames verb quoted first := ⟨hnamed, .plain hplain⟩

theorem append (hfirst : Blames verb quoted first) (hsecond : Quotes quoted second) :
    Blames verb quoted (first ++ second) := by
  have htext : (first ++ second).toList = first.toList ++ second.toList := String.toList_append
  refine ⟨?_, hfirst.quotes.append hsecond⟩
  rw [htext]
  exact hfirst.named.trans (List.prefix_append _ _)

/-- A line that quotes an operand at its end. -/
theorem about (hnamed : (verb ++ ": ").toList <+: first.toList) (hplain : '\n' ∉ first.toList)
    (hquoted : second ∈ quoted) : Blames verb quoted (first ++ second) :=
  (opening hnamed hplain).append (.text hquoted)

/-- A line that quotes an operand and says what the operating system has answered. -/
theorem because (hnamed : (verb ++ ": ").toList <+: first.toList) (hplain : '\n' ∉ first.toList)
    (hquoted : second ∈ quoted) {closing : String} (hclosing : '\n' ∉ closing.toList)
    (e : IoError) : Blames verb quoted (first ++ second ++ closing ++ e.message) :=
  ((about hnamed hplain hquoted).append (.plain hclosing)).append (.io e)

theorem of_verb (hverb : '\n' ∉ verb.toList) (h : Quotes quoted second) :
    Blames verb quoted (verb ++ ": " ++ second) := by
  apply Blames.append _ h
  exact ⟨List.prefix_refl _, (Quotes.plain hverb).append (.plain (by decide))⟩

/-- What is said about refused words quotes some of them. -/
theorem refused {words : List String} (hverb : '\n' ∉ verb.toList) {e : ArgumentError}
    (he : e.words ⊆ words) :
    Blames verb words (verb ++ ": " ++ String.ofList (trimEnd e.message.toList)) := by
  apply of_verb hverb
  have hquoted : ∀ word ∈ e.words, Quotes words word := fun word hword => .text (he hword)
  cases e with
  | unrecognized word =>
    have hword := hquoted word List.mem_cons_self
    exact ((Quotes.plain (by decide)).append hword).trimmed "" (by decide) (by decide)
  | missingValue option =>
    have hoption := hquoted option List.mem_cons_self
    exact ((Quotes.plain (by decide)).append hoption).trimmed "'." (by decide) (by decide)
  | duplicate option value =>
    have hoption := hquoted option List.mem_cons_self
    have hvalue := hquoted value (List.mem_cons_of_mem _ List.mem_cons_self)
    have hopening : Quotes words
        ("Error parsing option '" ++ option ++ "' with value '" ++ value) :=
      (((Quotes.plain (by decide)).append hoption).append (.plain (by decide))).append hvalue
    exact hopening.trimmed "': duplicate values provided" (by decide) (by decide)
  | behindHelp => exact .plain (by decide)

end Blames

/-! ## Changes -/

namespace SinglePath

/-- The verbs about one path. -/
def verbs : List Builtin := [Verbs.mkdir, Verbs.rmdir, Verbs.touch, Verbs.rm, Verbs.cd]

/-- The one change that a verb makes, and what it says then: the line on the output, the environment
and the files behind it. -/
inductive Change (w : World) (operands : List String) :
    Builtin → String → Environment → FileSystem → Prop where
  | mkdir {operand : String} {files : FileSystem} {l : Location}
      (first : operands.head? = some operand)
      (adds : w.files.AddsDirectory (w.env.locate operand) files l) :
      Change w operands Verbs.mkdir ("Directory created: " ++ operand) w.env files
  | rmdir {operand : String} {files : FileSystem} {l : Location}
      (first : operands.head? = some operand)
      (drops : w.files.DropsDirectory (w.env.locate operand) files l) :
      Change w operands Verbs.rmdir ("Directory removed: " ++ operand) w.env files
  | touch {operand : String} {files : FileSystem} (first : operands.head? = some operand)
      (touches : w.files.Touches (w.env.locate operand) files) :
      Change w operands Verbs.touch ("File created/updated: " ++ operand) w.env files
  | rm {operand : String} {files : FileSystem} {l : Location} {node : Node}
      (first : operands.head? = some operand)
      (drops : w.files.DropsEntry (w.env.locate operand) files l node) :
      Change w operands Verbs.rm ("File removed: " ++ operand) w.env files
  | cd {dir : Path} (leads : Verbs.destination w.env operands.head? = some dir)
      (there : w.files.isDirectory dir = true) :
      Change w operands Verbs.cd ("Changed directory to: " ++ dir.display)
        { w.env with currentDir := dir } w.files

/-- The texts that a verb may quote: its words, and the directory that `cd` goes to. -/
def quotable (b : Builtin) (w : World) (words : List String) : List String :=
  words ++ (if b.verb = "cd" then (Verbs.destination w.env (operandsOf words).head?).toList
    else []).map Path.display

/-- How the body of a verb ends: it gives up and has done nothing, or it has made its change. -/
def Decides (b : Builtin) (w : World) (operands quoted : List String)
    (ran : Outcome Int × World) : Prop :=
  (∃ failure, ran = (.failed failure, w) ∧ Blames b.verb quoted failure.message)
    ∨ ∃ line env files, Change w operands b line env files ∧ Quotes quoted line
      ∧ ran = (.done 0, { w.told line with env := env, files := files })

/-- Where every stream takes everything, the line behind a change is taken. -/
theorem decides_of_change {b : Builtin} {w : World} (htakes : w.Takes)
    {operands quoted : List String} {line : String} {env : Environment} {files : FileSystem}
    (hchange : Change w operands b line env files) (hquotes : Quotes quoted line)
    {pieces : List String} (hline : (pieces.map encode).flatten = encode line) :
    Decides b w operands quoted
      ((Action.printLine pieces >>= fun _ => (pure 0 : Action Int)).run
        { w with env := env, files := files }) := by
  right
  refine ⟨line, env, files, hchange, hquotes, ?_⟩
  have htakesThere : World.Takes { w with env := env, files := files } :=
    ⟨htakes.fileless, htakes.room⟩
  rw [Action.run_bind, htakesThere.run_printLine pieces hline]
  rfl

/-- Giving up where nothing was done. -/
theorem decides_of_failed {b : Builtin} {w : World} {operands quoted : List String}
    {failure : Failure} (h : Blames b.verb quoted failure.message) :
    Decides b w operands quoted (.failed failure, w) := .inl ⟨failure, rfl, h⟩

section Bodies

variable {w : World} {operand : String} {operands quoted : List String}

/-- How a verb ends behind its call: with a line about the change, or with the reason why there is
none. -/
def committed (w : World) (line : String) (failure : IoError → Failure) :
    Except IoError FileSystem → Outcome Int × World
  | .ok files => (.done 0, { w.told line with files := files })
  | .error e => (.failed (failure e), w)

/-- What the calls of the verbs end in: a call that makes the change or is refused, and a line about
the change. -/
theorem run_commit (htakes : w.Takes) {act : Action (Except IoError Unit)}
    {result : Except IoError FileSystem} {failure : IoError → Failure} {said : String}
    (hact : act.run w
      = (.done (w.files.commit result).1, { w with files := (w.files.commit result).2 })) :
    (act >>= fun reply => Verbs.orFail reply failure >>= fun _ =>
        Action.printLine [said, operand] >>= fun _ => (pure 0 : Action Int)).run w
      = committed w (said ++ operand) failure result := by
  have hline : ([said, operand].map encode).flatten = encode (said ++ operand) := by
    simp [encode_append]
  rw [Action.run_bind, hact]
  cases result with
  | error e => rfl
  | ok files =>
    have htakesThere : World.Takes { w with files := files } := ⟨htakes.fileless, htakes.room⟩
    show ((Action.printLine [said, operand] >>= fun _ => (pure 0 : Action Int)).run
      { w with files := files }) = _
    rw [Action.run_bind, htakesThere.run_printLine _ hline]
    rfl

theorem decides_commit {b : Builtin} (htakes : w.Takes) {act : Action (Except IoError Unit)}
    {result : Except IoError FileSystem} {failure : IoError → Failure} {said : String}
    (hact : act.run w
      = (.done (w.files.commit result).1, { w with files := (w.files.commit result).2 }))
    (hrefused : ∀ e, Blames b.verb quoted (failure e).message)
    (hchange : ∀ files, result = .ok files → Change w operands b (said ++ operand) w.env files)
    (hquotes : Quotes quoted (said ++ operand)) :
    Decides b w operands quoted
      ((act >>= fun reply => Verbs.orFail reply failure >>= fun _ =>
        Action.printLine [said, operand] >>= fun _ => (pure 0 : Action Int)).run w) := by
  rw [run_commit htakes hact]
  cases result with
  | error e => exact decides_of_failed (hrefused e)
  | ok files => exact .inr ⟨_, w.env, files, hchange files rfl, hquotes, rfl⟩

theorem decides_makeDirectory (hsound : w.files.Sound) (htakes : w.Takes)
    (hfirst : operands.head? = some operand) (hquoted : operand ∈ quoted) :
    Decides Verbs.mkdir w operands quoted ((Verbs.makeDirectory operand).run w) := by
  rw [Verbs.makeDirectory, Action.run_bind, Action.run_locate]
  simp only
  rw [Action.run_bind, Action.run_isThere]
  cases (w.files.status (w.env.locate operand)).isOk with
  | true =>
    exact decides_of_failed (.about (by decide) (by decide) hquoted)
  | false =>
    apply decides_commit htakes rfl
    · intro e
      exact .because (by decide) (by decide) hquoted (by decide) e
    · intro files hmade
      obtain ⟨l, hadds⟩ := FileSystem.makeDirectory_adds hsound hmade
      exact .mkdir hfirst hadds
    · exact (Quotes.plain (by decide)).append (.text hquoted)

theorem decides_removeDirectory (hsound : w.files.Sound) (htakes : w.Takes)
    (hfirst : operands.head? = some operand) (hquoted : operand ∈ quoted) :
    Decides Verbs.rmdir w operands quoted ((Verbs.removeDirectory operand).run w) := by
  have hlist : w.answer (.files (.list (w.env.locate operand)))
      = (w.files.list (w.env.locate operand), w) := rfl
  -- the operating system may refuse to list the directory, and to remove it
  have hrefused : ∀ e, Blames "rmdir" quoted (Failure.cannotRemoveDirectory operand e).message := by
    intro e
    exact .because (by decide) (by decide) hquoted (by decide) e
  rw [Verbs.removeDirectory, Action.run_bind, Action.run_locate]
  simp only
  rw [Action.run_bind, Action.run_isDirectory]
  cases w.files.isDirectory (w.env.locate operand) with
  | false =>
    exact decides_of_failed (.about (by decide) (by decide) hquoted)
  | true =>
    simp only [if_true]
    rw [Action.run_bind, Action.call, Action.run_ask, hlist]
    rcases w.files.list (w.env.locate operand) with e | names
    · exact decides_of_failed (hrefused e)
    · show Decides _ _ _ _ ((if names.isEmpty = true then _ else _ : Action Int).run w)
      split
      · apply decides_commit htakes rfl hrefused
        · intro files hdropped
          obtain ⟨l, hdrops⟩ := FileSystem.removeDirectory_drops hsound hdropped
          exact .rmdir hfirst hdrops
        · exact (Quotes.plain (by decide)).append (.text hquoted)
      · apply decides_of_failed
        exact (Blames.about (by decide) (by decide) hquoted).append (.plain (by decide))

theorem decides_touchFile (hsound : w.files.Sound) (htakes : w.Takes)
    (hfirst : operands.head? = some operand) (hquoted : operand ∈ quoted) :
    Decides Verbs.touch w operands quoted ((Verbs.touchFile operand).run w) := by
  rw [Verbs.touchFile, Action.run_bind, Action.run_locate]
  apply decides_commit htakes rfl
  · intro e
    exact .because (by decide) (by decide) hquoted (by decide) e
  · intro files htouched
    exact .touch hfirst (FileSystem.touch_touches hsound htouched)
  · exact (Quotes.plain (by decide)).append (.text hquoted)

theorem decides_removeFile (hsound : w.files.Sound) (htakes : w.Takes)
    (hfirst : operands.head? = some operand) (hquoted : operand ∈ quoted) :
    Decides Verbs.rm w operands quoted ((Verbs.removeFile operand).run w) := by
  have hstatus : w.answer (.files (.entryStatus (w.env.locate operand)))
      = (w.files.entryStatus (w.env.locate operand), w) := rfl
  -- whatever the entry is, if it is no directory
  have hremoves : Decides Verbs.rm w operands quoted
      ((Action.call (.removeFile (w.env.locate operand)) >>= fun reply =>
        Verbs.orFail reply (.cannotRemove operand) >>= fun _ =>
          Action.printLine ["File removed: ", operand] >>= fun _ =>
            (pure 0 : Action Int)).run w) := by
    apply decides_commit htakes rfl
    · intro e
      exact .because (by decide) (by decide) hquoted (by decide) e
    · intro files hdropped
      obtain ⟨l, node, hdrops⟩ := FileSystem.removeFile_drops hsound hdropped
      exact .rm hfirst hdrops
    · exact (Quotes.plain (by decide)).append (.text hquoted)
  rw [Verbs.removeFile, Action.run_bind, Action.run_locate]
  simp only
  rw [Action.run_bind, Action.call, Action.run_ask, hstatus]
  rcases w.files.entryStatus (w.env.locate operand) with e | (_ | _ | _ | _)
  · exact decides_of_failed (.about (by decide) (by decide) hquoted)
  · apply decides_of_failed
    exact (Blames.about (by decide) (by decide) hquoted).append (.plain (by decide))
  · exact hremoves
  · exact hremoves
  · exact hremoves

theorem decides_changeDirectory (htakes : w.Takes)
    (hquoted : ∀ dir ∈ Verbs.destination w.env operands.head?, dir.display ∈ quoted) :
    Decides Verbs.cd w operands quoted ((Verbs.changeDirectory operands.head?).run w) := by
  have henv : (Action.ask .environment).run w = (.done w.env, w) := rfl
  unfold Verbs.changeDirectory
  rw [Action.run_bind, henv]
  simp only
  cases hdir : Verbs.destination w.env operands.head? with
  | none => exact decides_of_failed (.opening (by decide) (by decide))
  | some dir =>
    simp only
    rw [Action.run_bind, Action.run_isDirectory]
    cases hthere : w.files.isDirectory dir with
    | false => exact decides_of_failed (.about (by decide) (by decide) (hquoted dir hdir))
    | true =>
      simp only [if_true]
      rw [Action.run_bind]
      apply decides_of_change htakes (.cd hdir hthere)
      · exact (Quotes.plain (by decide)).append (.text (hquoted dir hdir))
      · simp [encode_append]

/-- A verb that needs an operand gives up without one. -/
theorem decides_firstOperand {b : Builtin} {act : String → Action Int}
    (hact : ∀ operand, operands.head? = some operand →
      Decides b w operands quoted ((act operand).run w)) (hverb : '\n' ∉ b.verb.toList) :
    Decides b w operands quoted
      (((⟨[], operands⟩ : Arguments).firstOperand b.verb >>= act).run w) := by
  cases operands with
  | nil =>
    apply decides_of_failed
    have hmissing := Blames.of_verb hverb (.plain (by decide) : Quotes quoted "missing argument")
    rwa [String.append_assoc] at hmissing
  | cons operand operands => exact hact operand rfl

end Bodies

theorem verb_plain {b : Builtin} (hb : b ∈ verbs) : '\n' ∉ b.verb.toList := by
  revert b
  decide

theorem signature_eq {b : Builtin} (hb : b ∈ verbs) : b.signature = Builtin.operandsOnly := by
  revert b
  decide

/-- Every verb about one path makes its change, or gives up and has done nothing. -/
theorem decides_body {b : Builtin} (hb : b ∈ verbs) {w : World} (hsound : w.files.Sound)
    (htakes : w.Takes) (words : List String) :
    Decides b w (operandsOf words) (quotable b w words)
      ((b.body ⟨[], operandsOf words⟩).run w) := by
  have hfirst : ∀ operand, (operandsOf words).head? = some operand →
      operand ∈ quotable b w words := by
    intro operand hoperand
    apply List.mem_append_left
    exact mem_of_mem_operandsOf (List.mem_of_mem_head? hoperand)
  have hplain := verb_plain hb
  simp only [verbs, List.mem_cons, List.not_mem_nil, or_false] at hb
  rcases hb with rfl | rfl | rfl | rfl | rfl
  -- four verbs need an operand, and `cd` goes home without one
  · apply decides_firstOperand _ hplain
    intro operand hoperand
    exact decides_makeDirectory hsound htakes hoperand (hfirst operand hoperand)
  · apply decides_firstOperand _ hplain
    intro operand hoperand
    exact decides_removeDirectory hsound htakes hoperand (hfirst operand hoperand)
  · apply decides_firstOperand _ hplain
    intro operand hoperand
    exact decides_touchFile hsound htakes hoperand (hfirst operand hoperand)
  · apply decides_firstOperand _ hplain
    intro operand hoperand
    exact decides_removeFile hsound htakes hoperand (hfirst operand hoperand)
  · apply decides_changeDirectory htakes
    intro dir hdir
    apply List.mem_append_right
    apply List.mem_map_of_mem
    exact Option.mem_toList.mpr hdir

/-! ## Commands -/

/-- The verb has failed: it has said so in one line on the error stream, and done nothing else. -/
def Fails (b : Builtin) (w : World) (words : List String) (ran : Outcome Int × World) : Prop :=
  ∃ message, ran = (.done 1, w.warned message) ∧ Blames b.verb (quotable b w words) message

/-- The verb has made its change: it has said so in one line on the output, and done nothing else.
There was no flag among its words. -/
def Succeeds (b : Builtin) (w : World) (words : List String) (ran : Outcome Int × World) : Prop :=
  flagsOf words = [] ∧ ∃ line env files, Change w (operandsOf words) b line env files
    ∧ Quotes (quotable b w words) line
    ∧ ran = (.done 0, { w.told line with env := env, files := files })

variable {b : Builtin} {w : World} {words : List String} {ran : Outcome Int × World}

theorem not_fails_and_succeeds : ¬(Fails b w words ran ∧ Succeeds b w words ran) := by
  rintro ⟨⟨message, hfailed, -⟩, -, line, env, files, -, -, hdone⟩
  rw [hfailed] at hdone
  injection hdone with houtcome
  injection houtcome with hstatus
  exact absurd hstatus (by decide)

/-- Words that only ask for the usage get it. -/
theorem run_asksUsage (hb : b ∈ verbs) (htakes : w.Takes) (husage : AsksUsage words) :
    (b.handler (b.verb :: words)).run w = (.done 0, w.told b.usage.text) := by
  rcases Builtin.handler_of_operandsOnly (signature_eq hb) words with
    ⟨hnoflags, -⟩ | ⟨-, hhandler⟩ | ⟨hnousage, -⟩
  · exact absurd hnoflags husage.1
  · have hline : ([b.usage.text].map encode).flatten = encode b.usage.text := by simp
    rw [hhandler, Builtin.showUsage, Action.run_bind, htakes.run_printLine _ hline]
    rfl
  · exact absurd husage hnousage

/-- Refused words are answered on the error stream. -/
theorem fails_refuse (hb : b ∈ verbs) (hroom : w.errors.room = none) {e : ArgumentError}
    (he : e = .behindHelp ∨ ∃ flag ∈ words, e = .unrecognized flag) :
    Fails b w words ((b.refuse e).run w) := by
  have hwords : e.words ⊆ words := by
    rcases he with rfl | ⟨flag, hflag, rfl⟩
    · exact List.nil_subset _
    · exact List.cons_subset.mpr ⟨hflag, List.nil_subset _⟩
  have hblames := Blames.refused (verb_plain hb) hwords
  refine ⟨_, b.run_refuse hroom e, hblames.named, ?_⟩
  intro hmem
  obtain ⟨text, htext, hnewline⟩ := hblames.quotes hmem
  exact ⟨text, List.mem_append_left _ htext, hnewline⟩

/-- Any other words lead to a failure or to the change. -/
theorem fails_or_succeeds (hb : b ∈ verbs) (hsound : w.files.Sound) (htakes : w.Takes)
    (hroom : w.errors.room = none) (hnousage : ¬ AsksUsage words) :
    Fails b w words ((b.handler (b.verb :: words)).run w)
      ∨ Succeeds b w words ((b.handler (b.verb :: words)).run w) := by
  rcases Builtin.handler_of_operandsOnly (signature_eq hb) words with
    ⟨hnoflags, hhandler⟩ | ⟨husage, -⟩ | ⟨-, e, hhandler, he⟩
  · rw [hhandler]
    rcases decides_body hb hsound htakes words with
      ⟨failure, hbody, hblames⟩ | ⟨line, env, files, hchange, hquotes, hbody⟩
    · left
      exact ⟨failure.message, Builtin.run_reporting_of_failed hroom hbody, hblames⟩
    · right
      exact ⟨hnoflags, line, env, files, hchange, hquotes, Builtin.run_reporting_of_done hbody⟩
  · exact absurd husage hnousage
  · left
    rw [hhandler]
    exact fails_refuse hb hroom he

/-- **One path, one change.** Where every stream takes everything, a verb about one path fails and
has done nothing, or it makes its one change, whatever its words; if they only ask for the usage,
then the usage is printed. -/
theorem single_path_ends (hb : b ∈ verbs) (hsound : w.files.Sound) (htakes : w.Takes)
    (hroom : w.errors.room = none) (words : List String) :
    (AsksUsage words → (b.handler (b.verb :: words)).run w = (.done 0, w.told b.usage.text))
      ∧ (¬ AsksUsage words → Xor (Fails b w words ((b.handler (b.verb :: words)).run w))
        (Succeeds b w words ((b.handler (b.verb :: words)).run w))) := by
  constructor
  · intro husage
    exact run_asksUsage hb htakes husage
  · intro hnousage
    rw [xor_iff_or_and_not_and]
    exact ⟨fails_or_succeeds hb hsound htakes hroom hnousage, not_fails_and_succeeds⟩

/-- A directory is made in an empty one, and is found there. -/
theorem single_path_ends_mkdir :
    Verbs.mkdir ∈ verbs ∧ Session.quiet.world.files.Sound ∧ Session.quiet.world.Takes
      ∧ Session.quiet.world.errors.room = none
      ∧ Succeeds Verbs.mkdir Session.quiet.world ["d", "e"]
        ((Verbs.mkdir.handler ["mkdir", "d", "e"]).run Session.quiet.world)
      ∧ ((Verbs.mkdir.handler ["mkdir", "d", "e"]).run Session.quiet.world).2.files.node?
        [encode "d", encode "r"] = some .directory := by
  have hverb : Verbs.mkdir ∈ verbs := List.mem_cons_self
  have hsound : Session.quiet.world.files.Sound := FileSystem.sound_fresh (by decide +kernel)
  have htakes : Session.quiet.world.Takes := ⟨nofun, rfl⟩
  have hnode : ((Verbs.mkdir.handler ["mkdir", "d", "e"]).run Session.quiet.world).2.files.node?
      [encode "d", encode "r"] = some .directory := by decide +kernel
  obtain ⟨-, hends⟩ := single_path_ends hverb hsound htakes rfl ["d", "e"]
  refine ⟨hverb, hsound, htakes, rfl, ?_, hnode⟩
  rcases hends (fun husage => husage.1 (by decide +kernel)) with
    ⟨⟨message, hfails, -⟩, -⟩ | ⟨hsucceeds, -⟩
  · -- a failure would have another status
    exfalso
    have hzero : ((Verbs.mkdir.handler ["mkdir", "d", "e"]).run Session.quiet.world).1
        = .done 0 := by decide +kernel
    have hone : ((Verbs.mkdir.handler ["mkdir", "d", "e"]).run Session.quiet.world).1
        = .done 1 := congrArg Prod.fst hfails
    rw [hzero] at hone
    exact absurd hone (by decide)
  · exact hsucceeds

end SinglePath

end LineShell
