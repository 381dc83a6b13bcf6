/-
What `mv` asks before it replaces something.

Every move of a run asks at most one question, and it asks it exactly if its target leads to
something (`Move.questions_eq`).  Declined, the move makes no call that changes the files, and says
so; otherwise it does what a transfer does (`Move.effect_eq`).

Whether a path leads to something and whether it names an entry are two questions, and the answers
differ at links that lead nowhere.  A rename acts on the entry, so a link that dangles or runs in
a circle is replaced without a question; everything else that stands at a target is replaced only
after the one question about it was answered with yes.
-/
import LineShell.Proofs.Files.Entries
import LineShell.Proofs.Verbs.Moves

set_option autoImplicit false

namespace LineShell

open LineShell.Text

/-! ## Questions of a run -/

/-- The question that a request puts. -/
def Request.inquiries : Request → List String
  | .confirm question => [question]
  | _ => []

namespace Action

variable {α β : Type}

/-- The questions that a run puts, in order. -/
def inquiries (a : Action α) (w : World) : List String := a.record (fun _ r => r.inquiries) w

theorem asked_answer_eq (w : World) (r : Request) :
    (w.answer r).2.asked = w.asked ++ r.inquiries := by
  have hquiet : w.asked = w.asked ++ [] := (List.append_nil _).symm
  cases r with
  | print data =>
    have hprint : (w.print data).2.asked = w.asked := by
      unfold World.print
      split <;> rfl
    exact hprint.trans hquiet
  | readUntil b =>
    have hread : (w.readUntil b).2.asked = w.asked := by
      unfold World.readUntil
      split <;> rfl
    exact hread.trans hquiet
  | confirm question =>
    show (w.confirm question).2.asked = w.asked ++ [question]
    unfold World.confirm
    rcases w.respondent with (_ | ⟨answer, answers⟩) | _ <;> rfl
  | complain data => exact hquiet
  | inputLeft => exact hquiet
  | environment => exact hquiet
  | setEnvironment env => exact hquiet
  | files call => exact hquiet

/-- The world remembers the questions that a run puts. -/
theorem run_inquiries (a : Action α) (w : World) :
    (a.run w).2.asked = w.asked ++ a.inquiries w := by
  induction a generalizing w with
  | done a => exact (List.append_nil _).symm
  | fail failure => exact (List.append_nil _).symm
  | panic message => exact (List.append_nil _).symm
  | request r next ih =>
    rw [run_request, ih, asked_answer_eq, List.append_assoc]
    rfl

/-! ## Effects on the files -/

/-- The file system behind the calls of a run, whatever else is written to files. -/
def effect (a : Action α) (w : World) : FileSystem := w.files.performAll (a.calls w)

/-- A command that does nothing to the files but by its calls. -/
def ActsByCalls (a : Action α) : Prop := ∀ w, (a.run w).2.files = a.effect w

theorem effect_bind_of_done {m : Action α} {f : α → Action β} {w u : World} {a : α}
    (hm : m.ActsByCalls) (hrun : m.run w = (.done a, u)) :
    (m >>= f).effect w = (f a).effect u := by
  have hfiles := hm w
  rw [hrun] at hfiles
  simp only at hfiles
  rw [effect, effect, hfiles, effect, calls_eq_record, calls_eq_record, calls_eq_record,
    record_bind_of_done hrun, FileSystem.performAll, List.foldl_append]
  rfl

theorem effect_of_unnoted {a : Action α} (h : a.Unnoted fun _ r => r.calls) (w : World) :
    a.effect w = w.files := by
  rw [effect, calls_eq_record, h w]
  rfl

theorem ActsByCalls.bind {m : Action α} {f : α → Action β} (hm : m.ActsByCalls)
    (hf : ∀ a, (f a).ActsByCalls) : (m >>= f).ActsByCalls := by
  intro w
  rcases hrun : m.run w with ⟨a | failure | message, u⟩
  · rw [effect_bind_of_done hm hrun, run_bind, hrun]
    exact hf a u
  all_goals
    have hfiles := hm w
    rw [hrun] at hfiles
    simp only at hfiles
    rw [run_bind, hrun]
    simp only
    rw [hfiles, effect, effect, calls_eq_record, calls_eq_record, record_bind, hrun]
    simp only [List.append_nil]

/-- Whatever prints nothing acts on the files by its calls. -/
theorem ActsByCalls.sequential : Sequential fun _ => ActsByCalls where
  done := fun _ _ => rfl
  fail := fun _ _ => rfl
  bind := ActsByCalls.bind
  ask := by
    intro r hprint _ _ w
    rw [run_ask, effect, calls_eq_record, record_ask]
    cases r with
    | print data => exact absurd rfl (hprint data)
    | readUntil b => exact (w.readUntil_frame b).2.1
    | confirm question => exact (w.confirm_frame question).2.2
    | _ => rfl

end Action

/-! ## One move -/

namespace Verbs

/-- The question in front of a move is the only one, and it is asked if the target leads to
something. -/
theorem run_mayOverwrite_eq (target : Path) (w : World) :
    (mayOverwrite target).run w
      = if (w.files.status target).isOk then
          (.done (w.confirm (overwriteQuestion target)).1, (w.confirm (overwriteQuestion target)).2)
        else (.done true, w) := by
  rw [mayOverwrite, Action.run_bind, Action.run_isThere]
  cases (w.files.status target).isOk with
  | true => rfl
  | false => rfl

theorem inquiries_mayOverwrite (target : Path) (w : World) :
    (mayOverwrite target).inquiries w
      = if (w.files.status target).isOk then [overwriteQuestion target] else [] := by
  have hquiet : (Action.isThere target).Unnoted fun _ r => r.inquiries := by
    apply Action.Unnoted.bind (.ask fun _ => rfl)
    intro reply
    split <;> exact Action.Unnoted.pure _
  rw [Action.inquiries, mayOverwrite, hquiet.record_bind (Action.run_isThere target w)]
  cases (w.files.status target).isOk with
  | true => rfl
  | false => rfl

/-- Renaming and copying make calls on the files, and no other requests. -/
theorem unnoted_renameOrCopy {M : Type} {note : World → Request → List M}
    (h : ∀ w c, note w (.files c) = []) (source target : Path) :
    (renameOrCopy source target).Unnoted note := by
  have hcall : ∀ c, (Action.call c).Unnoted note := fun c => .ask fun w => h w c
  apply Action.Unnoted.bind (hcall _)
  intro renamed
  split
  · exact Action.Unnoted.pure _
  · apply Action.Unnoted.bind
    · apply Action.Unnoted.bind (hcall _)
      intro reply
      split <;> exact Action.Unnoted.pure _
    · intro regular
      split
      · apply Action.Unnoted.bind (hcall _)
        intro copied
        split
        · exact hcall _
        · exact Action.Unnoted.pure _
      · exact Action.Unnoted.pure _

namespace Move

variable (m : Move)

/-- The questions that a move puts. -/
def questions : List String := m.action.inquiries m.before

/-- Whether the question about the target would be answered with yes. -/
def agreed : Bool := (m.before.confirm (overwriteQuestion m.target)).1

/-- One question was put, about the target, and the answer was yes. -/
def Consented : Prop := m.questions = [overwriteQuestion m.target] ∧ m.agreed = true

/-- A question was put, and the answer was no. -/
def Declined : Prop := m.questions ≠ [] ∧ m.agreed = false

/-- What a move leaves of the files by its calls; its message is not yet printed. -/
def effect : FileSystem := m.action.effect m.before

/-- The message of a move that was declined. -/
def skip : Bytes := (["Skipped: ", m.shown].map encode ++ [[newline]]).flatten

/-- What follows the question. -/
def behind (allowed : Bool) : Action Unit :=
  if allowed then do
    orFail (← renameOrCopy m.source m.target) (.cannotMove m.shown)
    Action.printLine ["Moved: ", m.shown, " to ", m.target.display]
  else Action.printLine ["Skipped: ", m.shown]

theorem action_eq : m.action = mayOverwrite m.target >>= m.behind := rfl

/-- A move ends with a failure or with its report, which only what notes prints can see. -/
theorem unnoted_report {M : Type} {note : World → Request → List M}
    (h : ∀ w data, note w (.print data) = []) (result : Except IoError Unit) :
    (orFail result (.cannotMove m.shown) >>= fun _ =>
      Action.printLine ["Moved: ", m.shown, " to ", m.target.display]).Unnoted note := by
  apply Action.Unnoted.bind
  · cases result with
    | ok _ => exact Action.Unnoted.pure _
    | error e => exact Action.Unnoted.fail _
  · intro _
    exact Action.Unnoted.printAll h _

theorem inquiries_behind (allowed : Bool) :
    (m.behind allowed).Unnoted fun _ r => r.inquiries := by
  cases allowed with
  | false => exact Action.Unnoted.printAll (fun _ _ => rfl) _
  | true =>
    apply Action.Unnoted.bind (unnoted_renameOrCopy (fun _ _ => rfl) _ _)
    intro result
    exact m.unnoted_report (fun _ _ => rfl) result

/-- Allowed, a move is a transfer; otherwise nothing happens to the files. -/
theorem effect_behind (allowed : Bool) {w : World} (hw : w.files = m.before.files) :
    (m.behind allowed).effect w
      = if allowed then (m.before.files.transfer m.source m.target).2 else m.before.files := by
  cases allowed with
  | false => exact (Action.effect_of_unnoted (.printAll (fun _ _ => rfl) _) w).trans hw
  | true =>
    have hmove : (renameOrCopy m.source m.target).ActsByCalls :=
      Action.ActsByCalls.sequential.renameOrCopy m.source m.target
    have hrun := run_renameOrCopy m.source m.target w
    have hreport := Action.effect_of_unnoted
      (m.unnoted_report (fun _ _ => rfl) (m.before.files.transfer m.source m.target).1)
    rw [behind, if_pos rfl, Action.effect_bind_of_done hmove hrun, hw, hreport]
    rfl

/-- A move puts one question, about its target, exactly if the target leads to something. -/
theorem questions_eq :
    m.questions = if (m.before.files.status m.target).isOk then [overwriteQuestion m.target]
      else [] := by
  rw [questions, action_eq, Action.inquiries, Action.record_bind_unnoted m.inquiries_behind]
  exact inquiries_mayOverwrite m.target m.before

/-- A move that is declined leaves the files alone; otherwise it is a transfer. -/
theorem effect_eq :
    m.effect = if (m.before.files.status m.target).isOk ∧ m.agreed = false then m.before.files
      else (m.before.files.transfer m.source m.target).2 := by
  have hask : (mayOverwrite m.target).ActsByCalls :=
    Action.ActsByCalls.sequential.mayOverwrite m.target
  have hrun := run_mayOverwrite_eq m.target m.before
  rw [effect, action_eq]
  by_cases hthere : (m.before.files.status m.target).isOk = true
  · have hfiles := (m.before.confirm_frame (overwriteQuestion m.target)).2.2
    rw [if_pos hthere] at hrun
    rw [Action.effect_bind_of_done hask hrun, m.effect_behind _ hfiles]
    show (if m.agreed then _ else _) = _
    cases m.agreed <;> simp [hthere]
  · rw [if_neg hthere] at hrun
    rw [Action.effect_bind_of_done hask hrun, m.effect_behind true rfl, if_pos rfl,
      if_neg (by simp [hthere])]

/-- Where the output is no file, what a move leaves by its calls is what it leaves. -/
theorem files_run_eq_effect (hout : m.before.output.IsFileless) :
    (m.action.run m.before).2.files = m.effect :=
  m.action.run_files hout

variable {m}

theorem questions_ne_nil_iff : m.questions ≠ [] ↔ (m.before.files.status m.target).isOk = true := by
  rw [m.questions_eq]
  split <;> simp_all

/-- The question itself prints nothing, so a move prints and does what follows the question. -/
theorem run_of_asked {allowed : Bool} {u : World}
    (h : (mayOverwrite m.target).run m.before = (.done allowed, u)) :
    m.action.run m.before = (m.behind allowed).run u
      ∧ m.printed = (m.behind allowed).printed u
      ∧ (m.action.refused m.before = [] → (m.behind allowed).refused u = []) := by
  have hsilent : (mayOverwrite m.target).printed m.before = [] :=
    Action.Silent.composable.mayOverwrite _ _
  refine ⟨?_, ?_, ?_⟩
  · rw [action_eq, Action.run_bind, h]
  · rw [printed, action_eq, Action.printed_bind, hsilent, h, List.nil_append]
  · intro hclean
    rw [action_eq, Action.refused, Action.record_bind_of_done h] at hclean
    exact (List.append_eq_nil_iff.mp hclean).2

/-- A move that is declined says so, unless that is not taken. -/
theorem printed_of_declined (h : m.Declined) (hclean : m.action.refused m.before = []) :
    m.printed = m.skip := by
  have hrun := run_mayOverwrite_eq m.target m.before
  have hno : (m.before.confirm (overwriteQuestion m.target)).1 = false := h.2
  rw [if_pos (questions_ne_nil_iff.mp h.1), hno] at hrun
  obtain ⟨-, hprinted, hbehind⟩ := run_of_asked hrun
  rw [hprinted]
  exact (Action.run_printAll_of_clean (hbehind hclean)).1

/-- What stands at the target of a move that changes something was replaced with consent, or it was
a link that led nowhere. -/
theorem consented_or_link (hchanged : m.effect ≠ m.before.files)
    (hentry : (m.before.files.entryStatus m.target).isOk = true) :
    m.Consented ∨ m.questions = [] ∧ m.before.files.entryStatus m.target = .ok .link
      ∧ (m.before.files.status m.target).isOk = false := by
  by_cases hthere : (m.before.files.status m.target).isOk = true
  · left
    constructor
    · rw [m.questions_eq, if_pos hthere]
    · by_contra hno
      apply hchanged
      rw [m.effect_eq, if_pos ⟨hthere, by simpa using hno⟩]
  · right
    refine ⟨?_, ?_, by simpa using hthere⟩
    · rw [m.questions_eq, if_neg hthere]
    · rcases hkind : m.before.files.entryStatus m.target with e | kind
      · rw [hkind] at hentry
        exact nomatch hentry
      · -- anything but a link would be led to
        by_contra hne
        have hnolink : kind ≠ .link := by
          rintro rfl
          exact hne rfl
        apply hthere
        rw [FileSystem.status_of_entryStatus hkind hnolink]
        rfl

end Move

/-! ## All moves of a run -/

/-- A run of `mv` puts the questions of its moves.  A move puts one question, about its target,
exactly if the target leads to something, and none where no entry is; declined, it leaves the files
alone and says so; and if it changes them where an entry stands at its target, that question was put
and answered with yes, or the entry is a link that leads nowhere and there was no question.  What it
does to the files is all that it leaves, but for its message where that goes to a file. -/
theorem asks_before_replacing {w : World} (hsound : w.files.Sound) (args : Arguments) :
    ((mv.body args).run w).2.asked = w.asked ++ (moves args w).flatMap Move.questions
      ∧ ∀ m ∈ moves args w,
        (m.questions = if (m.before.files.status m.target).isOk then [overwriteQuestion m.target]
          else [])
        ∧ ((m.before.files.entryStatus m.target).isOk = false → m.questions = [])
        ∧ (m.Declined → m.effect = m.before.files
          ∧ (m.action.refused m.before = [] → m.printed = m.skip))
        ∧ (m.effect ≠ m.before.files → (m.before.files.entryStatus m.target).isOk = true →
          m.Consented ∨ m.questions = [] ∧ m.before.files.entryStatus m.target = .ok .link
            ∧ (m.before.files.status m.target).isOk = false)
        ∧ (m.before.output.IsFileless → (m.action.run m.before).2.files = m.effect) := by
  constructor
  · have hoverlooks : Overlooks fun _ r => r.inquiries :=
      ⟨fun _ => rfl, fun _ _ => rfl, fun _ _ => rfl, fun _ _ => rfl⟩
    rw [Action.run_inquiries, Action.inquiries, hoverlooks.mv]
    rfl
  intro m hm
  have hbefore : m.before.files.Sound := preserved_of_mem_moves FileSystem.Sound.preserved hm hsound
  refine ⟨m.questions_eq, ?_, ?_, Move.consented_or_link, m.files_run_eq_effect⟩
  · intro hnone
    have hnowhere := FileSystem.not_isOk_status hbefore hnone
    rw [m.questions_eq, if_neg (by simp [hnowhere])]
  · intro hdeclined
    refine ⟨?_, Move.printed_of_declined hdeclined⟩
    rw [m.effect_eq, if_pos ⟨Move.questions_ne_nil_iff.mp hdeclined.1, hdeclined.2⟩]

/-- A session with a file, a link to nowhere, and a user who says no to everything. -/
def danglingLink : World where
  env := .startingIn (Path.ofString "/r") none
  files := .ofSeeds (.fresh (encode "r") [])
    [.file (Path.ofString "/r/a") (encode "hi"),
      .link (Path.ofString "/r/l") (Path.ofString "nowhere")]
  console := .blank none
  errors := .blank none
  source := .ofBytes []
  output := .console
  input := .session
  respondent := .scripted ["n"]
  asked := []

/-- A file is moved onto a link that leads nowhere. The link is replaced, and nobody was asked. -/
theorem asks_before_replacing_dangling :
    ∃ m ∈ moves ⟨[], ["a", "l"]⟩ danglingLink, m.effect ≠ m.before.files
      ∧ (m.action.run m.before).2.files = m.effect
      ∧ m.before.files.entryStatus m.target = .ok .link ∧ m.agreed = false ∧ m.questions = []
      ∧ ((mv.body ⟨[], ["a", "l"]⟩).run danglingLink).2.asked = [] := by
  have hsound : danglingLink.files.Sound :=
    FileSystem.sound_ofSeeds (FileSystem.sound_fresh (by decide +kernel)) _
  obtain ⟨hasked, hmoves⟩ := asks_before_replacing hsound ⟨[], ["a", "l"]⟩
  have hall : moves ⟨[], ["a", "l"]⟩ danglingLink
      = [⟨"a", Path.ofString "/r/a", Path.ofString "/r/l", danglingLink⟩] := by decide +kernel
  rw [hall] at hasked hmoves ⊢
  obtain ⟨hquestions, -, -, hconsent, hleaves⟩ := hmoves _ (List.mem_singleton_self _)
  have hchanged : Move.effect ⟨"a", Path.ofString "/r/a", Path.ofString "/r/l", danglingLink⟩
      ≠ danglingLink.files := by decide +kernel
  have hentry : danglingLink.files.entryStatus (Path.ofString "/r/l") = .ok .link := rfl
  have hno : Move.agreed ⟨"a", Path.ofString "/r/a", Path.ofString "/r/l", danglingLink⟩
      = false := by decide +kernel
  rcases hconsent hchanged (by rw [hentry]; rfl) with hconsented | ⟨hnone, -, -⟩
  · exact nomatch hconsented.2.symm.trans hno
  · refine ⟨_, List.mem_singleton_self _, hchanged, hleaves fun _ => nofun, hentry, hno, hnone, ?_⟩
    rw [hasked, List.flatMap_singleton, hnone]
    rfl

end Verbs

end LineShell
