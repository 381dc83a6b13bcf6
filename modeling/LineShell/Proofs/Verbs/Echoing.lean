/-
Echoing the input.

`cat` without operands prints its input line by line.  Seen from the output that is one text,
printed in pieces: the input with a newline at its end, or, where the input breaks off, the whole
lines in front of the break (`echoed`).  The pieces are found by following the reads, each of which
comes to the cut of all the bytes that are left; the chunks do not come into it.  What becomes
of a text that is printed in pieces is told by the output alone (`run_echoLines`), so an output that
refuses something in the middle has got the beginning of that same text.

A file is printed by the rule that ends the last line of the input, which makes `cat` with one
operand and the echo of the same bytes alike.
-/
import LineShell.Proofs.Session.Room
import LineShell.Proofs.Session.Supply
import LineShell.Proofs.Verbs.SinglePath

set_option autoImplicit false

namespace LineShell

open LineShell.Text

/-! ## The text of an echo -/

/-- A text with a newline at its end; an empty one stays empty. -/
def withNewline (bytes : Bytes) : Bytes :=
  if bytes ≠ [] ∧ bytes.getLast? ≠ some newline then bytes ++ [newline] else bytes

theorem withNewline_eq (bytes : Bytes) :
    withNewline bytes
      = bytes ++ (if bytes ≠ [] ∧ bytes.getLast? ≠ some newline then [newline] else []) := by
  rw [withNewline]
  split
  · rfl
  · exact (List.append_nil _).symm

/-- The whole lines at the beginning of a text. -/
def wholeLines (bytes : Bytes) : Bytes := bytes.rdropWhile (· != newline)

/-- What an echo of some bytes prints. -/
def echoed : SourceEnd → Bytes → Bytes
  | .finished, data => withNewline data
  | .lost, data => wholeLines data

/-- How an echo ends that the output takes. -/
def SourceEnd.outcome : SourceEnd → Outcome Unit
  | .finished => .done ()
  | .lost => .failed (.io .inputLost)

@[simp] theorem echoed_nil (ending : SourceEnd) : echoed ending [] = [] := by
  cases ending <;> rfl

theorem withNewline_append {first second : Bytes} (h : second ≠ []) :
    withNewline (first ++ second) = first ++ withNewline second := by
  rw [withNewline, withNewline, List.getLast?_append_of_ne_nil _ h]
  by_cases hlast : second.getLast? = some newline
  · rw [if_neg (fun hlacks => hlacks.2 hlast), if_neg (fun hlacks => hlacks.2 hlast)]
  · have hboth : first ++ second ≠ [] := fun hnil => h (List.append_eq_nil_iff.mp hnil).2
    rw [if_pos ⟨hboth, hlast⟩, if_pos ⟨h, hlast⟩, List.append_assoc]

/-- A text that is broken into lines has the whole lines of its parts. -/
theorem wholeLines_append {line : Bytes} (hline : EndsLine line) (rest : Bytes) :
    wholeLines (line ++ rest) = line ++ wholeLines rest := by
  induction rest using List.reverseRecOn with
  | nil =>
    rw [List.append_nil, wholeLines, wholeLines, List.rdropWhile_nil, List.append_nil]
    rcases hline with rfl | hline
    · rfl
    · obtain ⟨before, rfl⟩ := List.getLast?_eq_some_iff.mp hline
      exact List.rdropWhile_concat_neg _ _ _ (by simp)
  | append_singleton rest c ih =>
    rw [wholeLines, wholeLines] at ih ⊢
    rw [← List.append_assoc, List.rdropWhile_concat, List.rdropWhile_concat, ih]
    split
    · rfl
    · exact List.append_assoc _ _ _

/-- The whole lines are the longest beginning that consists of lines. -/
theorem wholeLines_spec (data : Bytes) :
    wholeLines data <+: data ∧ EndsLine (wholeLines data)
      ∧ ∀ lines, lines <+: data → EndsLine lines → lines <+: wholeLines data := by
  refine ⟨List.rdropWhile_prefix _ _, ?_, ?_⟩
  · by_cases hnil : wholeLines data = []
    · exact .inl hnil
    · have hlast := List.rdropWhile_last_not _ data hnil
      rw [Bool.not_eq_true, bne_eq_false_iff_eq] at hlast
      exact .inr (by rw [List.getLast?_eq_some_getLast hnil, ← hlast]; rfl)
  · rintro lines ⟨rest, rfl⟩ hlines
    rw [wholeLines_append hlines]
    exact List.prefix_append _ _

theorem wholeLines_eq_nil {data : Bytes} (h : newline ∉ data) : wholeLines data = [] := by
  apply List.rdropWhile_eq_nil_iff.mpr
  intro c hc
  rw [bne_iff_ne]
  rintro rfl
  exact h hc

theorem withNewline_of_endsLine {line : Bytes} (h : EndsLine line) : withNewline line = line := by
  apply if_neg
  rintro ⟨hne, hlast⟩
  exact h.elim hne hlast

/-- A line is echoed as it is. -/
theorem echoed_append {line : Bytes} (hline : EndsLine line) (ending : SourceEnd) (rest : Bytes) :
    echoed ending (line ++ rest) = line ++ echoed ending rest := by
  cases ending with
  | finished =>
    by_cases hrest : rest = []
    · rw [hrest, List.append_nil, echoed_nil, List.append_nil]
      exact withNewline_of_endsLine hline
    · exact withNewline_append hrest
  | lost => exact wholeLines_append hline rest

/-- An echo prints the piece of the first read, with a newline if it has none, and then it echoes
what is left. -/
theorem echoed_of_deliver {ending : SourceEnd} {data line : Bytes}
    (h : ending.deliver newline data = .ok line) :
    line = (cutAfter newline data).1
      ∧ echoed ending data = withNewline line ++ echoed ending (cutAfter newline data).2 := by
  unfold SourceEnd.deliver at h
  split at h
  · rename_i hgood
    injection h with hline
    refine ⟨hline.symm, ?_⟩
    rw [← hline]
    by_cases hmem : newline ∈ data
    · have hends : EndsLine (cutAfter newline data).1 := .inr (getLast?_cutAfter hmem)
      rw [withNewline_of_endsLine hends, ← echoed_append hends, cutAfter_append]
    · -- the piece is everything, so this is a good end
      rw [cutAfter_of_not_mem hmem, hgood.resolve_left hmem]
      exact (List.append_nil _).symm
  · exact nomatch h

/-- A read that breaks off has met no line. -/
theorem echoed_of_deliver_error {ending : SourceEnd} {data : Bytes} {e : IoError}
    (h : ending.deliver newline data = .error e) :
    echoed ending data = [] ∧ (cutAfter newline data).2 = []
      ∧ ending.outcome = .failed (.io e) := by
  unfold SourceEnd.deliver at h
  split at h
  · exact nomatch h
  · rename_i hbad
    injection h with he
    subst he
    have hmem : newline ∉ data := fun hmem => hbad (.inl hmem)
    cases ending with
    | finished => exact absurd (.inr rfl) hbad
    | lost => exact ⟨wholeLines_eq_nil hmem, by rw [cutAfter_of_not_mem hmem], rfl⟩

/-- An empty piece is the end. -/
theorem eq_nil_of_deliver {ending : SourceEnd} {data : Bytes}
    (h : ending.deliver newline data = .ok []) : data = [] ∧ ending = .finished := by
  unfold SourceEnd.deliver at h
  split at h
  · rename_i hgood
    injection h with hpiece
    have hmem : newline ∉ data := by
      intro hmem
      have hlast := getLast?_cutAfter hmem
      rw [hpiece] at hlast
      exact nomatch hlast
    rw [cutAfter_of_not_mem hmem] at hpiece
    exact ⟨hpiece, hgood.resolve_left hmem⟩
  · exact nomatch h

/-! ## Printing in pieces -/

/-- One part after the other: the second is reached if the first ends well. -/
def Outcome.followedBy : Outcome Unit → Outcome Unit → Outcome Unit
  | .done (), later => later
  | ended, _ => ended

theorem Outcome.followedBy_of_ne_done {ended : Outcome Unit} (h : ended ≠ .done ())
    (later : Outcome Unit) : ended.followedBy later = ended := by
  cases ended with
  | done => exact absurd rfl h
  | failed failure => rfl
  | panicked message => rfl

namespace Action

/-- What would come behind a part that ends badly is not reached. -/
theorem run_bind_of_ne_done {m : Action Unit} {w u : World} {ended : Outcome Unit}
    (hrun : m.run w = (ended, u)) (h : ended ≠ .done ()) (rest : Action Unit) :
    (m >>= fun _ => rest).run w = (ended, u)
      ∧ (m >>= fun _ => rest).printed w = m.printed w := by
  rw [run_bind, printed_bind, hrun]
  cases ended with
  | done => exact absurd rfl h
  | failed failure => exact ⟨rfl, List.append_nil _⟩
  | panicked message => exact ⟨rfl, List.append_nil _⟩

theorem printAll_append (first second : List Bytes) :
    printAll (first ++ second) = printAll first >>= fun _ => printAll second := by
  induction first with
  | nil => rfl
  | cons piece first ih =>
    rw [List.cons_append, printAll, printAll, ih, bind_assoc]

end Action

/-- The pieces in which a text is printed. -/
def textPieces (bytes : Bytes) : List Bytes :=
  if Verbs.lacksNewline bytes then [bytes, [newline]] else [bytes]

theorem printText_eq (bytes : Bytes) :
    Verbs.printText bytes = Action.printAll (textPieces bytes) := by
  have hclosing : Action.printAll [[newline]] = Action.print [newline] := Action.bind_done _
  rw [Verbs.printText, textPieces]
  split
  · rw [Action.printAll, hclosing]
  · rfl

theorem flatten_textPieces (bytes : Bytes) : (textPieces bytes).flatten = withNewline bytes := by
  have hlacks : Verbs.lacksNewline bytes = true ↔ bytes ≠ [] ∧ bytes.getLast? ≠ some newline := by
    simp [Verbs.lacksNewline]
  rw [textPieces, withNewline]
  by_cases h : bytes ≠ [] ∧ bytes.getLast? ≠ some newline
  · rw [if_pos h, if_pos (hlacks.mpr h)]
    rfl
  · rw [if_neg h, if_neg (fun hlacking => h (hlacks.mp hlacking))]
    exact List.append_nil _

/-! ## The echo as one text -/

namespace Action

/-- A part that does with the output what printing one text in pieces does.  If it gets so far, it
reads all there is and ends as the input ends. -/
def Echoes (a : Action Unit) (ending : SourceEnd) (text : Bytes) (w : World) : Prop :=
  ∃ pieces source input, pieces.flatten = text
    ∧ a.run w = (((printAll pieces).run w).1.followedBy ending.outcome,
      ((printAll pieces).run w).2.reading source input)
    ∧ a.printed w = (printAll pieces).printed w
    ∧ (((printAll pieces).run w).1 = .done () → (w.reading source input).Supplies [] ending)

namespace Echoes

variable {a : Action Unit} {ending : SourceEnd} {text : Bytes} {w : World}

/-- What is read first does not matter to the output. -/
theorem read {b : UInt8} {next : Except IoError Bytes → Action Unit} {reply : Except IoError Bytes}
    {source : Source} {input : Input} (hread : w.readUntil b = (reply, w.reading source input))
    (h : (next reply).Echoes ending text (w.reading source input)) :
    (ask (.readUntil b) >>= next).Echoes ending text w := by
  obtain ⟨pieces, source', input', hpieces, hrun, hprinted, hend⟩ := h
  obtain ⟨hsame, hsamePrinted⟩ := run_printAll_reading pieces w source input
  have hanswer : w.answer (.readUntil b) = (reply, w.reading source input) := hread
  rw [hsame] at hrun hend
  refine ⟨pieces, source', input', hpieces, ?_, ?_, hend⟩
  · rw [run_bind, run_ask, hanswer]
    exact hrun
  · rw [printed_bind, run_ask, hanswer]
    exact hprinted.trans hsamePrinted

/-- Pieces that are printed first are the beginning of all that is printed. -/
theorem printAll {first : List Bytes}
    (h : ∀ u, (Action.printAll first).run w = (.done (), u) → a.Echoes ending text u) :
    (Action.printAll first >>= fun _ => a).Echoes ending (first.flatten ++ text) w := by
  rcases hfirst : (Action.printAll first).run w with ⟨ended, u⟩
  by_cases hdone : ended = .done ()
  · subst hdone
    obtain ⟨pieces, source, input, hpieces, hrun, hprinted, hend⟩ := h u hfirst
    refine ⟨first ++ pieces, source, input, ?_, ?_, ?_, ?_⟩
    · rw [List.flatten_append, hpieces]
    · rw [printAll_append, run_bind, run_bind, hfirst]
      exact hrun
    · rw [printAll_append, printed_bind, printed_bind, hfirst]
      exact congrArg ((Action.printAll first).printed w ++ ·) hprinted
    · rw [printAll_append, run_bind, hfirst]
      intro hall
      exact ⟨(hend hall).unread_eq, (hend hall).inputEnd_eq⟩
  · -- a piece is refused, here as well as in front of all that is left in one piece
    obtain ⟨hrun, hprinted⟩ := run_bind_of_ne_done hfirst hdone a
    obtain ⟨hrunText, hprintedText⟩ := run_bind_of_ne_done hfirst hdone (Action.printAll [text])
    rw [← printAll_append] at hrunText hprintedText
    refine ⟨first ++ [text], u.source, u.input, ?_, ?_, ?_, ?_⟩
    · rw [List.flatten_append, List.flatten_singleton]
    · rw [hrun, hrunText, Outcome.followedBy_of_ne_done hdone]
      rfl
    · rw [hprinted, hprintedText]
    · rw [hrunText]
      exact fun hall => absurd hall hdone

/-- Nothing is printed where nothing is left. -/
theorem silent (h : w.Supplies [] ending) (hrun : a.run w = (ending.outcome, w))
    (hprinted : a.printed w = []) : a.Echoes ending [] w :=
  ⟨[], w.source, w.input, rfl, hrun, hprinted, fun _ => h⟩

end Echoes

/-- **Echoing** prints one text, in pieces, and ends as the input ends. -/
theorem echoes_echoLines {n : Nat} {data : Bytes} (hn : data.length < n) {ending : SourceEnd}
    {w : World} (h : w.Supplies data ending) :
    (Verbs.echoLines n).Echoes ending (echoed ending data) w := by
  induction n generalizing data w with
  | zero => exact absurd hn (Nat.not_lt_zero _)
  | succ n ih =>
    obtain ⟨source, input, hread, hleft⟩ := h.readUntil newline
    rw [Verbs.echoLines]
    apply Echoes.read hread
    rcases hdeliver : ending.deliver newline data with e | line
    · -- the input breaks off in front of the next newline
      obtain ⟨hnothing, hrest, houtcome⟩ := echoed_of_deliver_error hdeliver
      rw [hrest] at hleft
      rw [hnothing]
      exact Echoes.silent hleft (by rw [houtcome]; rfl) rfl
    · by_cases hempty : line = []
      · -- the input is over
        subst hempty
        obtain ⟨rfl, rfl⟩ := eq_nil_of_deliver hdeliver
        exact Echoes.silent hleft rfl rfl
      · obtain ⟨hline, hechoed⟩ := echoed_of_deliver hdeliver
        have hlength : (cutAfter newline data).2.length < n := by
          have hcut := congrArg List.length (cutAfter_append newline data)
          have hpositive := List.length_pos_iff.mpr hempty
          rw [List.length_append, ← hline] at hcut
          omega
        simp only [List.isEmpty_iff, if_neg hempty]
        rw [printText_eq, hechoed, ← flatten_textPieces]
        apply Echoes.printAll
        intro u hfirst
        have hsupplies := supplies_run_printAll (textPieces line) hleft
        rw [hfirst] at hsupplies
        exact ih hlength hsupplies

end Action

/-! ## Outputs -/

namespace World

variable {w : World}

/-- The output takes whatever is printed. -/
def Accepts (w : World) : Prop :=
  ∀ pieces, ((Action.printAll pieces).run w).1 = .done ()

theorem Takes.accepts (h : w.Takes) : w.Accepts := by
  intro pieces
  rw [h.run_printAll]

theorem WritesTo.accepts {id : FileId} (h : w.WritesTo id) : w.Accepts := by
  intro pieces
  induction pieces generalizing w with
  | nil => rfl
  | cons piece pieces ih =>
    obtain ⟨hok, hwrites, -⟩ := print_of_writesTo h piece
    rw [Action.printAll, Action.run_bind, Action.run_print_eq]
    rcases hprint : w.print piece with ⟨e | ⟨⟩, u⟩
    · rw [hprint] at hok
      cases hok
    · rw [hprint] at hwrites
      exact ih hwrites

end World

namespace Action

variable {w : World}

/-- Pieces that are taken are printed. -/
theorem printed_printAll_of_done {pieces : List Bytes}
    (h : ((printAll pieces).run w).1 = .done ()) : (printAll pieces).printed w = pieces.flatten := by
  induction pieces generalizing w with
  | nil => rfl
  | cons piece pieces ih =>
    rw [printAll, run_bind, run_print_eq] at h
    rw [printAll, printed_bind, printed_print, run_print_eq]
    rcases hprint : w.print piece with ⟨e | ⟨⟩, u⟩
    · rw [hprint] at h
      cases h
    · rw [hprint] at h
      exact congrArg (piece ++ ·) (ih h)

namespace Echoes

variable {a : Action Unit} {ending : SourceEnd} {text : Bytes}

/-- Where everything is taken the text is printed, and the input decides about the end. -/
theorem of_accepts (h : a.Echoes ending text w) (hw : w.Accepts) :
    (a.run w).1 = ending.outcome ∧ a.printed w = text ∧ (a.run w).2.Supplies [] ending := by
  obtain ⟨pieces, source, input, hpieces, hrun, hprinted, hend⟩ := h
  have hdone := hw pieces
  rw [hrun, hprinted, printed_printAll_of_done hdone, hdone, hpieces]
  exact ⟨rfl, rfl, (hend hdone).unread_eq, (hend hdone).inputEnd_eq⟩

/-- Where there is little room the text is cut off. -/
theorem of_room (h : a.Echoes ending text w) {room : Nat} (hout : w.output = .console)
    (hroom : w.console.room = some room) :
    (a.run w).1 = (if text.length ≤ room then ending.outcome else .failed (.io .sinkClosed))
      ∧ (a.run w).2.console.bytes = w.console.bytes ++ text.take room := by
  obtain ⟨pieces, source, input, hpieces, hrun, -, -⟩ := h
  obtain ⟨hended, hbytes⟩ := run_printAll_of_room hout hroom pieces
  rw [hrun, hended, ← hpieces]
  refine ⟨?_, hbytes⟩
  split <;> rfl

end Echoes

end Action

/-! ## Printing a file -/

namespace Verbs

variable {w : World} {operand : String} {words : List String} {data : Bytes}

/-- What is done about a file that was read, or was not. -/
def sharePrinted (operand : String) : Except IoError Bytes → Action Int
  | .ok bytes => do
    printText bytes
    pure 0
  | .error e => do
    Action.complain (Failure.cannotPrint operand e).message
    pure 1

/-- Reading a file touches nothing. -/
theorem run_printFile (operand : String) (w : World) :
    (printFile operand).run w
        = (sharePrinted operand (w.files.read (w.env.locate operand))).run w
      ∧ (printFile operand).printed w
        = (sharePrinted operand (w.files.read (w.env.locate operand))).printed w := by
  have hanswer : ∀ p, w.answer (.files (.read p)) = (w.files.read p, w) := fun _ => rfl
  have hlocate : (Action.locate operand).printed w = [] := rfl
  have hread : ∀ p, (Action.ask (.files (.read p))).printed w = [] := fun _ => rfl
  constructor
  · rw [printFile, Action.run_bind, Action.run_locate]
    simp only
    rw [Action.run_bind, Action.call, Action.run_ask, hanswer]
    rcases w.files.read (w.env.locate operand) with e | bytes <;> rfl
  · rw [printFile, Action.printed_bind, hlocate, Action.run_locate]
    simp only
    rw [Action.printed_bind, Action.call, hread, Action.run_ask, hanswer]
    rcases w.files.read (w.env.locate operand) with e | bytes <;> rfl

/-- A file is printed by the rule for the end of the input. -/
theorem printed_printFile (hread : w.files.read (w.env.locate operand) = .ok data)
    (hw : w.Accepts) : (printFile operand).printed w = withNewline data := by
  rw [(run_printFile operand w).2, hread, sharePrinted,
    Action.Silent.printed_bind _ fun _ => .pure 0, printText_eq,
    Action.printed_printAll_of_done (hw _), flatten_textPieces]

theorem printed_cat_file (hwords : Lists words [operand])
    (hread : w.files.read (w.env.locate operand) = .ok data) (hw : w.Accepts) :
    (cat.handler ("cat" :: words)).printed w = withNewline data := by
  rw [Builtin.handler_of_lists rfl hwords, Builtin.printed_reporting]
  show (printFile operand >>= fun own => pure (if own = 0 then 0 else own)).printed w = _
  rw [Action.Silent.printed_bind _ fun _ => .pure _, printed_printFile hread hw]

/-- Without operands the input is echoed. -/
theorem printed_cat_bare (hwords : Lists words []) (w : World) :
    (cat.handler ("cat" :: words)).printed w = echo.printed w := by
  rw [Builtin.handler_of_lists rfl hwords, Builtin.printed_reporting]
  show (echo.attempt >>= _).printed w = _
  rw [Action.Silent.printed_bind, Action.printed_attempt]
  rintro (failure | ⟨⟩) w
  · rfl
  · rfl

end Verbs

/-- **The chunks of the input do not matter to an echo.**  The echo of some bytes ends after as many
rounds as there are bytes and one more, and more rounds change nothing.  An output that takes
everything has then got the bytes, with a newline if they are a text that does not end in one, or,
where the input breaks off, their whole lines; and an output with little room has got as much of
that as there was room for.  A file is printed as its bytes are echoed. -/
theorem echo_ignores_chunks {w : World} {data : Bytes} {ending : SourceEnd}
    (h : w.Supplies data ending) :
    (Verbs.echo.run w = (Verbs.echoLines (data.length + 1)).run w
        ∧ Verbs.echo.printed w = (Verbs.echoLines (data.length + 1)).printed w)
      ∧ (∀ n, data.length < n → w.Accepts →
        ((Verbs.echoLines n).run w).1 = ending.outcome
          ∧ (Verbs.echoLines n).printed w = echoed ending data
          ∧ ((Verbs.echoLines n).run w).2.Supplies [] ending)
      ∧ (∀ n, data.length < n → ∀ room, w.output = .console → w.console.room = some room →
        ((Verbs.echoLines n).run w).1
            = (if (echoed ending data).length ≤ room then ending.outcome
              else .failed (.io .sinkClosed))
          ∧ ((Verbs.echoLines n).run w).2.console.bytes
            = w.console.bytes ++ (echoed ending data).take room)
      -- what the echo is
      ∧ echoed .finished data
        = data ++ (if data ≠ [] ∧ data.getLast? ≠ some newline then [newline] else [])
      ∧ (echoed .lost data <+: data ∧ EndsLine (echoed .lost data)
        ∧ ∀ lines, lines <+: data → EndsLine lines → lines <+: echoed .lost data)
      -- a file with these bytes
      ∧ ∀ {there : World} {operand : String} {words bare : List String},
        ending = .finished → w.Accepts → there.Accepts → Lists words [operand] → Lists bare [] →
        there.files.read (there.env.locate operand) = .ok data →
        (Verbs.cat.handler ("cat" :: words)).printed there
            = (Verbs.cat.handler ("cat" :: bare)).printed w
          ∧ (Verbs.cat.handler ("cat" :: bare)).printed w = echoed .finished data := by
  have hecho : Verbs.echo.run w = (Verbs.echoLines (data.length + 1)).run w
      ∧ Verbs.echo.printed w = (Verbs.echoLines (data.length + 1)).printed w := by
    rw [← h.inputLeft_eq]
    exact ⟨rfl, rfl⟩
  have hrounds : ∀ n, data.length < n → (Verbs.echoLines n).Echoes ending (echoed ending data) w :=
    fun n hn => Action.echoes_echoLines hn h
  refine ⟨hecho, fun n hn hw => (hrounds n hn).of_accepts hw,
    fun n hn room hout hroom => (hrounds n hn).of_room hout hroom, withNewline_eq data,
    wholeLines_spec data, ?_⟩
  · intro there operand words bare hending hw hthere hwords hbare hread
    have hbareCat : (Verbs.cat.handler ("cat" :: bare)).printed w = echoed .finished data := by
      obtain ⟨-, hprinted, -⟩ := (hrounds _ (Nat.lt_succ_self _)).of_accepts hw
      rw [Verbs.printed_cat_bare hbare, hecho.2, hprinted, hending]
    refine ⟨?_, hbareCat⟩
    rw [hbareCat, Verbs.printed_cat_file hwords hread hthere]
    rfl

/-- A world in which the bytes of a line and a half arrive, across the border of the lines, before
the input ends in some way. -/
def arriving (ending : SourceEnd) : World :=
  { Session.quiet.world with
    files := .ofSeeds (.fresh (encode "r") [])
      [.file (Path.ofString "/r/f") (encode "one\ntwo")]
    source := ⟨[encode "on", encode "e\nt", encode "wo"], ending⟩ }

/-- The same chunks at a good end, before a break and onto a console with little room, and a file
with the same bytes. -/
theorem echo_ignores_chunks_arriving :
    (∀ ending, (arriving ending).Supplies (encode "one\ntwo") ending)
      ∧ (Verbs.echo.run (arriving .lost)).1 = .failed (.io .inputLost)
      ∧ Verbs.echo.printed (arriving .lost) = encode "one\n"
      ∧ (Verbs.echo.run { arriving .finished with console := .blank (some 2) }).1
        = .failed (.io .sinkClosed)
      ∧ (Verbs.echo.run { arriving .finished with console := .blank (some 2) }).2.console.bytes
        = encode "on"
      ∧ (Verbs.cat.handler ["cat", "f"]).printed (arriving .lost)
        = (Verbs.cat.handler ["cat"]).printed (arriving .finished)
      ∧ (Verbs.cat.handler ["cat"]).printed (arriving .finished) = encode "one\ntwo\n" := by
  have hall : [encode "on", encode "e\nt", encode "wo"].flatten = encode "one\ntwo" := by
    decide +kernel
  have hsupplies : ∀ ending, (arriving ending).Supplies (encode "one\ntwo") ending :=
    fun _ => ⟨hall, rfl⟩
  have haccepts : ∀ ending, (arriving ending).Accepts :=
    fun ending => World.Takes.accepts ⟨nofun, rfl⟩
  have hcramped : World.Supplies { arriving .finished with console := .blank (some 2) }
      (encode "one\ntwo") .finished := ⟨hall, rfl⟩
  obtain ⟨⟨hecho, hechoPrinted⟩, hwhole, -⟩ := echo_ignores_chunks (hsupplies .lost)
  obtain ⟨⟨hechoCramped, -⟩, -, hroom, -⟩ := echo_ignores_chunks hcramped
  obtain ⟨-, -, -, -, -, hfile⟩ := echo_ignores_chunks (hsupplies .finished)
  obtain ⟨hended, hprinted, -⟩ := hwhole _ (Nat.lt_succ_self _) (haccepts _)
  obtain ⟨hrefused, hbytes⟩ := hroom _ (Nat.lt_succ_self _) 2 rfl rfl
  obtain ⟨hsame, hbare⟩ := @hfile (arriving .lost) "f" ["f"] [] rfl (haccepts _) (haccepts _)
    ⟨by decide, by decide⟩ ⟨rfl, rfl⟩ (by decide +kernel)
  rw [hecho, hechoPrinted, hechoCramped, hended, hprinted, hrefused, hbytes]
  refine ⟨hsupplies, rfl, by decide +kernel, by decide +kernel, by decide +kernel, hsame,
    hbare.trans ?_⟩
  decide +kernel

end LineShell
