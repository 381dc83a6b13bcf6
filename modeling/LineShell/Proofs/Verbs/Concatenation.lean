/-
Printing several files.

`cat` with operands takes them one after the other.  Each of them comes to two texts, one for the
output and one for the error stream, of which one is empty: the bytes of its file, ended by a
newline, or the line that it cannot be read.  Nothing else changes in between, so the texts of an
operand do not depend on the operands in front of it, and the run over all operands shows their
texts one after the other (`run_cat`).  That is all there is to say about a list that is put
together from two.
-/
import LineShell.Proofs.Verbs.Echoing

set_option autoImplicit false

namespace LineShell

open LineShell.Text

/-! ## What is shown -/

namespace World

variable {w : World}

/-- The same world with more on its output and on its error stream. -/
def shown (w : World) (out err : Bytes) : World :=
  { w.hear [.printed out] with errors := w.errors.append err }

theorem hear_printed_nil (w : World) : w.hear [.printed []] = w :=
  (w.hear_prints []).symm.trans w.hear_nil

@[simp] theorem shown_nil (w : World) : w.shown [] [] = w := by
  rw [shown, hear_printed_nil, Console.append_nil]

theorem shown_shown (w : World) (out err out' err' : Bytes) :
    (w.shown out err).shown out' err' = w.shown (out ++ out') (err ++ err') := by
  have hheard : (w.hear [.printed out]).hear [.printed out'] = w.hear [.printed (out ++ out')] := by
    have hpieces := w.hear_pieces [out, out']
    rw [List.flatten_cons, List.flatten_singleton] at hpieces
    exact (w.hear_hear _ _).trans hpieces
  show { (w.hear [.printed out]).hear [.printed out'] with
    errors := (w.errors.append err).append err' } = _
  rw [hheard, Console.append_append]
  rfl

theorem Takes.shown (h : w.Takes) (out err : Bytes) : (w.shown out err).Takes :=
  ⟨(h.hear _).fileless, h.room⟩

/-! ## The texts of an operand -/

/-- What the file behind an operand adds to the output. -/
def contribution (w : World) (operand : String) : Bytes :=
  match w.files.read (w.env.locate operand) with
  | .ok bytes => withNewline bytes
  | .error _ => []

/-- What an operand adds to the error stream. -/
def complaintAbout (w : World) (operand : String) : Bytes :=
  match w.files.read (w.env.locate operand) with
  | .ok _ => []
  | .error e => encode (Failure.cannotPrint operand e).message ++ [newline]

/-- Whether the file behind an operand cannot be read. -/
def misses (w : World) (operand : String) : Bool :=
  !(w.files.read (w.env.locate operand)).isOk

/-- The status that some operands lead to. -/
def statusOf (w : World) (operands : List String) : Int :=
  if operands.any w.misses then 1 else 0

theorem statusOf_eq_zero_or_one (w : World) (operands : List String) :
    w.statusOf operands = 0 ∨ w.statusOf operands = 1 := by
  rw [statusOf]
  rcases operands.any w.misses with _ | _
  · exact .inl rfl
  · exact .inr rfl

theorem statusOf_append (w : World) (first second : List String) :
    w.statusOf (first ++ second)
      = if w.statusOf first = 1 ∨ w.statusOf second = 1 then 1 else 0 := by
  rw [statusOf, statusOf, statusOf, List.any_append]
  rcases first.any w.misses with _ | _ <;> rcases second.any w.misses with _ | _ <;> rfl

/-- The status is 1 because of an operand. -/
theorem statusOf_eq_one_iff {operands : List String} :
    w.statusOf operands = 1
      ↔ ∃ operand ∈ operands, ∃ e, w.files.read (w.env.locate operand) = .error e := by
  have hmisses : ∀ operand, w.misses operand = true
      ↔ ∃ e, w.files.read (w.env.locate operand) = .error e := by
    intro operand
    rw [misses]
    rcases w.files.read (w.env.locate operand) with e | bytes <;> simp [Except.isOk, Except.toBool]
  have hone : w.statusOf operands = 1 ↔ operands.any w.misses = true := by
    rw [statusOf]
    rcases operands.any w.misses with _ | _ <;> decide
  simp only [hone, List.any_eq_true, hmisses]

end World

namespace Verbs

variable {w : World}

/-- A file is printed or complained about, and nothing else happens. -/
theorem run_printFile_shown (hw : w.Takes) (hroom : w.errors.room = none) (operand : String) :
    (printFile operand).run w
      = (.done (if w.misses operand then 1 else 0),
        w.shown (w.contribution operand) (w.complaintAbout operand)) := by
  rw [(run_printFile operand w).1, World.contribution, World.complaintAbout, World.misses]
  rcases w.files.read (w.env.locate operand) with e | bytes
  · rw [sharePrinted, Action.run_bind, Action.run_complain hroom, World.shown,
      World.hear_printed_nil]
    rfl
  · rw [sharePrinted, Action.run_bind, printText_eq, hw.run_printAll, World.hear_pieces,
      flatten_textPieces]
    show _ = (_, { w.hear _ with errors := w.errors.append [] })
    rw [Console.append_nil]
    rfl

/-- Files are printed one after the other, each as if it were the only one. -/
theorem run_printFiles_shown (hw : w.Takes) (hroom : w.errors.room = none) (status : Int)
    (operands : List String) :
    (printFiles status operands).run w
      = (.done (if operands.any w.misses then 1 else status),
        w.shown (operands.flatMap w.contribution) (operands.flatMap w.complaintAbout)) := by
  induction operands generalizing w status with
  | nil =>
    rw [List.flatMap_nil, List.flatMap_nil, World.shown_nil]
    rfl
  | cons operand operands ih =>
    -- the files and the environment are those that the operand in front has found
    have hrest := @ih (w.shown (w.contribution operand) (w.complaintAbout operand))
      (hw.shown _ _) hroom
    rw [printFiles, Action.run_bind, run_printFile_shown hw hroom]
    simp only
    rw [hrest, World.shown_shown, List.any_cons]
    refine Prod.ext (congrArg Outcome.done ?_) rfl
    show (if operands.any w.misses then 1 else _) = _
    rcases w.misses operand with _ | _
    · rfl
    · rcases operands.any w.misses with _ | _ <;> rfl

/-- **Printing files** shows their texts one after the other. -/
theorem run_cat (hw : w.Takes) (hroom : w.errors.room = none) {words operands : List String}
    (hwords : Lists words operands) (hsome : operands ≠ []) :
    (cat.handler ("cat" :: words)).run w
      = (.done (w.statusOf operands),
        w.shown (operands.flatMap w.contribution) (operands.flatMap w.complaintAbout)) := by
  have hbody : cat.body ⟨[], operands⟩ = printFiles 0 operands :=
    if_neg (by simpa using hsome)
  rw [Builtin.handler_of_lists rfl hwords]
  apply Builtin.run_reporting_of_done
  rw [hbody, run_printFiles_shown hw hroom]
  rfl

end Verbs

/-- **Printing two lists of files** shows what printing the one and then the other shows, and
changes neither the files nor the environment.  A file that can be read adds its bytes to the
output, with a newline behind them if they are a text that does not end in one; an operand without
such a file adds one line to the error stream, and makes the status 1. -/
theorem cat_distributes {w : World} (hw : w.Takes) (hroom : w.errors.room = none)
    {first second both xs ys : List String} (hfirst : Lists first xs) (hsecond : Lists second ys)
    (hboth : Lists both (xs ++ ys)) (hxs : xs ≠ []) (hys : ys ≠ []) :
    ∃ (a b : Int) (out out' err err' : Bytes),
      (Verbs.cat.handler ("cat" :: first)).run w = (.done a, w.shown out err)
      ∧ (Verbs.cat.handler ("cat" :: second)).run w = (.done b, w.shown out' err')
      ∧ (Verbs.cat.handler ("cat" :: both)).run w
        = (.done (if a = 1 ∨ b = 1 then 1 else 0), w.shown (out ++ out') (err ++ err'))
      ∧ (w.shown (out ++ out') (err ++ err')).files = w.files
      ∧ (w.shown (out ++ out') (err ++ err')).env = w.env
      -- what one list comes to
      ∧ ((a = 0 ∨ a = 1) ∧ (b = 0 ∨ b = 1))
      ∧ (a = 1 ↔ ∃ operand ∈ xs, ∃ e, w.files.read (w.env.locate operand) = .error e)
      ∧ (b = 1 ↔ ∃ operand ∈ ys, ∃ e, w.files.read (w.env.locate operand) = .error e)
      ∧ (out = xs.flatMap w.contribution ∧ err = xs.flatMap w.complaintAbout)
      ∧ (out' = ys.flatMap w.contribution ∧ err' = ys.flatMap w.complaintAbout)
      -- what one operand adds
      ∧ (∀ operand bytes, w.files.read (w.env.locate operand) = .ok bytes →
        w.contribution operand
            = bytes ++ (if bytes ≠ [] ∧ bytes.getLast? ≠ some newline then [newline] else [])
          ∧ w.complaintAbout operand = [])
      ∧ (∀ operand e, w.files.read (w.env.locate operand) = .error e →
        w.contribution operand = []
          ∧ ∃ line, w.complaintAbout operand = encode line ++ [newline]
            ∧ Blames "cat" [operand] line) := by
  have hsome : xs ++ ys ≠ [] := fun hnil => hxs (List.append_eq_nil_iff.mp hnil).1
  refine ⟨w.statusOf xs, w.statusOf ys, xs.flatMap w.contribution, ys.flatMap w.contribution,
    xs.flatMap w.complaintAbout, ys.flatMap w.complaintAbout, Verbs.run_cat hw hroom hfirst hxs,
    Verbs.run_cat hw hroom hsecond hys, ?_, rfl, rfl,
    ⟨w.statusOf_eq_zero_or_one xs, w.statusOf_eq_zero_or_one ys⟩, World.statusOf_eq_one_iff,
    World.statusOf_eq_one_iff, ⟨rfl, rfl⟩, ⟨rfl, rfl⟩, ?_, ?_⟩
  · rw [Verbs.run_cat hw hroom hboth hsome, World.statusOf_append, List.flatMap_append,
      List.flatMap_append]
  · intro operand bytes hread
    rw [World.contribution, World.complaintAbout, hread]
    exact ⟨withNewline_eq bytes, rfl⟩
  · intro operand e hread
    rw [World.contribution, World.complaintAbout, hread]
    exact ⟨rfl, _, rfl, .because ⟨_, rfl⟩ (by decide) List.mem_cons_self (by decide) e⟩

/-- A world with a text, a text that ends in a newline, an empty file and a directory. -/
def shelf : World :=
  { Session.quiet.world with
    files := .ofSeeds (.fresh (encode "r") [])
      [.file (Path.ofString "/r/f") (encode "one"), .file (Path.ofString "/r/g") (encode "two\n"),
        .file (Path.ofString "/r/e") [], .directory (Path.ofString "/r/d")] }

/-- Two lists with files that can be read and operands that cannot. -/
theorem cat_distributes_shelf :
    (∃ out out' err err',
        (Verbs.cat.handler ["cat", "f", "no"]).run shelf = (.done 1, shelf.shown out err)
        ∧ (Verbs.cat.handler ["cat", "d", "e", "g"]).run shelf
          = (.done 1, shelf.shown out' err')
        ∧ (Verbs.cat.handler ["cat", "f", "no", "d", "e", "g"]).run shelf
          = (.done 1, shelf.shown (out ++ out') (err ++ err')))
      ∧ ((Verbs.cat.handler ["cat", "f", "no", "d", "e", "g"]).run shelf).2.console.bytes
        = encode "one\ntwo\n"
      ∧ ((Verbs.cat.handler ["cat", "f", "no", "d", "e", "g"]).run shelf).2.errors.bytes
        = encode ("cat: no: No such file or directory (os error 2)\n"
          ++ "cat: d: Is a directory (os error 21)\n") := by
  obtain ⟨a, b, out, out', err, err', hfirst, hsecond, hboth, -, -, -, ha, hb, -⟩ :=
    @cat_distributes shelf ⟨nofun, rfl⟩ rfl ["f", "no"] ["d", "e", "g"]
      ["f", "no", "d", "e", "g"] ["f", "no"] ["d", "e", "g"] ⟨by decide, by decide⟩
      ⟨by decide, by decide⟩ ⟨by decide, by decide⟩ (by decide) (by decide)
  have hmissing : shelf.files.read (shelf.env.locate "no") = .error (.os .noEntry) := by
    decide +kernel
  have hdirectory : shelf.files.read (shelf.env.locate "d") = .error (.os .isDirectory) := by
    decide +kernel
  have haOne : a = 1 := ha.mpr ⟨"no", by decide, _, hmissing⟩
  have hbOne : b = 1 := hb.mpr ⟨"d", by decide, _, hdirectory⟩
  subst haOne hbOne
  refine ⟨⟨out, out', err, err', hfirst, hsecond, hboth⟩, ?_, ?_⟩
  · decide +kernel
  · decide +kernel

end LineShell
