/-
The built-in verbs print whole lines.

Where the output takes everything, each verb prints nothing or a text that ends in a newline,
on every path: usage texts, listings, reports of what was done, files, and what was echoed
before the input broke off.  A verb that gives up in the middle gives up between two lines.
Only the parts have to be looked at, since lines behind lines are lines.
-/
import LineShell.Proofs.Session.Heard
import LineShell.Proofs.Verbs.Composed

set_option autoImplicit false

namespace LineShell

open LineShell.Text

theorem EndsLine.append {first second : Bytes} (hfirst : EndsLine first)
    (hsecond : EndsLine second) : EndsLine (first ++ second) := by
  rcases hsecond with rfl | hsecond
  · rwa [List.append_nil]
  · exact .inr (by rw [List.getLast?_append, hsecond]; rfl)

namespace Action

variable {α : Type} {w : World}

theorem run_takes (a : Action α) (h : w.Takes) : (a.run w).2.Takes :=
  @run_of_step α (fun u v => u.Takes → v.Takes) (fun _ => id) (fun huv hvw => hvw ∘ huv)
    (fun _ r h => h.answer r) a w h

/-! ## Printing -/

theorem run_print (h : w.Takes) (data : Bytes) :
    (print data).run w = (.done (), w.hear [.printed data]) ∧ (print data).printed w = data := by
  rw [run_print_eq, printed_print, h.print]
  exact ⟨rfl, rfl⟩

theorem printed_printAll (h : w.Takes) (pieces : List Bytes) :
    (printAll pieces).printed w = pieces.flatten := by
  induction pieces generalizing w with
  | nil => rfl
  | cons piece pieces ih =>
    obtain ⟨hrun, hprinted⟩ := run_print h piece
    have htakes : (w.hear [.printed piece]).Takes := by
      have := run_takes (print piece) h
      rwa [hrun] at this
    rw [printAll, printed_bind, hprinted, hrun]
    simp only
    rw [ih htakes, List.flatten_cons]

/-- A command that prints whole lines. -/
def LineWise (a : Action α) : Prop := ∀ w : World, w.Takes → EndsLine (a.printed w)

/-- Printing whole lines is kept when parts are put together. -/
theorem LineWise.composable : LineComposable fun _ => LineWise where
  done := fun _ _ _ => .inl rfl
  fail := fun _ _ _ => .inl rfl
  bind := by
    intro α β m f hm hf w hw
    rw [printed_bind]
    refine (hm w hw).append ?_
    have htakes := run_takes m hw
    revert htakes
    rcases m.run w with ⟨a | failure | message, u⟩
    · exact hf a u
    · exact fun _ => .inl rfl
    · exact fun _ => .inl rfl
  ask := by
    intro r hr _ _ w _
    refine .inl ?_
    show r.taken (w.answer r).1 ++ [] = []
    cases r with
    | print data => exact absurd rfl (hr data)
    | _ => rfl
  attempt := by
    intro α m hm w hw
    rw [printed_attempt]
    exact hm w hw
  voice := fun _ _ _ => .inl rfl
  print := by
    intro data hdata w hw
    rw [(run_print hw data).2]
    exact hdata
  printLine := by
    intro pieces w hw
    rw [printLine, printed_printAll hw, List.flatten_append]
    exact .inr (by rw [List.getLast?_append]; rfl)
  printText := by
    intro bytes w hw
    obtain ⟨hrun, hprinted⟩ := run_print hw bytes
    rw [Verbs.printText, printed_bind, hprinted, hrun]
    simp only
    by_cases hlacks : Verbs.lacksNewline bytes = true
    · rw [if_pos hlacks]
      have htakes : (w.hear [.printed bytes]).Takes := by
        have := run_takes (print bytes) hw
        rwa [hrun] at this
      rw [(run_print htakes [newline]).2]
      exact .inr (by rw [List.getLast?_append]; rfl)
    · rw [if_neg hlacks]
      simp only [Verbs.lacksNewline, Bool.and_eq_true, Bool.not_eq_true', bne_iff_ne, ne_eq,
        List.isEmpty_eq_false_iff, not_and, Decidable.not_not] at hlacks
      by_cases hempty : bytes = []
      · exact .inl (by rw [hempty]; rfl)
      · exact .inr (by rw [printed_pure, List.append_nil]; exact hlacks hempty)

end Action

end LineShell
