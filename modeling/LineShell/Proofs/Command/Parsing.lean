/-
What reading a line again gives.

The texts that a line is cut into are read once more when they are executed.  They are
trimmed by then, and they hold no operator that the cut has used up, so the second reading
is short: the text in front of a `>` is a simple command, and reading a trimmed text is
reading the text it came from.  A text without a `|` can be put in front of one; the pipe
that results has that text, trimmed, as its left side.
-/
import LineShell.Proofs.Text.Cutting

set_option autoImplicit false

namespace LineShell

open LineShell.Text

/-! ## Reading -/

namespace Line

/-- Reading looks at the trimmed text only. -/
@[simp] theorem parse_ofList_trim (s : String) :
    parse (String.ofList (trim s.toList)) = parse s := by
  simp only [parse, ofChars, String.toList_ofList, trim_trim]

/-- A trimmed text that is not empty and holds no operator is a simple command. -/
theorem parse_eq_simple {cs : List Char} (hne : trim cs ≠ []) (hpipe : (trim cs).any isPipe = false)
    (harrow : (trim cs).any isArrow = false) :
    parse (String.ofList cs) = .ok (.simple (String.ofList (trim cs))) := by
  simp only [parse, ofChars, String.toList_ofList]
  rw [if_neg hne, hpipe, harrow]
  rfl

theorem subset_of_mem_cutAt (mode : Redirection) (cs : List Char) :
    ∀ part ∈ cutAt mode cs, part ⊆ cs := by
  cases mode with
  | overwrite => exact subset_of_mem_split isArrow cs
  | append => exact subset_of_mem_splitPairs isArrow cs

/-- The text in front of the operator of a redirection, read again, is a simple command if
the line held no `|`. -/
theorem parse_command_of_ofRedirection {cs : List Char} {command target : String}
    {mode : Redirection} (hpipe : cs.any isPipe = false)
    (h : ofRedirection cs = .ok (.redirect command target mode)) :
    parse command = .ok (.simple command) := by
  unfold ofRedirection at h
  simp only at h
  split at h
  · rename_i first second hparts
    split at h
    · simp at h
    · rename_i hgood
      injection h with h
      injection h with hcommand _ _
      simp only [not_or, Bool.not_eq_true] at hgood
      obtain ⟨part, hpart, hfirst⟩ : ∃ part ∈ cutAt (modeOf cs) cs, trim part = first := by
        refine List.mem_map.mp ?_
        rw [hparts]
        exact List.mem_cons_self
      subst hcommand hfirst
      -- what the line does not hold is not in the part either
      have hnone : (trim part).any isPipe = false := by
        rw [List.any_eq_false] at hpipe ⊢
        intro c hc
        exact hpipe c (subset_of_mem_cutAt _ cs part hpart ((trim_sublist part).subset hc))
      have hsimple := @parse_eq_simple (trim part) (by rw [trim_trim]; exact hgood.1)
        (by rw [trim_trim]; exact hnone) (by rw [trim_trim]; exact hgood.2.2.1)
      rwa [trim_trim] at hsimple
  · simp at h

/-- The command of a redirection is simple. -/
theorem parse_command_of_redirect {s command target : String} {mode : Redirection}
    (h : parse s = .ok (.redirect command target mode)) :
    parse command = .ok (.simple command) := by
  unfold parse ofChars at h
  simp only at h
  split at h
  · simp at h
  · split at h
    · -- a pipe is never read as a redirection
      unfold ofPipe at h
      split at h
      · split at h <;> simp at h
      · simp at h
    · rename_i hpipe
      split at h
      · exact parse_command_of_ofRedirection (by simpa using hpipe) h
      · simp at h

/-- A line without a `|` is no pipe. -/
theorem parse_ne_pipe {s : String} (h : '|' ∉ s.toList) (left right : String) :
    parse s ≠ .ok (.pipe left right) := by
  intro hparse
  unfold parse ofChars at hparse
  simp only at hparse
  split at hparse
  · simp at hparse
  · split at hparse
    · rename_i hpipe
      obtain ⟨c, hc, hcpipe⟩ := List.any_eq_true.mp hpipe
      rw [isPipe, beq_iff_eq] at hcpipe
      subst hcpipe
      exact h ((trim_sublist s.toList).subset hc)
    · split at hparse
      · -- a redirection is never read as a pipe
        unfold ofRedirection at hparse
        simp only at hparse
        split at hparse
        · split at hparse <;> simp at hparse
        · simp at hparse
      · simp at hparse

/-- A text without a `|`, put in front of one and a word, is the left side of a pipe. -/
theorem parse_append_pipe {left : String} (hblank : ∃ c ∈ left.toList, isSpace c = false)
    (hpipe : '|' ∉ left.toList) :
    parse (left ++ " | cat") = .ok (.pipe (String.ofList (trim left.toList)) "cat") := by
  have htext : (left ++ " | cat").toList
      = left.toList ++ [' ', '|', ' ', 'c', 'a'] ++ ['t'] := by
    rw [String.toList_append, List.append_assoc]
    rfl
  have htrim : trim (left ++ " | cat").toList
      = trimStart (left.toList ++ [' ']) ++ '|' :: [' ', 'c', 'a', 't'] := by
    rw [htext, trim, List.append_assoc, trimStart_append hblank, ← List.append_assoc,
      trimEnd_append_singleton (by decide), trimStart_append hblank]
    simp
  have hnone : ∀ c ∈ trimStart (left.toList ++ [' ']), isPipe c = false := by
    intro c hc
    have hmem : c ∈ left.toList ++ [' '] := (List.dropWhile_sublist isSpace).subset hc
    rcases List.mem_append.mp hmem with hmem | hmem
    · rw [isPipe, beq_eq_false_iff_ne]
      rintro rfl
      exact hpipe hmem
    · rw [List.mem_singleton.mp hmem]
      decide
  have hleft : trim (trimStart (left.toList ++ [' '])) = trim left.toList := by
    rw [trim, trimStart_trimStart, ← trim, trim_append_space hblank (by decide)]
  have hparts : (split isPipe (trim (left ++ " | cat").toList)).map trim
      = [trim left.toList, ['c', 'a', 't']] := by
    rw [htrim, split_append_cons hnone (by decide), split_eq_singleton (by simp [isPipe]),
      List.map_cons, List.map_singleton, hleft]
    rfl
  have hne : trim (left ++ " | cat").toList ≠ [] := by
    rw [htrim]
    exact List.append_ne_nil_of_right_ne_nil _ (List.cons_ne_nil _ _)
  have hany : (trim (left ++ " | cat").toList).any isPipe = true := by
    rw [htrim]
    exact List.any_eq_true.mpr ⟨'|', by simp, by decide⟩
  have hsides : ¬ (trim left.toList = [] ∨ ['c', 'a', 't'] = ([] : List Char)) := by
    rintro (h | h)
    · exact trim_ne_nil hblank h
    · exact List.cons_ne_nil _ _ h
  rw [parse, ofChars, if_neg hne, if_pos hany, ofPipe, hparts]
  exact if_neg hsides

end Line

namespace Job

/-- Reading a line all the way down, without the bookkeeping of the recursion. -/
theorem ofText_eq (s : String) :
    ofText s = match Line.parse s with
      | .ok .blank => .blank
      | .ok (.simple command) => .simple command
      | .ok (.redirect command target mode) => .redirect (ofText command) target mode
      | .ok (.pipe left right) => .pipe (ofText left) right
      | .error e => .malformed e := by
  rw [ofText]
  split <;> simp_all

theorem ofText_congr {s t : String} (h : Line.parse s = Line.parse t) : ofText s = ofText t := by
  rw [ofText_eq s, ofText_eq t, h]

/-- What is redirected is a simple command. -/
theorem ofText_of_redirect {line command target : String} {mode : Redirection}
    (h : Line.parse line = .ok (.redirect command target mode)) :
    ofText command = .simple command := by
  rw [ofText_eq, Line.parse_command_of_redirect h]

end Job

end LineShell
