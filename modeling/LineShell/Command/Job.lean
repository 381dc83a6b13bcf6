/-
What a line asks for, all the way down.

The texts on the sides of an operator are lines again: the left side of a pipe may hold a
redirection.  Reading them in turn gives a tree, and the shell executes the tree.  Reading
stops because an operator is used up at every step: the text in front of it holds
fewer operator characters than the line did.  That count is the measure below, and
the lemmas before it say that cutting at an operator loses the characters of the
operator and nothing else.

A line is read to the end before anything is executed, but a fault in an inner text is kept
in its place in the tree.  It comes to light when that part is executed, and what stands
around it is executed as well.
-/
import LineShell.Command.Line

set_option autoImplicit false

namespace LineShell

open LineShell.Text

/-! ## Counting through a cut -/

section Count

variable {α : Type} (p q : α → Bool)

/-- How many symbols of all the parts satisfy `q`. -/
def countParts : List (List α) → Nat
  | [] => 0
  | part :: parts => part.countP q + countParts parts

theorem countParts_extendFirst (a : α) (parts : List (List α)) :
    countParts q (extendFirst a parts) = (if q a then 1 else 0) + countParts q parts := by
  cases parts with
  | nil => by_cases h : q a <;> simp [countParts, extendFirst, h]
  | cons part parts =>
    -- the symbol joins the first part, and only there does it change a count
    simp only [countParts, extendFirst, List.countP_cons]
    omega

theorem length_extendFirst (a : α) {parts : List (List α)} (h : parts ≠ []) :
    (extendFirst a parts).length = parts.length := by
  cases parts with
  | nil => exact absurd rfl h
  | cons part parts => simp [extendFirst]

/-- Cutting at single symbols that count loses one of them at each cut. -/
theorem countP_split (hpq : ∀ a, p a = true → q a = true) (xs : List α) :
    xs.countP q + 1 = countParts q (split p xs) + (split p xs).length := by
  induction xs with
  | nil => simp [countParts]
  | cons a xs ih =>
    rw [split_cons]
    by_cases hp : p a = true
    · -- a cut: the symbol goes, and a part is gained for it
      rw [if_pos hp, List.countP_cons, if_pos (hpq a hp), List.length_cons]
      simp only [countParts, List.countP_nil]
      omega
    · -- no cut: the symbol is counted in the first part as it is in the list
      rw [if_neg hp, countParts_extendFirst, List.countP_cons,
        length_extendFirst a (split_ne_nil p xs)]
      omega

theorem splitPairs_ne_nil : (xs : List α) → splitPairs p xs ≠ []
  | [] => by simp [splitPairs]
  | [a] => by simp [splitPairs]
  | a :: b :: rest => by
    rw [splitPairs]
    split <;> simp

/-- Cutting at pairs of symbols that count loses two of them at each cut. -/
theorem countP_splitPairs (hpq : ∀ a, p a = true → q a = true) : (xs : List α) →
    xs.countP q + 2 = countParts q (splitPairs p xs) + 2 * (splitPairs p xs).length
  | [] => by simp [splitPairs, countParts]
  | [a] => by simp [splitPairs, countParts]
  | a :: b :: rest => by
    rw [splitPairs]
    by_cases hab : (p a && p b) = true
    · have ha := hpq a (by simp_all)
      have hb := hpq b (by simp_all)
      have ih := countP_splitPairs hpq rest
      rw [if_pos hab, List.countP_cons, List.countP_cons, if_pos ha, if_pos hb,
        List.length_cons]
      simp only [countParts, List.countP_nil]
      omega
    · have ih := countP_splitPairs hpq (b :: rest)
      rw [if_neg hab, countParts_extendFirst, List.countP_cons,
        length_extendFirst a (splitPairs_ne_nil p (b :: rest))]
      omega

/-- Of two parts, each holds no more than both. -/
theorem countP_first_le {parts : List (List α)} {first second : List α}
    {f : List α → List α} (hf : ∀ part, (f part).Sublist part)
    (h : parts.map f = [first, second]) :
    parts.length = 2 ∧ first.countP q ≤ countParts q parts := by
  match parts, h with
  | [x, y], h =>
    obtain ⟨rfl, rfl⟩ : f x = first ∧ f y = second := by simpa using h
    refine ⟨rfl, ?_⟩
    -- what `f` drops from the first part can only lower its count
    have := (hf x).countP_le (p := q)
    simp only [countParts]
    omega

end Count

/-! ## The measure -/

/-- Whether a character belongs to an operator. -/
def isOperator (c : Char) : Bool := isPipe c || isArrow c

/-- How many operator characters a line holds. -/
def operatorCount (s : String) : Nat := s.toList.countP isOperator

namespace Line

theorem operatorCount_lt_of_ofPipe {cs : List Char} {left right : String}
    (h : ofPipe cs = .ok (.pipe left right)) : operatorCount left < cs.countP isOperator := by
  unfold ofPipe at h
  split at h
  · rename_i first second hparts
    split at h
    · simp at h
    · injection h with h
      injection h with hleft _
      subst hleft
      -- there are two parts, so one `|` was lost
      have hcut := countP_split isPipe isOperator (by simp_all [isOperator]) cs
      have ⟨hlen, hle⟩ := countP_first_le isOperator trim_sublist hparts
      simp only [operatorCount, String.toList_ofList]
      omega
  · simp at h

theorem operatorCount_lt_of_ofRedirection {cs : List Char} {command target : String}
    {mode : Redirection} (h : ofRedirection cs = .ok (.redirect command target mode)) :
    operatorCount command < cs.countP isOperator := by
  unfold ofRedirection at h
  simp only at h
  split at h
  · rename_i first second hparts
    split at h
    · simp at h
    · injection h with h
      injection h with hcommand _ _
      subst hcommand
      have ⟨hlen, hle⟩ := countP_first_le isOperator trim_sublist hparts
      simp only [operatorCount, String.toList_ofList]
      revert hlen hle
      cases modeOf cs with
      | overwrite =>
        have hcut := countP_split isArrow isOperator (by simp_all [isOperator]) cs
        simp only [cutAt]
        omega
      | append =>
        have hcut := countP_splitPairs isArrow isOperator (by simp_all [isOperator]) cs
        simp only [cutAt]
        omega
  · simp at h

theorem countP_trim_le (s : String) : (trim s.toList).countP isOperator ≤ operatorCount s :=
  (trim_sublist s.toList).countP_le

/-- The left side of a pipe holds fewer operator characters than the line. -/
theorem operatorCount_lt_of_pipe {s left right : String}
    (h : parse s = .ok (.pipe left right)) : operatorCount left < operatorCount s := by
  refine Nat.lt_of_lt_of_le ?_ (countP_trim_le s)
  unfold parse ofChars at h
  simp only at h
  split at h
  · simp at h
  · split at h
    · exact operatorCount_lt_of_ofPipe h
    · split at h
      · -- a redirection is never read as a pipe
        unfold ofRedirection at h
        simp only at h
        split at h
        · split at h <;> simp at h
        · simp at h
      · simp at h

/-- The command of a redirection holds fewer operator characters than the line. -/
theorem operatorCount_lt_of_redirect {s command target : String} {mode : Redirection}
    (h : parse s = .ok (.redirect command target mode)) :
    operatorCount command < operatorCount s := by
  refine Nat.lt_of_lt_of_le ?_ (countP_trim_le s)
  unfold parse ofChars at h
  simp only at h
  split at h
  · simp at h
  · split at h
    · -- a pipe is never read as a redirection
      unfold ofPipe at h
      split at h
      · split at h <;> simp at h
      · simp at h
    · split at h
      · exact operatorCount_lt_of_ofRedirection h
      · simp at h

end Line

/-! ## Jobs -/

/-- What a line asks for. -/
inductive Job where
  | blank
  | malformed (e : LineError)
  | simple (command : String)
  | redirect (job : Job) (target : String) (mode : Redirection)
  | pipe (left : Job) (right : String)
  deriving DecidableEq, Repr

namespace Job

/-- Reads a line, and the texts in front of its operators in turn. -/
def ofText (s : String) : Job :=
  match _h : Line.parse s with
  | .ok .blank => .blank
  | .ok (.simple command) => .simple command
  | .ok (.redirect command target mode) => .redirect (ofText command) target mode
  | .ok (.pipe left right) => .pipe (ofText left) right
  | .error e => .malformed e
termination_by operatorCount s
decreasing_by
  · exact Line.operatorCount_lt_of_redirect _h
  · exact Line.operatorCount_lt_of_pipe _h

/-- How many lines are being executed at once at most. -/
def depth : Job → Nat
  | .blank => 1
  | .malformed _ => 1
  | .simple _ => 1
  | .redirect job _ _ => job.depth + 1
  | .pipe left _ => left.depth + 1

end Job

end LineShell
