/-
Cutting a list into parts.

Three texts of the shell are cut at a separator: a command line at `|`, a
redirected command at its operator, and a path at `/`.  The first and the last
have a separator of one symbol, and one definition serves both.  The operator
`>>` has two symbols, and cutting at it is a matter of order: the leftmost pair
is taken first, so that `>>>` is cut once and leaves a `>` behind it.

What a reader may rely on is stated beside each definition: putting the
separators back gives the text again, and no part holds the separator.
-/

set_option autoImplicit false

namespace LineShell.Text

variable {α : Type}

/-! ## One symbol -/

/-- Puts a symbol in front of the first part. -/
def extendFirst (a : α) : List (List α) → List (List α)
  | [] => [[a]]
  | part :: parts => (a :: part) :: parts

/-- Cuts a list at every symbol that satisfies `p`. There is one part more than
there are cuts, so the empty list has one empty part. -/
def split (p : α → Bool) (xs : List α) : List (List α) :=
  xs.foldr (fun a parts => if p a then [] :: parts else extendFirst a parts) [[]]

@[simp] theorem split_nil (p : α → Bool) : split p [] = [[]] := rfl

theorem split_cons (p : α → Bool) (a : α) (xs : List α) :
    split p (a :: xs) = if p a then [] :: split p xs else extendFirst a (split p xs) := rfl

@[simp] theorem extendFirst_ne_nil (a : α) (parts : List (List α)) :
    extendFirst a parts ≠ [] := by
  cases parts <;> simp [extendFirst]

theorem split_ne_nil (p : α → Bool) (xs : List α) : split p xs ≠ [] := by
  cases xs with
  | nil => simp
  | cons a xs =>
    rw [split_cons]
    split <;> simp

/-- No part holds a symbol at which the list was cut. -/
theorem not_of_mem_split (p : α → Bool) {xs part : List α} (hpart : part ∈ split p xs) :
    ∀ a ∈ part, p a = false := by
  induction xs generalizing part with
  | nil => simp_all
  | cons b xs ih =>
    rw [split_cons] at hpart
    by_cases hb : p b = true
    · rw [if_pos hb] at hpart
      rcases List.mem_cons.mp hpart with rfl | h
      · simp
      · exact ih h
    · rw [if_neg hb] at hpart
      obtain ⟨first, parts, hsplit⟩ := List.exists_cons_of_ne_nil (split_ne_nil p xs)
      rw [hsplit, extendFirst] at hpart
      rw [hsplit] at ih
      rcases List.mem_cons.mp hpart with rfl | h
      · intro a ha
        rcases List.mem_cons.mp ha with rfl | ha
        · simpa using hb
        · exact ih (by simp) a ha
      · exact ih (by simp [h])

/-! ## The pair -/

/-- Cuts a list at every pair of neighbours that both satisfy `p`, taking the
leftmost pair first and never using a symbol twice. -/
def splitPairs (p : α → Bool) : List α → List (List α)
  | [] => [[]]
  | [a] => [[a]]
  | a :: b :: rest =>
    if p a && p b then [] :: splitPairs p rest
    else extendFirst a (splitPairs p (b :: rest))

/-- Whether two neighbours both satisfy `p`. -/
def hasPair (p : α → Bool) : List α → Bool
  | a :: b :: rest => (p a && p b) || hasPair p (b :: rest)
  | _ => false

/-! ## Joining -/

/-- Writes the parts one after the other with a separator between neighbours. -/
def join (separator : α) : List (List α) → List α
  | [] => []
  | [part] => part
  | part :: next :: parts => part ++ separator :: join separator (next :: parts)

/-- Joining the parts of a split at one symbol gives the list back. -/
theorem join_split [DecidableEq α] (separator : α) (xs : List α) :
    join separator (split (· == separator) xs) = xs := by
  induction xs with
  | nil => rfl
  | cons a xs ih =>
    obtain ⟨first, parts, hsplit⟩ :=
      List.exists_cons_of_ne_nil (split_ne_nil (· == separator) xs)
    rw [split_cons]
    rw [hsplit] at ih ⊢
    by_cases ha : (a == separator) = true
    · have : a = separator := by simpa using ha
      subst this
      simp [join, ih]
    · rw [if_neg ha]
      cases parts with
      | nil => simpa [extendFirst, join] using ih
      | cons next parts => simpa [extendFirst, join] using ih

end LineShell.Text
