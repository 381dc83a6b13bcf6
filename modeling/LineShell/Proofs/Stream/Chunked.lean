/-
Input in chunks.

Whoever reads up to a byte goes on from chunk to chunk until there is one.  Where the chunks end
means nothing: a read comes to the cut of all the bytes that are left, taken together, and leaves
the bytes behind the cut (`Source.gather_eq`).  Without the byte in them the ending decides, since a
piece in front of a failure is lost.
-/
import Mathlib.Data.List.TakeWhile
import LineShell.Stream.Source

set_option autoImplicit false

namespace LineShell

variable {b : UInt8} {bs first second : Bytes}

/-! ## Cutting -/

/-- Without the byte nothing is cut off. -/
theorem cutAfter_of_not_mem (h : b ∉ bs) : cutAfter b bs = (bs, []) := by
  have hall : ∀ c ∈ bs, (c != b) = true := by
    intro c hc
    rw [bne_iff_ne]
    rintro rfl
    exact h hc
  rw [cutAfter, List.takeWhile_eq_self_iff.mpr hall, List.dropWhile_eq_nil_iff.mpr hall]
  exact congrArg (Prod.mk · []) (List.append_nil bs)

/-- The cut is behind the first place where the byte stands. -/
theorem cutAfter_concat (h : b ∉ first) (second : Bytes) :
    cutAfter b (first ++ b :: second) = (first ++ [b], second) := by
  induction first with
  | nil => simp [cutAfter]
  | cons c first ih =>
    have hc : c ≠ b := fun heq => h (heq ▸ List.mem_cons_self)
    have hcut : cutAfter b (c :: (first ++ b :: second))
        = (c :: (cutAfter b (first ++ b :: second)).1, (cutAfter b (first ++ b :: second)).2) := by
      simp [cutAfter, hc]
    rw [List.cons_append, hcut, ih (List.not_mem_of_not_mem_cons h)]
    rfl

/-- The first part ends in the byte. -/
theorem getLast?_cutAfter (h : b ∈ bs) : (cutAfter b bs).1.getLast? = some b := by
  obtain ⟨before, behind, rfl, hbefore⟩ := List.eq_append_cons_of_mem h
  rw [cutAfter_concat hbefore]
  exact List.getLast?_concat

/-- A cut in the first of two parts is not moved by the second. -/
theorem cutAfter_append_of_mem (h : b ∈ first) (second : Bytes) :
    cutAfter b (first ++ second) = ((cutAfter b first).1, (cutAfter b first).2 ++ second) := by
  obtain ⟨before, behind, rfl, hbefore⟩ := List.eq_append_cons_of_mem h
  rw [List.append_assoc, List.cons_append, cutAfter_concat hbefore, cutAfter_concat hbefore]

/-- A first part without the byte is passed over. -/
theorem cutAfter_append_of_not_mem (h : b ∉ first) (second : Bytes) :
    cutAfter b (first ++ second) = (first ++ (cutAfter b second).1, (cutAfter b second).2) := by
  by_cases hmem : b ∈ second
  · obtain ⟨before, behind, rfl, hbefore⟩ := List.eq_append_cons_of_mem hmem
    have hboth : b ∉ first ++ before := by simp [h, hbefore]
    rw [← List.append_assoc, cutAfter_concat hboth, cutAfter_concat hbefore, List.append_assoc]
  · have hboth : b ∉ first ++ second := by simp [h, hmem]
    rw [cutAfter_of_not_mem hboth, cutAfter_of_not_mem hmem]

/-! ## From chunk to chunk -/

namespace Source

/-- Reading from chunk to chunk comes to the cut of all bytes together. -/
theorem gather_eq (b : UInt8) (chunks : List Bytes) :
    (gather b chunks).1 = (cutAfter b chunks.flatten).1
      ∧ ((gather b chunks).2.1 = true ↔ b ∈ chunks.flatten)
      ∧ (gather b chunks).2.2.flatten = (cutAfter b chunks.flatten).2 := by
  induction chunks with
  | nil => exact ⟨rfl, by simp [gather], rfl⟩
  | cons chunk rest ih =>
    obtain ⟨hpiece, hfound, hleft⟩ := ih
    rw [List.flatten_cons, gather]
    by_cases hmem : b ∈ chunk
    · rw [if_pos (List.contains_iff_mem.mpr hmem), cutAfter_append_of_mem hmem]
      refine ⟨rfl, by simp [hmem], ?_⟩
      -- an empty remainder is dropped, which no later read can tell
      by_cases hempty : (cutAfter b chunk).2 = []
      · simp [hempty]
      · simp [hempty]
    · rw [if_neg (fun hcontains => hmem (List.contains_iff_mem.mp hcontains)),
        cutAfter_append_of_not_mem hmem]
      exact ⟨congrArg (chunk ++ ·) hpiece, by simp [hmem, hfound], hleft⟩

end Source

/-- What a read up to a byte gives, where these are the bytes that are left. -/
def SourceEnd.deliver (ending : SourceEnd) (b : UInt8) (data : Bytes) : Except IoError Bytes :=
  if b ∈ data ∨ ending = .finished then .ok (cutAfter b data).1 else .error .inputLost

theorem Source.readUntil_eq (s : Source) (b : UInt8) :
    (s.readUntil b).1 = s.ending.deliver b s.bytes
      ∧ (s.readUntil b).2.bytes = (cutAfter b s.bytes).2
      ∧ (s.readUntil b).2.ending = s.ending := by
  obtain ⟨hpiece, hfound, hleft⟩ := gather_eq b s.chunks
  rw [SourceEnd.deliver, readUntil]
  simp only
  by_cases hgood : b ∈ s.bytes ∨ s.ending = .finished
  · have htest : ((gather b s.chunks).2.1 || decide (s.ending = .finished)) = true := by
      rw [Bool.or_eq_true, decide_eq_true_iff]
      exact hgood.imp hfound.mpr id
    rw [if_pos hgood, if_pos htest]
    exact ⟨congrArg Except.ok hpiece, hleft, rfl⟩
  · have htest : ¬ ((gather b s.chunks).2.1 || decide (s.ending = .finished)) = true := by
      rw [Bool.or_eq_true, decide_eq_true_iff]
      exact fun htrue => hgood (htrue.imp hfound.mp id)
    rw [if_neg hgood, if_neg htest]
    exact ⟨rfl, hleft, rfl⟩

end LineShell
