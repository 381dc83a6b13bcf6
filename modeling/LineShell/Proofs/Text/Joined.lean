/-
Texts that are put together from parts.

Where parts are left out of a text, what is left is found in the text, in the same order.  This
carries over to what is shown.  The reader that shows bytes keeps only the beginning of a character
in mind, and no character has an ASCII byte behind its beginning (`Awaits`).  So an ASCII byte ends
whatever was begun, stands for itself, and leaves nothing in mind for what comes behind it
(`readFrom_append_ascii`): a text that is joined at such a byte is shown part by part.
-/
import Mathlib.Data.List.Flatten
import LineShell.Text.Split
import LineShell.Text.Utf8

set_option autoImplicit false

namespace LineShell.Text

/-! ## Leaving parts out -/

section Joining

variable {α : Type} {separator : α} {kept parts : List (List α)}

/-- Two texts of parts make one text, with a separator between them. -/
theorem join_append (hkept : kept ≠ []) (hparts : parts ≠ []) :
    join separator (kept ++ parts) = join separator kept ++ separator :: join separator parts := by
  induction kept with
  | nil => exact absurd rfl hkept
  | cons part kept ih =>
    obtain ⟨next, parts, rfl⟩ := List.exists_cons_of_ne_nil hparts
    cases kept with
    | nil => rfl
    | cons other kept =>
      have hrest := ih (List.cons_ne_nil _ _)
      rw [List.cons_append] at hrest
      rw [List.cons_append, List.cons_append, join, hrest, join, List.append_assoc,
        List.cons_append]

theorem join_sublist_cons (part : List α) (parts : List (List α)) :
    (join separator parts).Sublist (join separator (part :: parts)) := by
  cases parts with
  | nil => exact List.nil_sublist _
  | cons next parts =>
    exact (List.sublist_cons_self _ _).trans (List.sublist_append_right _ _)

/-- A text from which parts are left out. -/
theorem join_sublist (h : kept.Sublist parts) :
    (join separator kept).Sublist (join separator parts) := by
  induction h with
  | slnil => exact .refl _
  | cons part _ ih => exact ih.trans (join_sublist_cons part _)
  | @cons_cons kept parts part hrest ih =>
    cases parts with
    | nil =>
      obtain rfl := List.sublist_nil.mp hrest
      exact .refl _
    | cons next parts =>
      cases kept with
      | nil => exact List.sublist_append_left _ _
      | cons first kept => exact (List.Sublist.refl part).append (ih.cons_cons separator)

end Joining

/-! ## Showing -/

/-- A state of the reader in which an ASCII byte continues nothing. -/
def Awaits (state : Option Partial) : Prop := ∀ p, state = some p → 0x80 ≤ p.low

variable {state : Option Partial} {b : UInt8}

theorem awaits_none : Awaits none := nofun

/-- The bytes that continue a character are no ASCII bytes. -/
theorem low_of_begins {p : Partial} (h : Lead.ofByte b = .begins p) : 0x80 ≤ p.low := by
  have hlow : ∀ value after low high, 0x80 ≤ low →
      Lead.begins ⟨value, after, low, high⟩ = .begins p → 0x80 ≤ p.low := by
    intro value after low high hlow heq
    injection heq with heq
    rw [← heq]
    exact hlow
  -- one case for each kind of byte: it begins a character, or it does not
  unfold Lead.ofByte at h
  repeat' split at h
  all_goals first | exact hlow _ _ _ _ (by decide) h | exact nomatch h

theorem awaits_readFresh (b : UInt8) : Awaits (readFresh b).2 := by
  intro p hp
  unfold readFresh at hp
  split at hp
  · exact nomatch hp
  · rename_i begun hlead
    injection hp with hp
    rw [← hp]
    exact low_of_begins hlead
  · exact nomatch hp

/-- Whatever is read, the reader is left in such a state. -/
theorem awaits_readByte (state : Option Partial) (b : UInt8) : Awaits (readByte state b).2 := by
  unfold readByte
  split
  · exact awaits_readFresh b
  · split
    · split
      · exact awaits_none
      · intro p hp
        injection hp with hp
        rw [← hp]
        exact UInt8.le_refl _
    · exact awaits_readFresh b

theorem readFresh_ascii (hb : b < 0x80) :
    readFresh b = ([some (Char.ofNat b.toNat)], none) := by
  rw [readFresh, Lead.ofByte, if_pos hb]

/-- An ASCII byte ends what was begun and stands for itself. -/
theorem readByte_ascii (hstate : Awaits state) (hb : b < 0x80) :
    readByte state b = (readFrom state [] ++ [some (Char.ofNat b.toNat)], none) := by
  cases state with
  | none => exact readFresh_ascii hb
  | some p =>
    have hlow : ¬ (p.low ≤ b ∧ b ≤ p.high) := by
      rintro ⟨hle, -⟩
      have hbound := hstate p rfl
      exact absurd (UInt8.lt_of_lt_of_le hb (UInt8.le_trans hbound hle)) (UInt8.lt_irrefl b)
    rw [readByte]
    simp only [if_neg hlow, readFresh_ascii hb]
    rfl

theorem readFrom_cons (state : Option Partial) (b : UInt8) (rest : Bytes) :
    readFrom state (b :: rest)
      = (readByte state b).1 ++ readFrom (readByte state b).2 rest := rfl

theorem readFrom_append_ascii (hstate : Awaits state) (hb : b < 0x80) (xs ys : Bytes) :
    readFrom state (xs ++ b :: ys)
      = readFrom state xs ++ some (Char.ofNat b.toNat) :: readFrom none ys := by
  induction xs generalizing state with
  | nil =>
    rw [List.nil_append, readFrom_cons, readByte_ascii hstate hb, List.append_assoc]
    rfl
  | cons x xs ih =>
    rw [List.cons_append, readFrom_cons, readFrom_cons, ih (awaits_readByte state x),
      List.append_assoc]

theorem scan_append (hb : b < 0x80) (xs ys : Bytes) :
    scan (xs ++ b :: ys) = scan xs ++ some (Char.ofNat b.toNat) :: scan ys :=
  readFrom_append_ascii awaits_none hb xs ys

/-- A text that is joined at an ASCII byte is read part by part. -/
theorem scan_join (hb : b < 0x80) (parts : List Bytes) :
    scan (join b parts) = join (some (Char.ofNat b.toNat)) (parts.map scan) := by
  induction parts with
  | nil => rfl
  | cons part parts ih =>
    cases parts with
    | nil => rfl
    | cons next parts =>
      rw [join, scan_append hb, ih]
      rfl

theorem encode_display (bytes : Bytes) :
    encode (display bytes)
      = (scan bytes).flatMap fun c => String.utf8EncodeChar (c.getD replacement) := by
  rw [encode, display, String.toList_ofList, List.flatMap_map]

/-- What shows no more characters takes no more room. -/
theorem length_encode_display {shorter longer : Bytes}
    (h : (scan shorter).Sublist (scan longer)) :
    (encode (display shorter)).length ≤ (encode (display longer)).length := by
  rw [encode_display, encode_display]
  exact (h.flatMap _).length_le

end LineShell.Text
