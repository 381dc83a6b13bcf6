/-
What trimming and cutting do to a text.

Trimming takes white space off both ends, so a text that begins and ends with something else is
left alone wherever white space is put around it (`Padded`), and two such texts with anything
between them trim as one.  Cutting at a separator is undone by putting the separator back between
the parts.  At pairs this is so too, although the leftmost pair is taken first, and what an overlap
leaves over is in a part.
-/
import Mathlib.Data.List.DropRight
import LineShell.Command.Job

set_option autoImplicit false

namespace LineShell.Text

/-! ## Trimming -/

section Trimming

variable {cs : List Char}

theorem trimEnd_eq_rdropWhile (cs : List Char) : trimEnd cs = cs.rdropWhile isSpace := rfl

theorem trimStart_trimStart (cs : List Char) : trimStart (trimStart cs) = trimStart cs :=
  List.dropWhile_idempotent isSpace cs

/-- Trimming at the end of a text that begins with no space leaves it beginning so. -/
theorem trimStart_trimEnd_trimStart (cs : List Char) :
    trimStart (trimEnd (trimStart cs)) = trimEnd (trimStart cs) := by
  rw [trimStart, List.dropWhile_eq_self_iff]
  intro hpos
  -- what is left is a prefix, so its first character is the one in front of which cutting stopped
  have hpre : trimEnd (trimStart cs) <+: trimStart cs := List.rdropWhile_prefix isSpace _
  rw [hpre.getElem hpos]
  exact List.dropWhile_eq_self_iff.mp (trimStart_trimStart cs)
    (Nat.lt_of_lt_of_le hpos hpre.length_le)

/-- A trimmed text is not changed by trimming. -/
@[simp] theorem trim_trim (cs : List Char) : trim (trim cs) = trim cs := by
  unfold trim
  rw [trimStart_trimEnd_trimStart, trimEnd_eq_rdropWhile, trimEnd_eq_rdropWhile,
    List.rdropWhile_idempotent]

/-- A text that is more than white space has more than white space left at its start. -/
theorem trimStart_ne_nil (h : ∃ c ∈ cs, isSpace c = false) : trimStart cs ≠ [] := by
  intro hnil
  obtain ⟨c, hc, hspace⟩ := h
  rw [List.dropWhile_eq_nil_iff.mp hnil c hc] at hspace
  exact Bool.noConfusion hspace

/-- A text that is more than white space is more than nothing when it is trimmed. -/
theorem trim_ne_nil (h : ∃ c ∈ cs, isSpace c = false) : trim cs ≠ [] := by
  intro hnil
  rw [trim, trimEnd_eq_rdropWhile, List.rdropWhile_eq_nil_iff] at hnil
  -- all that is left at the start is white space, and the cut there has left none
  have hdrop : trimStart (trimStart cs) = [] := List.dropWhile_eq_nil_iff.mpr hnil
  rw [trimStart_trimStart] at hdrop
  exact trimStart_ne_nil h hdrop

/-- A text behind one that is more than white space keeps the cut at the start away. -/
theorem trimStart_append (h : ∃ c ∈ cs, isSpace c = false) (behind : List Char) :
    trimStart (cs ++ behind) = trimStart cs ++ behind := by
  have hne : (cs.dropWhile isSpace).isEmpty = false :=
    List.isEmpty_eq_false_iff.mpr (trimStart_ne_nil h)
  rw [trimStart, List.dropWhile_append, hne]
  rfl

/-- Nothing is cut at the end of a text whose last character is no space. -/
theorem trimEnd_append_singleton {c : Char} (hc : isSpace c = false) (cs : List Char) :
    trimEnd (cs ++ [c]) = cs ++ [c] := by
  rw [trimEnd_eq_rdropWhile, List.rdropWhile_concat_neg isSpace cs c (by simp [hc])]

/-- A space behind a text is cut off. -/
theorem trim_append_space (h : ∃ c ∈ cs, isSpace c = false) {space : Char}
    (hspace : isSpace space = true) : trim (cs ++ [space]) = trim cs := by
  rw [trim, trimStart_append h, trimEnd_eq_rdropWhile,
    List.rdropWhile_concat_pos isSpace _ space hspace]
  rfl

end Trimming

/-! ## Cutting -/

section Split

variable {α : Type} {p : α → Bool} {xs : List α}

/-- A list without a separator is not cut. -/
theorem split_eq_singleton (h : ∀ a ∈ xs, p a = false) : split p xs = [xs] := by
  induction xs with
  | nil => rfl
  | cons a xs ih =>
    have ha : p a = false := h a List.mem_cons_self
    rw [split_cons, ha, ih (fun b hb => h b (List.mem_cons_of_mem _ hb))]
    rfl

/-- The first cut is made at the first separator. -/
theorem split_append_cons (h : ∀ a ∈ xs, p a = false) {separator : α}
    (hsep : p separator = true) (ys : List α) :
    split p (xs ++ separator :: ys) = xs :: split p ys := by
  induction xs with
  | nil => rw [List.nil_append, split_cons, hsep]; rfl
  | cons a xs ih =>
    have ha : p a = false := h a List.mem_cons_self
    rw [List.cons_append, split_cons, ha, ih (fun b hb => h b (List.mem_cons_of_mem _ hb))]
    rfl

/-- Cutting at one separator more cuts what is in front of it and what is behind it. -/
theorem split_append {separator : α} (hsep : p separator = true) (xs ys : List α) :
    split p (xs ++ separator :: ys) = split p xs ++ split p ys := by
  induction xs with
  | nil =>
    rw [List.nil_append, split_cons, if_pos hsep]
    rfl
  | cons a xs ih =>
    obtain ⟨first, parts, hsplit⟩ := List.exists_cons_of_ne_nil (split_ne_nil p xs)
    rw [List.cons_append, split_cons, split_cons, ih, hsplit]
    split <;> rfl

/-- Parts that hold no separator are what the text that they are joined to is cut into. -/
theorem split_join [DecidableEq α] {separator : α} {parts : List (List α)} (hne : parts ≠ [])
    (h : ∀ part ∈ parts, separator ∉ part) :
    split (· == separator) (join separator parts) = parts := by
  have hclean : ∀ part ∈ parts, ∀ a ∈ part, (a == separator) = false := by
    intro part hpart a ha
    apply beq_eq_false_iff_ne.mpr
    rintro rfl
    exact h part hpart ha
  induction parts with
  | nil => exact absurd rfl hne
  | cons part parts ih =>
    have hpart := hclean part List.mem_cons_self
    cases parts with
    | nil => exact split_eq_singleton hpart
    | cons next parts =>
      rw [join, split_append_cons hpart (beq_self_eq_true separator)]
      congr 1
      apply ih (List.cons_ne_nil _ _)
      · intro other hother
        exact h other (List.mem_cons_of_mem _ hother)
      · intro other hother
        exact hclean other (List.mem_cons_of_mem _ hother)

theorem subset_of_mem_extendFirst {a : α} {parts : List (List α)}
    (h : ∀ part ∈ parts, part ⊆ xs) : ∀ part ∈ extendFirst a parts, part ⊆ a :: xs := by
  intro part hpart
  cases parts with
  | nil =>
    rw [List.mem_singleton.mp hpart]
    exact List.cons_subset_cons a (List.nil_subset xs)
  | cons first parts =>
    rcases List.mem_cons.mp hpart with rfl | hpart
    · exact List.cons_subset_cons a (h first List.mem_cons_self)
    · exact List.subset_cons_of_subset a (h part (List.mem_cons_of_mem _ hpart))

/-- A part holds nothing that the list does not hold. -/
theorem subset_of_mem_split (p : α → Bool) (xs : List α) : ∀ part ∈ split p xs, part ⊆ xs := by
  induction xs with
  | nil => simp
  | cons a xs ih =>
    rw [split_cons]
    split
    · intro part hpart
      rcases List.mem_cons.mp hpart with rfl | hpart
      · exact List.nil_subset _
      · exact List.subset_cons_of_subset a (ih part hpart)
    · exact subset_of_mem_extendFirst ih

/-- What is no separator is in one of the parts. -/
theorem exists_part_of_mem (p : α → Bool) {a : α} (h : a ∈ xs) (ha : p a = false) :
    ∃ part ∈ split p xs, a ∈ part := by
  obtain ⟨before, behind, rfl⟩ := List.append_of_mem h
  induction before with
  | nil =>
    obtain ⟨first, parts, hsplit⟩ := List.exists_cons_of_ne_nil (split_ne_nil p behind)
    refine ⟨a :: first, ?_, List.mem_cons_self⟩
    rw [List.nil_append, split_cons, ha, hsplit]
    exact List.mem_cons_self
  | cons b before ih =>
    obtain ⟨part, hpart, hmem⟩ := ih (by simp)
    rw [List.cons_append, split_cons]
    split
    · exact ⟨part, List.mem_cons_of_mem _ hpart, hmem⟩
    · -- `b` joins the first part, which may be the one
      obtain ⟨first, parts, hsplit⟩ := List.exists_cons_of_ne_nil
        (split_ne_nil p (before ++ a :: behind))
      rw [hsplit] at hpart ⊢
      rcases List.mem_cons.mp hpart with rfl | hpart
      · exact ⟨b :: part, List.mem_cons_self, List.mem_cons_of_mem b hmem⟩
      · exact ⟨part, List.mem_cons_of_mem _ hpart, hmem⟩

/-- A part of a cut at pairs holds nothing that the list does not hold. -/
theorem subset_of_mem_splitPairs (p : α → Bool) : (xs : List α) →
    ∀ part ∈ splitPairs p xs, part ⊆ xs
  | [] => by simp [splitPairs]
  | [a] => by simp [splitPairs]
  | a :: b :: rest => by
    rw [splitPairs]
    split
    · intro part hpart
      rcases List.mem_cons.mp hpart with rfl | hpart
      · exact List.nil_subset _
      · have hrest := subset_of_mem_splitPairs p rest part hpart
        exact List.subset_cons_of_subset a (List.subset_cons_of_subset b hrest)
    · exact subset_of_mem_extendFirst (subset_of_mem_splitPairs p (b :: rest))

end Split

/-! ## White space around a text -/

/-- White space and nothing else. -/
def Blank (cs : List Char) : Prop := ∀ c ∈ cs, isSpace c = true

instance (cs : List Char) : Decidable (Blank cs) :=
  List.decidableBAll (fun c => isSpace c = true) cs

/-- A text that begins and ends with something else than white space. -/
structure Tight (cs : List Char) : Prop where
  front : ∃ c rest, cs = c :: rest ∧ isSpace c = false
  back : ∃ rest c, cs = rest ++ [c] ∧ isSpace c = false

/-- The text `cs` is `core` with white space around it, and `core` has none at its ends. -/
structure Padded (core cs : List Char) : Prop where
  tight : Tight core
  around : ∃ before behind, Blank before ∧ Blank behind ∧ cs = before ++ core ++ behind

section Padding

variable {core cs before behind first second : List Char}

theorem Blank.not_mem (h : Blank cs) {c : Char} (hc : isSpace c = false) : c ∉ cs := by
  intro hmem
  rw [h c hmem] at hc
  exact Bool.noConfusion hc

/-- What trimming takes away is white space. -/
theorem exists_trim (cs : List Char) :
    ∃ before behind, Blank before ∧ Blank behind ∧ cs = before ++ trim cs ++ behind := by
  refine ⟨cs.takeWhile isSpace, (trimStart cs).rtakeWhile isSpace, ?_, ?_, ?_⟩
  · intro c hc
    exact List.mem_takeWhile_imp hc
  · intro c hc
    exact List.mem_rtakeWhile_imp hc
  · have hend : trim cs ++ (trimStart cs).rtakeWhile isSpace = trimStart cs :=
      List.rdropWhile_append_rtakeWhile
    rw [List.append_assoc, hend]
    exact List.takeWhile_append_dropWhile.symm

/-- White space around a text is trimmed away. -/
theorem trim_of_tight (h : Tight core) (hbefore : Blank before) (hbehind : Blank behind) :
    trim (before ++ core ++ behind) = core := by
  obtain ⟨c, rest, hfront, hc⟩ := h.front
  obtain ⟨init, d, hback, hd⟩ := h.back
  have hstart : trimStart (before ++ core ++ behind) = core ++ behind := by
    rw [trimStart, List.append_assoc, List.dropWhile_append_of_pos hbefore, hfront,
      List.cons_append, List.dropWhile_cons_of_neg (by simp [hc])]
  have hend : trimEnd (core ++ behind) = trimEnd core := by
    rw [trimEnd, List.reverse_append, List.dropWhile_append_of_pos (by simpa [Blank] using hbehind)]
    rfl
  rw [trim, hstart, hend, hback, trimEnd_append_singleton hd]

/-- Being padded says what trimming leaves. -/
theorem padded_iff : Padded core cs ↔ trim cs = core ∧ core ≠ [] := by
  constructor
  · rintro ⟨htight, before, behind, hbefore, hbehind, rfl⟩
    refine ⟨trim_of_tight htight hbefore hbehind, ?_⟩
    obtain ⟨c, rest, rfl, -⟩ := htight.front
    simp
  · rintro ⟨rfl, hne⟩
    refine ⟨⟨?_, ?_⟩, exists_trim cs⟩
    · obtain ⟨c, rest, hcons⟩ := List.exists_cons_of_ne_nil hne
      refine ⟨c, rest, hcons, ?_⟩
      have hstart : trimStart (trim cs) = trim cs := trimStart_trimEnd_trimStart cs
      rw [trimStart, List.dropWhile_eq_self_iff] at hstart
      have hhead := hstart (List.length_pos_of_ne_nil hne)
      simpa [hcons] using hhead
    · refine ⟨(trim cs).dropLast, (trim cs).getLast hne, ?_, ?_⟩
      · exact (List.dropLast_append_getLast hne).symm
      · have hlast := List.rdropWhile_last_not isSpace (trimStart cs) hne
        rwa [Bool.not_eq_true] at hlast

/-- More white space around a padded text makes no difference. -/
theorem Padded.append (h : Padded core cs) (hbefore : Blank before) (hbehind : Blank behind) :
    Padded core (before ++ cs ++ behind) := by
  obtain ⟨inner, outer, hinner, houter, rfl⟩ := h.around
  refine ⟨h.tight, before ++ inner, outer ++ behind, ?_, ?_, by simp⟩
  · intro c hc
    exact (List.mem_append.mp hc).elim (hbefore c) (hinner c)
  · intro c hc
    exact (List.mem_append.mp hc).elim (houter c) (hbehind c)

/-- Two tight texts with anything between them are a tight text. -/
theorem Tight.join (hfirst : Tight first) (hsecond : Tight second) (between : List Char) :
    Tight (first ++ between ++ second) := by
  obtain ⟨c, rest, rfl, hc⟩ := hfirst.front
  obtain ⟨init, d, rfl, hd⟩ := hsecond.back
  constructor
  · exact ⟨c, rest ++ between ++ (init ++ [d]), by simp, hc⟩
  · exact ⟨c :: rest ++ between ++ init, d, by simp, hd⟩

/-- Two padded texts with something between them: trimming takes off what is outside, and what is
left can be cut into padded texts again. -/
theorem exists_trim_join (hfirst : Padded core first) {other : List Char}
    (hsecond : Padded other second) (between : List Char) :
    ∃ l r, trim (first ++ between ++ second) = l ++ between ++ r ∧ trim l = core ∧ trim r = other
      ∧ l ⊆ first ∧ r ⊆ second := by
  obtain ⟨b₁, e₁, hb₁, he₁, rfl⟩ := hfirst.around
  obtain ⟨b₂, e₂, hb₂, he₂, rfl⟩ := hsecond.around
  refine ⟨core ++ e₁, b₂ ++ other, ?_, ?_, ?_, ?_, ?_⟩
  · have htight := hfirst.tight.join hsecond.tight (e₁ ++ between ++ b₂)
    have htrim := trim_of_tight htight hb₁ he₂
    simpa using htrim
  · have hnone : Blank [] := by simp [Blank]
    have htrim := trim_of_tight hfirst.tight hnone he₁
    simpa using htrim
  · have hnone : Blank [] := by simp [Blank]
    have htrim := trim_of_tight hsecond.tight hb₂ hnone
    simpa using htrim
  · intro c hc
    simp only [List.mem_append] at hc ⊢
    tauto
  · intro c hc
    simp only [List.mem_append] at hc ⊢
    tauto

theorem mem_trim_iff {c : Char} (hc : isSpace c = false) : c ∈ trim cs ↔ c ∈ cs := by
  constructor
  · intro hmem
    exact (trim_sublist cs).subset hmem
  · intro hmem
    obtain ⟨before, behind, hbefore, hbehind, hcs⟩ := exists_trim cs
    rw [hcs] at hmem
    simp only [List.mem_append] at hmem
    rcases hmem with (hmem | hmem) | hmem
    · exact absurd hmem (hbefore.not_mem hc)
    · exact hmem
    · exact absurd hmem (hbehind.not_mem hc)

theorem trim_eq_nil_iff : trim cs = [] ↔ Blank cs := by
  constructor
  · intro hnil c hc
    by_contra hspace
    exact trim_ne_nil ⟨c, hc, by simpa using hspace⟩ hnil
  · intro hblank
    by_contra hne
    obtain ⟨c, rest, hcons⟩ := List.exists_cons_of_ne_nil hne
    have htight := (padded_iff.mpr ⟨rfl, hne⟩).tight
    obtain ⟨d, rest', hfront, hd⟩ := htight.front
    have hmem : d ∈ trim cs := by rw [hfront]; exact List.mem_cons_self
    exact hblank.not_mem hd ((trim_sublist cs).subset hmem)

/-- A text that is more than white space has a word. -/
theorem words_ne_nil (h : ∃ c ∈ cs, isSpace c = false) : words cs ≠ [] := by
  obtain ⟨c, hmem, hc⟩ := h
  obtain ⟨part, hpart, hcpart⟩ := exists_part_of_mem isSpace hmem hc
  apply List.ne_nil_of_mem (a := part)
  apply List.mem_filter.mpr
  cases part with
  | nil => exact nomatch hcpart
  | cons d part => exact ⟨hpart, rfl⟩

theorem words_ne_nil_of_tight (h : Tight cs) : words cs ≠ [] := by
  obtain ⟨c, rest, rfl, hc⟩ := h.front
  exact words_ne_nil ⟨c, List.mem_cons_self, hc⟩

/-- White space between two texts parts their words. -/
theorem words_append_cons {space : Char} (h : isSpace space = true) (first second : List Char) :
    words (first ++ space :: second) = words first ++ words second := by
  rw [words, split_append h, List.filter_append]
  rfl

/-- White space inside of a tight text has something else on each of its sides. -/
theorem Tight.around_space {space : Char} (h : Tight (first ++ space :: second))
    (hspace : isSpace space = true) :
    (∃ c ∈ first, isSpace c = false) ∧ ∃ c ∈ second, isSpace c = false := by
  have hne : ∀ {c : Char}, isSpace c = false → space ≠ c := by
    rintro c hc rfl
    rw [hc] at hspace
    exact Bool.noConfusion hspace
  obtain ⟨c, rest, hfront, hc⟩ := h.front
  obtain ⟨init, d, hback, hd⟩ := h.back
  constructor
  · cases first with
    | nil =>
      simp only [List.nil_append, List.cons.injEq] at hfront
      exact absurd hfront.1 (hne hc)
    | cons c' first =>
      simp only [List.cons_append, List.cons.injEq] at hfront
      exact ⟨c', List.mem_cons_self, by rw [hfront.1, hc]⟩
  · have hlast : (first ++ space :: second).getLast? = some d := by rw [hback]; simp
    rw [List.getLast?_append_cons, List.getLast?_cons, Option.some.injEq] at hlast
    cases hsecond : second.getLast? with
    | none =>
      rw [hsecond] at hlast
      exact absurd hlast (hne hd)
    | some d' =>
      rw [hsecond, Option.getD_some] at hlast
      exact ⟨d', List.mem_of_getLast? hsecond, by rw [hlast, hd]⟩

/-- A text of a single word is that word, if it is tight. -/
theorem eq_of_words_eq_singleton {word : List Char} (h : Tight cs) (hwords : words cs = [word]) :
    cs = word := by
  by_cases hspace : ∃ space ∈ cs, isSpace space = true
  · obtain ⟨space, hmem, hspace⟩ := hspace
    obtain ⟨first, second, rfl⟩ := List.append_of_mem hmem
    obtain ⟨hfirst, hsecond⟩ := h.around_space hspace
    -- a word on each side is one too many
    have hleft := List.length_pos_of_ne_nil (words_ne_nil hfirst)
    have hright := List.length_pos_of_ne_nil (words_ne_nil hsecond)
    have hlength := congrArg List.length hwords
    rw [words_append_cons hspace, List.length_append, List.length_singleton] at hlength
    omega
  · have hnone : ∀ c ∈ cs, isSpace c = false := by simpa using hspace
    have hne : cs ≠ [] := by
      obtain ⟨c, rest, rfl, -⟩ := h.front
      simp
    rw [words, split_eq_singleton hnone] at hwords
    simpa [hne] using hwords

end Padding

/-! ## Cutting at a pair -/

section Pairs

variable {α : Type} {p : α → Bool} {xs ys : List α}

/-- A symbol that is no separator joins the first part. -/
theorem splitPairs_cons_of_neg {a : α} (ha : p a = false) (xs : List α) :
    splitPairs p (a :: xs) = extendFirst a (splitPairs p xs) := by
  cases xs with
  | nil => rfl
  | cons b rest => rw [splitPairs, ha, Bool.false_and, if_neg Bool.false_ne_true]

theorem splitPairs_eq_singleton (h : ∀ a ∈ xs, p a = false) : splitPairs p xs = [xs] := by
  induction xs with
  | nil => rfl
  | cons a xs ih =>
    have hrest : ∀ b ∈ xs, p b = false := fun b hb => h b (List.mem_cons_of_mem a hb)
    rw [splitPairs_cons_of_neg (h a List.mem_cons_self), ih hrest]
    rfl

/-- A single pair is where the list is cut. -/
theorem splitPairs_append_cons {a b : α} (ha : p a = true) (hb : p b = true)
    (hxs : ∀ c ∈ xs, p c = false) (hys : ∀ c ∈ ys, p c = false) :
    splitPairs p (xs ++ a :: b :: ys) = [xs, ys] := by
  induction xs with
  | nil =>
    rw [List.nil_append, splitPairs, ha, hb, Bool.and_self, if_pos rfl, splitPairs_eq_singleton hys]
  | cons c xs ih =>
    have hrest : ∀ b ∈ xs, p b = false := fun b hb => hxs b (List.mem_cons_of_mem c hb)
    rw [List.cons_append, splitPairs_cons_of_neg (hxs c List.mem_cons_self), ih hrest]
    rfl

/-- With the pairs put back between the parts the list is whole again. -/
theorem intercalate_splitPairs [DecidableEq α] (separator : α) : (xs : List α) →
    [separator, separator].intercalate (splitPairs (· == separator) xs) = xs
  | [] => rfl
  | [a] => by simp [splitPairs]
  | a :: b :: rest => by
    rw [splitPairs]
    split
    · rename_i hab
      obtain ⟨rfl, rfl⟩ : a = separator ∧ b = separator := by simpa using hab
      have ih := intercalate_splitPairs b rest
      obtain ⟨part, parts, hparts⟩ :=
        List.exists_cons_of_ne_nil (splitPairs_ne_nil (· == b) rest)
      rw [hparts] at ih ⊢
      rw [List.intercalate_cons_cons, ih]
      rfl
    · have ih := intercalate_splitPairs separator (b :: rest)
      obtain ⟨part, parts, hparts⟩ :=
        List.exists_cons_of_ne_nil (splitPairs_ne_nil (· == separator) (b :: rest))
      rw [hparts] at ih ⊢
      cases parts with
      | nil => simpa [extendFirst] using ih
      | cons next parts =>
        rw [List.intercalate_cons_cons] at ih
        rw [extendFirst, List.intercalate_cons_cons, ← ih]
        simp

/-- A pair is a pair of neighbours. -/
theorem hasPair_iff [DecidableEq α] (a : α) :
    hasPair (· == a) xs = true ↔ [a, a] <:+: xs := by
  induction xs with
  | nil => simp [hasPair]
  | cons b xs ih =>
    cases xs with
    | nil => simp [hasPair, List.infix_cons_iff]
    | cons c rest =>
      have hfront : [a, a] <+: b :: c :: rest ↔ (b == a && c == a) = true := by
        rw [Bool.and_eq_true, beq_iff_eq, beq_iff_eq, List.cons_prefix_cons, List.cons_prefix_cons]
        constructor
        · rintro ⟨rfl, rfl, -⟩
          exact ⟨rfl, rfl⟩
        · rintro ⟨rfl, rfl⟩
          exact ⟨rfl, rfl, List.nil_prefix⟩
      rw [hasPair, Bool.or_eq_true, ih, ← hfront]
      exact List.infix_cons_iff.symm

theorem hasPair_append_of_neg (h : ∀ a ∈ xs, p a = false) (ys : List α) :
    hasPair p (xs ++ ys) = hasPair p ys ∧ hasPair p (ys ++ xs) = hasPair p ys := by
  constructor
  · induction xs with
    | nil => rfl
    | cons a xs ih =>
      rw [List.cons_append, ← ih fun b hb => h b (List.mem_cons_of_mem a hb)]
      cases hrest : xs ++ ys with
      | nil => rfl
      | cons b rest => rw [hasPair, h a List.mem_cons_self, Bool.false_and, Bool.false_or]
  · induction ys with
    | nil =>
      induction xs with
      | nil => rfl
      | cons a xs ih =>
        cases xs with
        | nil => rfl
        | cons b rest =>
          rw [List.nil_append, hasPair, h a List.mem_cons_self, Bool.false_and, Bool.false_or]
          exact ih fun c hc => h c (List.mem_cons_of_mem a hc)
    | cons b ys ih =>
      cases ys with
      | nil =>
        cases xs with
        | nil => rfl
        | cons a rest =>
          have hnone : hasPair p (a :: rest) = false := ih
          rw [List.singleton_append, hasPair, hnone, h a List.mem_cons_self, Bool.and_false]
          rfl
      | cons c rest =>
        rw [List.cons_append, List.cons_append, hasPair, hasPair, ← List.cons_append, ih]

end Pairs

end LineShell.Text
