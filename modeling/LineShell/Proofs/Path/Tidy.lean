/-
Texts without detours in their spelling.

The same components can be spelled in many ways: with slashes too many, with a `.` between them, or
with a slash at the end.  A text is tidy if it uses none of these ways (`Tidy`).  A tidy text is the
same as a list of solid parts, written with one slash between neighbours and perhaps one in front
(`tidy_iff`), so it says nothing that its components do not say: it is written back from them letter
for letter (`Tidy.ofComponents_components`).

On tidy texts, what is done to a text is what is done to its list of parts.  Putting a part behind
the text puts it behind the list (`join_written`), and the parent of the text is written from the
list without its last part (`parent_written`).
-/
import LineShell.Proofs.Path.Normal
import LineShell.Proofs.Text.Joined

set_option autoImplicit false

namespace LineShell.Path

open LineShell.Text

variable {p q : Path} {absolute : Bool} {part : Bytes} {parts names : List Bytes}

/-! ## Solid parts -/

/-- A text between slashes that is a component. -/
structure Solid (part : Bytes) : Prop where
  nonempty : part ≠ []
  not_here : part ≠ [dot]
  no_slash : slash ∉ part

theorem Plain.solid (h : Plain part) : Solid part := ⟨h.nonempty, h.not_here, h.no_slash⟩

theorem solid_up : Solid [dot, dot] := ⟨by decide, by decide, by decide⟩

theorem Solid.isVoid (h : Solid part) : isVoid part = false := by
  simp [Path.isVoid, h.nonempty, h.not_here]

/-- A solid part is one component, and is what this component is written as. -/
theorem Solid.exists_component (h : Solid part) :
    ∃ c, Component.ofSegment part = [c] ∧ c.bytes = part ∧ c ≠ .root := by
  unfold Component.ofSegment
  rw [if_neg (not_or.mpr ⟨h.nonempty, h.not_here⟩)]
  split
  · rename_i hup
    exact ⟨.up, rfl, hup.symm, nofun⟩
  · exact ⟨.name part, rfl, rfl, nofun⟩

theorem map_bytes_ofSegment (h : ∀ part ∈ parts, Solid part) :
    (parts.flatMap Component.ofSegment).map Component.bytes = parts := by
  induction parts with
  | nil => rfl
  | cons part parts ih =>
    obtain ⟨c, hc, hbytes, -⟩ := (h part List.mem_cons_self).exists_component
    rw [List.flatMap_cons, hc, List.singleton_append, List.map_cons, hbytes,
      ih fun other hother => h other (List.mem_cons_of_mem _ hother)]

theorem no_slash_of_solid (h : ∀ part ∈ parts, Solid part) : ∀ part ∈ parts, slash ∉ part :=
  fun part hpart => (h part hpart).no_slash

/-- The parts of a relative normal form are solid. -/
theorem solid_trail (ups : Nat) (h : ∀ n ∈ names, Plain n) :
    ∀ part ∈ List.replicate ups [dot, dot] ++ names, Solid part := by
  intro part hpart
  rcases List.mem_append.mp hpart with hpart | hpart
  · rw [List.eq_of_mem_replicate hpart]
    exact solid_up
  · exact (h part hpart).solid

/-! ## Texts that are written from parts -/

/-- The path that is written from these parts, from the root or from where one is. -/
def written (absolute : Bool) (parts : List Bytes) : Path :=
  if absolute then ⟨slash :: Text.join slash parts⟩ else ⟨Text.join slash parts⟩

/-- A normal form is written from the steps up and the names. -/
theorem ofStack_eq_written (absolute : Bool) (ups : Nat) (names : List Bytes) :
    ofStack absolute ups names
      = written absolute ((if absolute then [] else List.replicate ups [dot, dot]) ++ names) := by
  cases absolute <;> rfl

/-- The text of parts begins with a byte of the first one. -/
theorem head?_join (hpart : part ≠ []) (parts : List Bytes) :
    (Text.join slash (part :: parts)).head? = part.head? := by
  obtain ⟨b, rest, rfl⟩ := List.exists_cons_of_ne_nil hpart
  cases parts <;> rfl

theorem Solid.head? (h : Solid part) : part.head? ≠ some slash := by
  intro hhead
  exact h.no_slash (List.mem_of_head? hhead)

theorem isAbsolute_written (h : ∀ part ∈ parts, Solid part) :
    (written absolute parts).isAbsolute = absolute := by
  cases absolute with
  | true => exact isAbsolute_slash _
  | false =>
    cases parts with
    | nil => rfl
    | cons part parts =>
      have hpart := h part List.mem_cons_self
      have hhead : (written false (part :: parts)).bytes.head? = part.head? :=
        head?_join hpart.nonempty parts
      rw [isAbsolute, hhead]
      exact beq_eq_false_iff_ne.mpr hpart.head?

/-- The parts of a text that is not empty are what stands between its slashes. -/
theorem split_join_solid (h : ∀ part ∈ parts, Solid part) (hne : parts ≠ []) :
    split (· == slash) (Text.join slash parts) = parts :=
  split_join hne (no_slash_of_solid h)

/-- A relative path that is written from solid parts does not begin at a `.`. -/
theorem lead_written_false (h : ∀ part ∈ parts, Solid part) :
    (written false parts).lead = .plain := by
  rw [lead, isAbsolute_written h, if_neg Bool.false_ne_true, if_neg]
  cases parts with
  | nil => decide
  | cons part parts =>
    have hcut : (written false (part :: parts)).segments = part :: parts :=
      split_join_solid h (List.cons_ne_nil _ _)
    rw [hcut, List.head?_cons, Option.some.injEq]
    exact (h part List.mem_cons_self).not_here

theorem components_written (h : ∀ part ∈ parts, Solid part) :
    (written absolute parts).components
      = (if absolute then [.root] else []) ++ parts.flatMap Component.ofSegment := by
  cases absolute with
  | true => exact components_slash_join (no_slash_of_solid h)
  | false =>
    rw [components, lead_written_false h]
    exact inner_mk_join (no_slash_of_solid h)

/-- A path that is written from solid parts is written from its components. -/
theorem ofComponents_written (h : ∀ part ∈ parts, Solid part) :
    ofComponents (written absolute parts).components = written absolute parts := by
  rw [components_written h]
  cases absolute with
  | true =>
    show (⟨slash :: Text.join slash ((parts.flatMap Component.ofSegment).map Component.bytes)⟩ :
      Path) = _
    rw [map_bytes_ofSegment h]
    rfl
  | false =>
    show ofComponents (parts.flatMap Component.ofSegment) = _
    have hbytes := map_bytes_ofSegment h
    unfold ofComponents
    split
    · rename_i rest hcs
      cases parts with
      | nil => simp at hcs
      | cons part parts =>
        obtain ⟨c, hc, -, hroot⟩ := (h part List.mem_cons_self).exists_component
        rw [List.flatMap_cons, hc, List.singleton_append] at hcs
        exact absurd (List.cons.inj hcs).1 hroot
    · rw [hbytes]
      rfl

/-! ## Tidy texts -/

/-- A text that spells no `.` and no slash too many. -/
structure Tidy (q : Path) : Prop where
  /-- No `.` stands between slashes. -/
  no_dot : [dot] ∉ q.segments
  /-- No slash stands next to another one. -/
  single : ∀ before behind, q.bytes ≠ before ++ slash :: slash :: behind
  /-- No slash stands at the end, except for the root itself. -/
  open_end : ∀ before, q.bytes = before ++ [slash] → before = []

/-- There is an empty part only where a slash stands beside another one, or at an end. -/
theorem solid_of_mem_split {xs : Bytes} (hdot : [dot] ∉ split (· == slash) xs)
    (hsingle : ∀ before behind, slash :: xs ≠ before ++ slash :: slash :: behind)
    (hend : ∀ before, xs ≠ before ++ [slash]) (hne : xs ≠ []) :
    ∀ part ∈ split (· == slash) xs, Solid part := by
  intro part hpart
  refine ⟨?_, ?_, ?_⟩
  · rintro rfl
    obtain ⟨front, back, hcut⟩ := List.append_of_mem hpart
    have hxs : Text.join slash (front ++ [] :: back) = xs := by rw [← hcut, join_split]
    cases front with
    | nil =>
      -- the text begins with the empty part
      cases back with
      | nil => exact hne hxs.symm
      | cons next back =>
        apply hsingle [] (Text.join slash (next :: back))
        rw [← hxs]
        rfl
    | cons first front =>
      rw [join_append (List.cons_ne_nil _ _) (List.cons_ne_nil _ _)] at hxs
      cases back with
      | nil => exact hend _ hxs.symm
      | cons next back =>
        apply hsingle (slash :: Text.join slash (first :: front)) (Text.join slash (next :: back))
        rw [← hxs]
        rfl
  · rintro rfl
    exact hdot hpart
  · intro hslash
    exact absurd (not_of_mem_split (· == slash) hpart slash hslash) (by simp)

/-- A tidy text is written from solid parts. -/
theorem Tidy.exists_written (h : q.Tidy) :
    ∃ parts, (∀ part ∈ parts, Solid part) ∧ q = written q.isAbsolute parts := by
  cases habs : q.isAbsolute with
  | true =>
    obtain ⟨rest, rfl⟩ := exists_bytes_of_isAbsolute habs
    rcases eq_or_ne rest [] with rfl | hne
    · exact ⟨[], nofun, rfl⟩
    · refine ⟨split (· == slash) rest, solid_of_mem_split ?_ h.single ?_ hne, ?_⟩
      · intro hdot
        exact h.no_dot (List.mem_cons_of_mem [] hdot)
      · rintro before rfl
        exact List.cons_ne_nil _ _ (h.open_end (slash :: before) rfl)
      · rw [written, if_pos rfl, join_split]
  | false =>
    obtain ⟨bytes⟩ := q
    have hhead : bytes.head? ≠ some slash := by simpa [isAbsolute] using habs
    rcases eq_or_ne bytes [] with rfl | hne
    · exact ⟨[], nofun, rfl⟩
    · refine ⟨split (· == slash) bytes, solid_of_mem_split h.no_dot ?_ ?_ hne, ?_⟩
      · intro before behind hbytes
        cases before with
        | nil =>
          apply hhead
          rw [(List.cons.inj hbytes).2]
          rfl
        | cons b before => exact h.single before behind (List.cons.inj hbytes).2
      · intro before hbytes
        apply hhead
        rw [hbytes, h.open_end before hbytes]
        rfl
      · rw [written, if_neg Bool.false_ne_true, join_split]

/-- An empty text behind another one is one of those behind the first. -/
theorem nil_mem_of_append {front back : List Bytes} (hne : front ≠ [])
    (h : [] :: parts = front ++ [] :: back) : [] ∈ parts := by
  obtain ⟨first, front, rfl⟩ := List.exists_cons_of_ne_nil hne
  rw [List.cons_append] at h
  rw [(List.cons.inj h).2]
  exact List.mem_append_right front List.mem_cons_self

/-- What is written from solid parts is tidy. -/
theorem tidy_written (h : ∀ part ∈ parts, Solid part) : (written absolute parts).Tidy := by
  rcases eq_or_ne parts [] with rfl | hne
  · -- the root alone, or no text at all
    have hlength : (written absolute []).bytes.length ≤ 1 := by cases absolute <;> decide
    refine ⟨by cases absolute <;> decide, ?_, ?_⟩
    · intro before behind hbytes
      rw [hbytes, List.length_append, List.length_cons, List.length_cons] at hlength
      omega
    · intro before hbytes
      simpa [hbytes] using hlength
  · have hempty : [] ∉ parts := fun hmem => (h _ hmem).nonempty rfl
    -- one more part in front covers the root
    have hcut : ∃ front, [] :: parts = front ++ (written absolute parts).segments := by
      cases absolute with
      | true =>
        refine ⟨[], ?_⟩
        show _ = split (· == slash) ([] ++ slash :: Text.join slash parts)
        rw [split_append_slash, split_join_solid h hne]
        rfl
      | false => exact ⟨[[]], congrArg ([] :: ·) (split_join_solid h hne).symm⟩
    obtain ⟨front, hcut⟩ := hcut
    have hclosed : ∀ before behind, (written absolute parts).bytes = before ++ slash :: behind →
        ¬ ∃ back, split (· == slash) behind = [] :: back := by
      rintro before behind hbytes ⟨back, hback⟩
      rw [segments, hbytes, split_append_slash, hback, ← List.append_assoc] at hcut
      refine hempty (nil_mem_of_append ?_ hcut)
      simp [split_ne_nil]
    refine ⟨?_, ?_, ?_⟩
    · intro hdot
      have hmem : [dot] ∈ [] :: parts := hcut ▸ List.mem_append_right front hdot
      rcases List.mem_cons.mp hmem with hnil | hmem
      · simp at hnil
      · exact (h _ hmem).not_here rfl
    · intro before behind hbytes
      exact hclosed before (slash :: behind) hbytes ⟨_, rfl⟩
    · intro before hbytes
      exact absurd ⟨[], rfl⟩ (hclosed before [] hbytes)

/-- **A tidy text is what is written from its components.** -/
theorem Tidy.ofComponents_components (h : q.Tidy) : ofComponents q.components = q := by
  obtain ⟨parts, hparts, hq⟩ := h.exists_written
  rw [hq, ofComponents_written hparts]

/-- Normal forms are tidy. -/
theorem tidy_ofStack (absolute : Bool) (ups : Nat) (h : ∀ n ∈ names, Plain n) :
    (ofStack absolute ups names).Tidy := by
  rw [ofStack_eq_written]
  apply tidy_written
  cases absolute with
  | true => exact fun n hn => (h n hn).solid
  | false => exact solid_trail ups h

/-! ## What is done to a tidy text -/

/-- The text of solid parts does not end in a slash. -/
theorem getLast?_join (h : ∀ part ∈ parts, Solid part) :
    (Text.join slash parts).getLast? ≠ some slash := by
  intro hlast
  obtain ⟨before, hbefore⟩ := List.getLast?_eq_some_iff.mp hlast
  have hnil := (@tidy_written false parts h).open_end before hbefore
  have habs : (written false parts).isAbsolute = true := by
    have hbytes : (written false parts).bytes = before ++ [slash] := hbefore
    rw [isAbsolute, hbytes, hnil]
    rfl
  rw [isAbsolute_written h] at habs
  exact Bool.false_ne_true habs

theorem join_ne_nil (hne : parts ≠ []) (h : ∀ part ∈ parts, Solid part) :
    Text.join slash parts ≠ [] := by
  intro hnil
  have hcut := split_join_solid h hne
  rw [hnil, split_nil] at hcut
  exact (h [] (hcut ▸ List.mem_singleton_self _)).nonempty rfl

/-- What is put behind a text that is written from parts is one part more. -/
theorem join_written (h : ∀ part ∈ parts, Solid part) (hpart : Solid part) :
    (written absolute parts).join ⟨part⟩ = written absolute (parts ++ [part]) := by
  have hrel : isAbsolute ⟨part⟩ = false := @isAbsolute_written false [part] (by simpa using hpart)
  rw [join, if_neg (by simp [hrel])]
  rcases eq_or_ne parts [] with rfl | hne
  · cases absolute <;> rfl
  · have hnonempty := join_ne_nil hne h
    have hlast := getLast?_join h
    have hjoin := @join_append _ slash _ _ hne (List.cons_ne_nil part [])
    cases absolute with
    | true =>
      rw [if_neg]
      · simp only [written, if_true, hjoin]
        rfl
      · have hbytes : (written true parts).bytes = slash :: Text.join slash parts := rfl
        rw [hbytes, not_or, List.getLast?_cons_of_ne_nil hnonempty]
        exact ⟨List.cons_ne_nil _ _, hlast⟩
    | false =>
      rw [if_neg]
      · simp only [written, Bool.false_eq_true, if_false, hjoin]
        rfl
      · exact not_or.mpr ⟨hnonempty, hlast⟩

/-- The parent of a text that is written from parts is written without the last one. -/
theorem parent_written (h : ∀ part ∈ parts, Solid part) (hpart : Solid part) :
    (written absolute (parts ++ [part])).parent? = some (written absolute parts) := by
  have hall : ∀ other ∈ parts ++ [part], Solid other := by
    intro other hother
    rcases List.mem_append.mp hother with hother | hother
    · exact h other hother
    · rw [List.mem_singleton.mp hother]
      exact hpart
  have hne : parts ++ [part] ≠ [] := by simp
  have hcut : (written absolute (parts ++ [part])).restFromRight = part :: parts.reverse := by
    have hrest : (written absolute (parts ++ [part])).restFromRight
        = (split (· == slash) (Text.join slash (parts ++ [part]))).reverse := by
      cases absolute with
      | true => exact restFromRight_slash _
      | false => rw [restFromRight, lead_written_false hall]; rfl
    rw [hrest, split_join_solid hall hne, List.reverse_append]
    rfl
  have hkept : parts.reverse.dropWhile isVoid = parts.reverse := by
    cases hreverse : parts.reverse with
    | nil => rfl
    | cons last before =>
      have hlast : last ∈ parts := by
        rw [← List.mem_reverse, hreverse]
        exact List.mem_cons_self
      rw [List.dropWhile_cons, (h last hlast).isVoid]
      rfl
  rw [parent?, hcut, List.dropWhile_cons, hpart.isVoid]
  simp only [Bool.false_eq_true, if_false, hkept, List.reverse_reverse]
  cases absolute with
  | true => rw [written, if_pos rfl, lead_slash]; rfl
  | false => rw [lead_written_false hall]; rfl

end LineShell.Path
