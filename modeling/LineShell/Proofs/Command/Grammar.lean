/-
The grammar of command lines.

The reader of lines cuts and looks at what it has got: it trims, it splits, it counts the parts,
and it looks once more for an operator that is left over.  What it accepts can be said without any
cutting.  A text spells a line if it is the parts of the line with white space around them and, if
there are two, with the operator between them and nowhere else (`Line.Spells`).  A text that spells
no line is refused for its `|`, or else for a `>`, and then the operator that was meant is `>>` if
two `>` are neighbours (`LineError.Blames`).

The two agree on every text (`Line.ofChars_eq_ok_iff`, `Line.ofChars_eq_error_iff`).  The only
place where cutting is not the obvious inverse of writing is `>>`: the leftmost pair is taken first,
so a run of three is cut too, and what refuses it is the `>` that is left in a part.  Since a `>` is
no white space, a part that holds none when it is trimmed holds none at all, and then the pair was
the whole run.
-/
import LineShell.Proofs.Command.Parsing

set_option autoImplicit false

namespace LineShell

open LineShell.Text

/-! ## The grammar -/

namespace Line

/-- The texts that spell a line. An operator stands between two texts, and nowhere else. -/
inductive Spells : Line → List Char → Prop where
  | blank {cs : List Char} (h : Blank cs) : Spells .blank cs
  | simple {command : String} {cs : List Char} (h : Padded command.toList cs)
      (hpipe : '|' ∉ cs) (harrow : '>' ∉ cs) : Spells (.simple command) cs
  | pipe {left right : String} {l r : List Char} (hl : Padded left.toList l)
      (hr : Padded right.toList r) (hpipe : '|' ∉ l ∧ '|' ∉ r) :
      Spells (.pipe left right) (l ++ ['|'] ++ r)
  | redirect {command target : String} {mode : Redirection} {l r : List Char}
      (hl : Padded command.toList l) (hr : Padded target.toList r) (hpipe : '|' ∉ l ∧ '|' ∉ r)
      (harrow : '>' ∉ l ∧ '>' ∉ r) :
      Spells (.redirect command target mode) (l ++ mode.operator.toList ++ r)

/-- The texts in a line. -/
def parts : Line → List String
  | .blank => []
  | .simple command => [command]
  | .pipe left right => [left, right]
  | .redirect command target _ => [command, target]

end Line

/-- The error for which a text is refused: it spells no line, and it holds the operator that the
error is about. -/
def LineError.Blames (e : LineError) (cs : List Char) : Prop :=
  (∀ line : Line, ¬ line.Spells cs) ∧
    match e with
    | .badPipe => '|' ∈ cs
    | .badRedirection mode => '|' ∉ cs ∧ '>' ∈ cs ∧ (mode = .append ↔ ['>', '>'] <:+: cs)

/-- White space. -/
abbrev Gap : Type := { cs : List Char // Blank cs }

/-- The white space around the parts of a written line. -/
structure Gaps where
  front : Gap
  afterFirst : Gap
  beforeSecond : Gap
  back : Gap

/-- Writes a line with the given white space around its parts. -/
def Line.write (gaps : Gaps) : Line → List Char
  | .blank => gaps.front
  | .simple command => gaps.front ++ command.toList ++ gaps.back
  | .pipe left right =>
    (gaps.front ++ left.toList ++ gaps.afterFirst) ++ ['|']
      ++ (gaps.beforeSecond ++ right.toList ++ gaps.back)
  | .redirect command target mode =>
    (gaps.front ++ command.toList ++ gaps.afterFirst) ++ mode.operator.toList
      ++ (gaps.beforeSecond ++ target.toList ++ gaps.back)

/-! ## Operators and white space -/

section Operators

variable {cs l r : List Char}

theorem any_isPipe_iff : cs.any isPipe = true ↔ '|' ∈ cs := by
  simp [isPipe, List.any_eq_true]

theorem any_isArrow_iff : cs.any isArrow = true ↔ '>' ∈ cs := by
  simp [isArrow, List.any_eq_true]

theorem isPipe_eq_false (h : '|' ∉ cs) : ∀ c ∈ cs, isPipe c = false := by
  intro c hc
  rw [isPipe, beq_eq_false_iff_ne]
  rintro rfl
  exact h hc

theorem isArrow_eq_false (h : '>' ∉ cs) : ∀ c ∈ cs, isArrow c = false := by
  intro c hc
  rw [isArrow, beq_eq_false_iff_ne]
  rintro rfl
  exact h hc

theorem hasPair_isArrow_iff : hasPair isArrow cs = true ↔ ['>', '>'] <:+: cs :=
  hasPair_iff '>'

/-- White space at the ends of a text does not change which operator is meant. -/
theorem modeOf_trim (cs : List Char) : Line.modeOf (trim cs) = Line.modeOf cs := by
  obtain ⟨before, behind, hbefore, hbehind, hcs⟩ := exists_trim cs
  have hleft : ∀ c ∈ before, isArrow c = false :=
    isArrow_eq_false (hbefore.not_mem (by decide))
  have hright : ∀ c ∈ behind, isArrow c = false :=
    isArrow_eq_false (hbehind.not_mem (by decide))
  have hpair : hasPair isArrow cs = hasPair isArrow (trim cs) := by
    conv_lhs => rw [hcs]
    rw [(hasPair_append_of_neg hright _).2, (hasPair_append_of_neg hleft _).1]
  rw [Line.modeOf, Line.modeOf, hpair]

/-- Where the only `>` are those of one operator, that operator is meant. -/
theorem modeOf_operator (mode : Redirection) (hl : '>' ∉ l) (hr : '>' ∉ r) :
    Line.modeOf (l ++ mode.operator.toList ++ r) = mode := by
  have hpair : hasPair isArrow (l ++ mode.operator.toList ++ r)
      = hasPair isArrow mode.operator.toList := by
    rw [(hasPair_append_of_neg (isArrow_eq_false hr) _).2,
      (hasPair_append_of_neg (isArrow_eq_false hl) _).1]
  rw [Line.modeOf, hpair]
  cases mode <;> rfl

/-- Cutting at one operator that stands alone gives the texts on its sides. -/
theorem cutAt_operator (mode : Redirection) (hl : '>' ∉ l) (hr : '>' ∉ r) :
    Line.cutAt mode (l ++ mode.operator.toList ++ r) = [l, r] := by
  have hleft := isArrow_eq_false hl
  have hright := isArrow_eq_false hr
  rw [List.append_assoc]
  cases mode with
  | overwrite =>
    have harrow : isArrow '>' = true := by decide
    have hcut := split_append_cons hleft harrow r
    rw [split_eq_singleton hright] at hcut
    exact hcut
  | append => exact splitPairs_append_cons (by decide) (by decide) hleft hright

/-- Two parts of a cut had the operator between them. -/
theorem eq_of_cutAt {mode : Redirection} (h : Line.cutAt mode cs = [l, r]) :
    cs = l ++ mode.operator.toList ++ r := by
  rw [List.append_assoc]
  cases mode with
  | overwrite =>
    have hjoin := join_split '>' cs
    have hcut : split (· == '>') cs = [l, r] := h
    rw [hcut] at hjoin
    exact hjoin.symm
  | append =>
    have hjoin := intercalate_splitPairs '>' cs
    have hcut : splitPairs (· == '>') cs = [l, r] := h
    rw [hcut] at hjoin
    simpa [Redirection.operator] using hjoin.symm

end Operators

namespace Line

variable {cs : List Char} {line : Line} {e : LineError}

/-! ## What is spelled is read -/

/-- Reading looks at the trimmed text only. -/
theorem ofChars_of_trim {text : List Char} (h : trim cs = text) (hne : text ≠ []) :
    ofChars cs = if text.any isPipe then ofPipe text
      else if text.any isArrow then ofRedirection text
      else .ok (.simple (String.ofList text)) := by
  subst h
  exact if_neg hne

theorem ofChars_of_spells (h : line.Spells cs) : ofChars cs = .ok line := by
  cases h with
  | blank h => exact if_pos (trim_eq_nil_iff.mpr h)
  | simple h hpipe harrow =>
    obtain ⟨htrim, hne⟩ := padded_iff.mp h
    have hnopipe : ¬ '|' ∈ trim cs := fun hmem => hpipe ((trim_sublist cs).subset hmem)
    have hnoarrow : ¬ '>' ∈ trim cs := fun hmem => harrow ((trim_sublist cs).subset hmem)
    rw [ofChars_of_trim htrim hne, ← htrim, if_neg (by rwa [any_isPipe_iff]),
      if_neg (by rwa [any_isArrow_iff]), htrim, String.ofList_toList]
  | @pipe left right l r hl hr hpipe =>
    obtain ⟨l', r', htrim, hl', hr', hsubl, hsubr⟩ := exists_trim_join hl hr ['|']
    have hleft := isPipe_eq_false fun hmem => hpipe.1 (hsubl hmem)
    have hright := isPipe_eq_false fun hmem => hpipe.2 (hsubr hmem)
    have hcut : split isPipe (l' ++ ['|'] ++ r') = [l', r'] := by
      have hpipe : isPipe '|' = true := by decide
      have hcut := split_append_cons hleft hpipe r'
      rw [split_eq_singleton hright] at hcut
      simpa using hcut
    have hsides : ¬ (left.toList = [] ∨ right.toList = []) := by
      rw [not_or]
      exact ⟨(padded_iff.mp hl).2, (padded_iff.mp hr).2⟩
    rw [ofChars_of_trim htrim (by simp), if_pos (by simp [isPipe]), ofPipe, hcut]
    simp only [List.map_cons, List.map_nil, hl', hr']
    rw [if_neg hsides, String.ofList_toList, String.ofList_toList]
  | @redirect command target mode l r hl hr hpipe harrow =>
    obtain ⟨l', r', htrim, hl', hr', hsubl, hsubr⟩ :=
      exists_trim_join hl hr mode.operator.toList
    have hleft : '>' ∉ l' := fun hmem => harrow.1 (hsubl hmem)
    have hright : '>' ∉ r' := fun hmem => harrow.2 (hsubr hmem)
    have hmem : '>' ∈ l' ++ mode.operator.toList ++ r' := by
      cases mode <;> simp [Redirection.operator]
    have hnopipe : '|' ∉ l' ++ mode.operator.toList ++ r' := by
      simp only [List.mem_append, not_or]
      refine ⟨⟨fun hmem => hpipe.1 (hsubl hmem), ?_⟩, fun hmem => hpipe.2 (hsubr hmem)⟩
      cases mode <;> decide
    have hsides : ¬ (command.toList = [] ∨ target.toList = [] ∨ command.toList.any isArrow = true
        ∨ target.toList.any isArrow = true) := by
      rw [any_isArrow_iff, any_isArrow_iff, ← hl', ← hr', mem_trim_iff (by decide),
        mem_trim_iff (by decide), hl', hr']
      simp only [not_or]
      exact ⟨(padded_iff.mp hl).2, (padded_iff.mp hr).2, hleft, hright⟩
    rw [ofChars_of_trim htrim (by intro hnil; simp [hnil] at hmem),
      if_neg (by rwa [any_isPipe_iff]), if_pos (any_isArrow_iff.mpr hmem), ofRedirection]
    simp only [modeOf_operator mode hleft hright, cutAt_operator mode hleft hright, List.map_cons,
      List.map_nil, hl', hr']
    rw [if_neg hsides, String.ofList_toList, String.ofList_toList]

/-! ## What is read is spelled -/

/-- More white space around a text that spells a line makes no difference. -/
theorem Spells.append {before behind : List Char} (h : line.Spells cs) (hbefore : Blank before)
    (hbehind : Blank behind) : line.Spells (before ++ cs ++ behind) := by
  have hfront : ∀ {c : Char}, isSpace c = false → c ∉ before := fun hc => hbefore.not_mem hc
  have hback : ∀ {c : Char}, isSpace c = false → c ∉ behind := fun hc => hbehind.not_mem hc
  have hnone : Blank ([] : List Char) := fun c hc => nomatch hc
  -- of two padded texts the first gets what comes before, the second what comes behind
  have hsides : ∀ {c : Char} {l r : List Char}, isSpace c = false → c ∉ l ∧ c ∉ r →
      c ∉ before ++ l ++ [] ∧ c ∉ [] ++ r ++ behind := by
    intro c l r hc hlr
    simp only [List.mem_append, List.not_mem_nil, or_false, false_or, not_or]
    exact ⟨⟨hfront hc, hlr.1⟩, hlr.2, hback hc⟩
  cases h with
  | blank h =>
    apply Spells.blank
    intro c hc
    simp only [List.mem_append] at hc
    rcases hc with (hc | hc) | hc
    · exact hbefore c hc
    · exact h c hc
    · exact hbehind c hc
  | simple h hpipe harrow =>
    apply Spells.simple (h.append hbefore hbehind)
    · simp only [List.mem_append, not_or]
      exact ⟨⟨hfront (by decide), hpipe⟩, hback (by decide)⟩
    · simp only [List.mem_append, not_or]
      exact ⟨⟨hfront (by decide), harrow⟩, hback (by decide)⟩
  | pipe hl hr hpipe =>
    have hspelled := Spells.pipe (hl.append hbefore hnone) (hr.append hnone hbehind)
      (hsides (by decide) hpipe)
    simpa using hspelled
  | @redirect command target mode l r hl hr hpipe harrow =>
    have hspelled := @Spells.redirect _ _ mode _ _ (hl.append hbefore hnone)
      (hr.append hnone hbehind) (hsides (by decide) hpipe) (hsides (by decide) harrow)
    simpa using hspelled

theorem spells_of_ofPipe (h : ofPipe cs = .ok line) : line.Spells cs := by
  unfold ofPipe at h
  split at h
  · rename_i left right hparts
    obtain ⟨l, r, hcut, rfl, rfl⟩ : ∃ l r, split isPipe cs = [l, r] ∧ trim l = left
        ∧ trim r = right := by
      simpa [List.map_eq_cons_iff] using hparts
    split at h
    · simp at h
    · rename_i hsides
      rw [not_or] at hsides
      injection h with h
      subst h
      have hjoin : cs = l ++ ['|'] ++ r := by
        have hjoin := join_split '|' cs
        have hsplit : split (· == '|') cs = [l, r] := hcut
        rw [hsplit] at hjoin
        simpa [join] using hjoin.symm
      -- no part of a cut holds what was cut at
      have hnone : ∀ part ∈ [l, r], '|' ∉ part := by
        intro part hpart hmem
        rw [← hcut] at hpart
        exact absurd (not_of_mem_split isPipe hpart '|' hmem) (by decide)
      rw [hjoin]
      apply Spells.pipe
      · exact padded_iff.mpr ⟨String.toList_ofList.symm, by simpa using hsides.1⟩
      · exact padded_iff.mpr ⟨String.toList_ofList.symm, by simpa using hsides.2⟩
      · exact ⟨hnone l (by simp), hnone r (by simp)⟩
  · simp at h

theorem spells_of_ofRedirection (hpipe : '|' ∉ cs) (h : ofRedirection cs = .ok line) :
    line.Spells cs := by
  unfold ofRedirection at h
  simp only at h
  split at h
  · rename_i command target hparts
    obtain ⟨l, r, hcut, rfl, rfl⟩ : ∃ l r, cutAt (modeOf cs) cs = [l, r] ∧ trim l = command
        ∧ trim r = target := by
      simpa [List.map_eq_cons_iff] using hparts
    split at h
    · simp at h
    · rename_i hsides
      rw [any_isArrow_iff, any_isArrow_iff, mem_trim_iff (by decide), mem_trim_iff (by decide)]
        at hsides
      simp only [not_or] at hsides
      obtain ⟨hcommand, htarget, hleft, hright⟩ := hsides
      injection h with h
      subst h
      have hjoin := eq_of_cutAt hcut
      have hnopipe : '|' ∉ l ∧ '|' ∉ r := by
        rw [hjoin] at hpipe
        simp only [List.mem_append, not_or] at hpipe
        exact ⟨hpipe.1.1, hpipe.2⟩
      conv => rhs; rw [hjoin]
      apply Spells.redirect
      · exact padded_iff.mpr ⟨String.toList_ofList.symm, by simpa using hcommand⟩
      · exact padded_iff.mpr ⟨String.toList_ofList.symm, by simpa using htarget⟩
      · exact hnopipe
      · exact ⟨hleft, hright⟩
  · simp at h

theorem spells_of_ofChars (h : ofChars cs = .ok line) : line.Spells cs := by
  obtain ⟨before, behind, hbefore, hbehind, hcs⟩ := exists_trim cs
  by_cases hnil : trim cs = []
  · rw [ofChars, if_pos hnil] at h
    injection h with h
    subst h
    exact .blank (trim_eq_nil_iff.mp hnil)
  · rw [ofChars_of_trim rfl hnil] at h
    rw [hcs]
    apply Spells.append _ hbefore hbehind
    split at h
    · exact spells_of_ofPipe h
    · rename_i hpipe
      rw [any_isPipe_iff] at hpipe
      split at h
      · exact spells_of_ofRedirection hpipe h
      · rename_i harrow
        rw [any_isArrow_iff] at harrow
        injection h with h
        subst h
        apply Spells.simple _ hpipe harrow
        rw [String.toList_ofList]
        exact padded_iff.mpr ⟨trim_trim cs, hnil⟩

/-! ## What is refused -/

theorem ofPipe_error (h : ofPipe cs = .error e) : e = .badPipe := by
  unfold ofPipe at h
  split at h
  · split at h
    · injection h with h
      exact h.symm
    · simp at h
  · injection h with h
    exact h.symm

theorem ofRedirection_error (h : ofRedirection cs = .error e) :
    e = .badRedirection (modeOf cs) := by
  unfold ofRedirection at h
  simp only at h
  split at h
  · split at h
    · injection h with h
      exact h.symm
    · simp at h
  · injection h with h
    exact h.symm

theorem modeOf_eq_append_iff : modeOf cs = .append ↔ ['>', '>'] <:+: cs := by
  rw [← hasPair_isArrow_iff, modeOf]
  split <;> simp_all

theorem blames_of_ofChars (h : ofChars cs = .error e) : e.Blames cs := by
  have hnone : ∀ line : Line, ¬ line.Spells cs := by
    intro line hspells
    rw [ofChars_of_spells hspells] at h
    exact nomatch h
  refine ⟨hnone, ?_⟩
  have hne : trim cs ≠ [] := fun hnil => hnone .blank (.blank (trim_eq_nil_iff.mp hnil))
  rw [ofChars_of_trim rfl hne] at h
  split at h
  · rename_i hpipe
    rw [ofPipe_error h]
    rwa [any_isPipe_iff, mem_trim_iff (by decide)] at hpipe
  · rename_i hpipe
    rw [any_isPipe_iff, mem_trim_iff (by decide)] at hpipe
    split at h
    · rename_i harrow
      rw [any_isArrow_iff, mem_trim_iff (by decide)] at harrow
      rw [ofRedirection_error h, modeOf_trim]
      exact ⟨hpipe, harrow, modeOf_eq_append_iff⟩
    · exact nomatch h

end Line

namespace LineError

variable {cs : List Char} {e e' : LineError}

/-- A text is refused for one reason. -/
theorem Blames.unique (h : e.Blames cs) (h' : e'.Blames cs) : e = e' := by
  obtain ⟨-, h⟩ := h
  obtain ⟨-, h'⟩ := h'
  cases e with
  | badPipe =>
    cases e' with
    | badPipe => rfl
    | badRedirection mode' => exact absurd h h'.1
  | badRedirection mode =>
    cases e' with
    | badPipe => exact absurd h' h.1
    | badRedirection mode' =>
      have hmode : mode = .append ↔ mode' = .append := h.2.2.trans h'.2.2.symm
      cases mode <;> cases mode' <;> simp_all

end LineError

namespace Line

variable {cs : List Char} {line : Line}

theorem ofChars_eq_ok_iff : ofChars cs = .ok line ↔ line.Spells cs :=
  ⟨spells_of_ofChars, ofChars_of_spells⟩

theorem ofChars_eq_error_iff {e : LineError} : ofChars cs = .error e ↔ e.Blames cs := by
  constructor
  · intro h
    exact blames_of_ofChars h
  · intro h
    rcases hread : ofChars cs with e' | line
    · rw [h.unique (blames_of_ofChars hread)]
    · exact absurd (spells_of_ofChars hread) (h.1 line)

/-! ## Writing lines -/

/-- The parts of a line that a text spells are tight. -/
theorem Spells.tight_parts (h : line.Spells cs) : ∀ part ∈ line.parts, Tight part.toList := by
  intro part hpart
  cases h with
  | blank h => exact nomatch hpart
  | simple h hpipe harrow =>
    rw [List.mem_singleton.mp hpart]
    exact h.tight
  | pipe hl hr hpipe =>
    simp only [parts, List.mem_cons, List.not_mem_nil, or_false] at hpart
    rcases hpart with rfl | rfl
    · exact hl.tight
    · exact hr.tight
  | redirect hl hr hpipe harrow =>
    simp only [parts, List.mem_cons, List.not_mem_nil, or_false] at hpart
    rcases hpart with rfl | rfl
    · exact hl.tight
    · exact hr.tight

theorem mem_of_padded {core : List Char} (h : Padded core cs) {c : Char} (hc : c ∈ core) :
    c ∈ cs := by
  obtain ⟨before, behind, -, -, rfl⟩ := h.around
  simp [hc]

/-- A line that some text spells is spelled by every way to write it. -/
theorem Spells.write (h : line.Spells cs) (gaps : Gaps) : line.Spells (line.write gaps) := by
  have hpadded : ∀ {core text : List Char} (front back : Gap), Padded core text →
      Padded core (front.1 ++ core ++ back.1) := by
    intro core text front back hcore
    exact ⟨hcore.tight, front.1, back.1, front.2, back.2, rfl⟩
  have hnone : ∀ {core text : List Char} (front back : Gap) {c : Char}, isSpace c = false →
      Padded core text → c ∉ text → c ∉ front.1 ++ core ++ back.1 := by
    intro core text front back c hc hcore htext
    simp only [List.mem_append, not_or]
    exact ⟨⟨front.2.not_mem hc, fun hmem => htext (mem_of_padded hcore hmem)⟩,
      back.2.not_mem hc⟩
  cases h with
  | blank h => exact .blank gaps.front.2
  | simple h hpipe harrow =>
    exact .simple (hpadded _ _ h) (hnone _ _ (by decide) h hpipe)
      (hnone _ _ (by decide) h harrow)
  | pipe hl hr hpipe =>
    apply Spells.pipe (hpadded _ _ hl) (hpadded _ _ hr)
    exact ⟨hnone _ _ (by decide) hl hpipe.1, hnone _ _ (by decide) hr hpipe.2⟩
  | redirect hl hr hpipe harrow =>
    apply Spells.redirect (hpadded _ _ hl) (hpadded _ _ hr)
    · exact ⟨hnone _ _ (by decide) hl hpipe.1, hnone _ _ (by decide) hr hpipe.2⟩
    · exact ⟨hnone _ _ (by decide) hl harrow.1, hnone _ _ (by decide) hr harrow.2⟩

/-- A line is read exactly from the texts that spell it, and a text is refused exactly for what the
grammar blames it for.  A line that was read is read again however it is written, and each of its
parts has a word. -/
theorem parse_iff_grammar (s : String) :
    (∀ line, parse s = .ok line ↔ line.Spells s.toList)
      ∧ (∀ e, parse s = .error e ↔ e.Blames s.toList)
      ∧ ∀ line, parse s = .ok line →
        (∀ gaps, parse (String.ofList (line.write gaps)) = .ok line)
          ∧ ∀ part ∈ line.parts, tokenize part ≠ [] := by
  refine ⟨fun line => ofChars_eq_ok_iff, fun e => ofChars_eq_error_iff, ?_⟩
  intro line hread
  have hspells : line.Spells s.toList := ofChars_eq_ok_iff.mp hread
  constructor
  · intro gaps
    rw [parse, String.toList_ofList]
    exact ofChars_eq_ok_iff.mpr (hspells.write gaps)
  · intro part hpart
    rw [tokenize, ne_eq, List.map_eq_nil_iff]
    exact words_ne_nil_of_tight (hspells.tight_parts part hpart)

/-- A redirection that is read is read again with other white space in it, and its command has a
word. -/
theorem parse_iff_grammar_append :
    parse "ls -a>>out" = .ok (.redirect "ls -a" "out" .append)
      ∧ parse " ls -a\t>> out" = .ok (.redirect "ls -a" "out" .append)
      ∧ tokenize "ls -a" ≠ [] := by
  have hread : parse "ls -a>>out" = .ok (.redirect "ls -a" "out" .append) := by decide
  obtain ⟨hwrite, hwords⟩ := (parse_iff_grammar "ls -a>>out").2.2 _ hread
  have hspace : Blank [' '] := by decide
  have htab : Blank ['\t'] := by decide
  refine ⟨hread, ?_, hwords "ls -a" (by decide)⟩
  exact hwrite ⟨⟨[' '], hspace⟩, ⟨['\t'], htab⟩, ⟨[' '], hspace⟩, ⟨[], by decide⟩⟩

end Line

end LineShell
