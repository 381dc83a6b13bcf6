/-
User-perceived characters.

What a reader takes for one character may be several: a letter with its accents, a
flag, a family joined from pictographs.  The Unicode standard tells where one of these
*clusters* ends by rules about neighbouring characters.  Most of them look at the two
neighbours alone.  Three look further back: flags are counted off in pairs, a joiner ties
two pictographs only behind a pictograph, and a virama ties two consonants only
behind a consonant.  All three ask about the cluster that is being read, so what has to
be remembered of it is little, and reading from the left with that memory decides every
place once.
-/
import LineShell.Text.ClusterTable

set_option autoImplicit false

namespace LineShell.Text

namespace Cluster

/-! ## Classes -/

/-- The values of `Grapheme_Cluster_Break`. -/
inductive Break where
  | carriageReturn
  | lineFeed
  | control
  | extend
  | joiner
  | regional
  | prepend
  | spacingMark
  | leading
  | vowel
  | trailing
  | syllable
  | closedSyllable
  | other
  deriving DecidableEq, Repr

/-- The value of a character. -/
def Break.ofChar (c : Char) : Break :=
  let n := c.toNat
  if n = 0xD then .carriageReturn
  else if n = 0xA then .lineFeed
  -- most characters of a command line; in no table, but this is faster
  else if 0x20 ≤ n ∧ n < 0x7F then .other
  else if n = 0x200D then .joiner
  else if Table.control.contains n then .control
  else if Table.extend.contains n then .extend
  else if Table.spacingMark.contains n then .spacingMark
  else if Table.prepend.contains n then .prepend
  else if Table.regional.contains n then .regional
  else if Table.leadingJamo.contains n then .leading
  else if Table.vowelJamo.contains n then .vowel
  else if Table.trailingJamo.contains n then .trailing
  else if Table.hangulSyllables.1 ≤ n ∧ n ≤ Table.hangulSyllables.2 then
    if (n - Table.hangulSyllables.1) % 28 = 0 then .syllable else .closedSyllable
  else .other

/-! ## What is remembered of a cluster -/

/-- How far a sequence of pictographs has come. -/
inductive Pictures where
  | absent
  /-- A pictograph, and nothing but extending characters behind it. -/
  | shown
  /-- The same, and a joiner. -/
  | joined
  deriving DecidableEq, Repr

/-- How far a conjunct has come. -/
inductive Conjunct where
  | absent
  /-- A consonant, and nothing but extending characters behind it. -/
  | begun
  /-- The same, with a virama among them. -/
  | tied
  deriving DecidableEq, Repr

/-- What decides whether the next character still belongs to the cluster. -/
structure Memory where
  /-- The value of the last character. -/
  last : Break
  /-- Whether the flag letters at the end are odd in number. -/
  oddRegional : Bool
  pictures : Pictures
  conjunct : Conjunct
  deriving DecidableEq, Repr

/-- Where a sequence of pictographs is after one more character. -/
def Pictures.next (state : Pictures) (c : Char) (b : Break) : Pictures :=
  if Table.pictograph.contains c.toNat then .shown
  else
    match state, b with
    | .shown, .extend => .shown
    | .shown, .joiner => .joined
    | _, _ => .absent

/-- Where a conjunct is after one more character. -/
def Conjunct.next (state : Conjunct) (c : Char) (b : Break) : Conjunct :=
  if Table.conjunctConsonant.contains c.toNat then .begun
  else if state = .absent then .absent
  else if Table.virama.contains c.toNat then .tied
  else if b = .joiner ∨ (b = .extend ∧ c.toNat ≠ 0x200C) then state
  else .absent

/-- The memory after one more character of the cluster. -/
def Memory.next (m : Memory) (c : Char) : Memory :=
  let b := Break.ofChar c
  ⟨b, b = .regional && !m.oddRegional, m.pictures.next c b, m.conjunct.next c b⟩

/-- The memory after the first character of a cluster. -/
def Memory.first (c : Char) : Memory := Memory.next ⟨.other, false, .absent, .absent⟩ c

/-! ## The rules -/

/-- Whether a value stands for a character that ends every cluster. -/
def Break.standsAlone (b : Break) : Bool :=
  b = .control || b = .carriageReturn || b = .lineFeed

/-- Whether the parts of a syllable of Hangul may follow each other. -/
def Break.sameSyllable : Break → Break → Bool
  | .leading, .leading | .leading, .vowel | .leading, .syllable | .leading, .closedSyllable => true
  | .syllable, .vowel | .syllable, .trailing | .vowel, .vowel | .vowel, .trailing => true
  | .closedSyllable, .trailing | .trailing, .trailing => true
  | _, _ => false

/-- Whether a character belongs to the cluster in front of it. -/
def Memory.continues (m : Memory) (c : Char) : Bool :=
  let b := Break.ofChar c
  if m.last = .carriageReturn ∧ b = .lineFeed then true
  else if m.last.standsAlone || b.standsAlone then false
  else m.last.sameSyllable b
    || b = .extend || b = .joiner || b = .spacingMark
    || m.last = .prepend
    || (m.conjunct = .tied && Table.conjunctConsonant.contains c.toNat)
    || (m.pictures = .joined && Table.pictograph.contains c.toNat)
    || (m.oddRegional && b = .regional)

/-! ## Cutting into clusters -/

/-- Reads on from a cluster that has been begun; `current` is what it holds so far, from
the right. -/
def readFrom (m : Memory) (current : List Char) : List Char → List (List Char)
  | [] => [current.reverse]
  | c :: rest =>
    if m.continues c then readFrom (m.next c) (c :: current) rest
    else current.reverse :: readFrom (Memory.first c) [c] rest

end Cluster

/-- The user-perceived characters of a text. -/
def clusters : List Char → List (List Char)
  | [] => []
  | c :: rest => Cluster.readFrom (Cluster.Memory.first c) [c] rest

/-- The clusters of a text are the text. -/
theorem flatten_clusters (cs : List Char) : (clusters cs).flatten = cs := by
  have h : ∀ (rest : List Char) (m : Cluster.Memory) (current : List Char),
      (Cluster.readFrom m current rest).flatten = current.reverse ++ rest := by
    intro rest
    induction rest with
    | nil => simp [Cluster.readFrom]
    | cons c rest ih =>
      intro m current
      rw [Cluster.readFrom]
      split <;> simp [ih]
  cases cs with
  | nil => rfl
  | cons c rest => simpa [clusters] using h rest _ [c]

/-! ## Erasing -/

/-- The backspace character. -/
def backspace : Char := Char.ofNat 8

/-- Takes one more cluster into a text that is kept cluster by cluster, from the right: a
backspace takes the last one away, if there is one. -/
def eraseStep (kept : List (List Char)) (cluster : List Char) : List (List Char) :=
  if cluster = [backspace] then kept.tail else cluster :: kept

/-- A text after every backspace in it has erased the cluster before it. -/
def applyBackspaces (cs : List Char) : List Char :=
  ((clusters cs).foldl eraseStep []).reverse.flatten

end LineShell.Text
