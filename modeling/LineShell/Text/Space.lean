/-
White space, trimming and words.

A command line is made of words, and what parts them is white space in the
sense of the Unicode property `White_Space`: twenty-five characters, six of them
in ASCII.  The property is wider than the test of the core library, which knows
four ASCII characters, and it leaves out look-alikes such as the zero width space.

Words are what remains between cuts at white space once the empty parts are
dropped, so a word is never empty and never holds white space.
-/
import LineShell.Text.Split

set_option autoImplicit false

namespace LineShell.Text

/-! ## The property -/

/-- The Unicode property `White_Space`. -/
def isSpace (c : Char) : Bool :=
  let n := c.toNat
  (0x9 ≤ n && n ≤ 0xD) || n == 0x20 || n == 0x85 || n == 0xA0 || n == 0x1680
    || (0x2000 ≤ n && n ≤ 0x200A) || n == 0x2028 || n == 0x2029 || n == 0x202F
    || n == 0x205F || n == 0x3000

/-! ## Trimming -/

/-- A text without the white space in front of it. -/
def trimStart (cs : List Char) : List Char := cs.dropWhile isSpace

/-- A text without the white space behind it. -/
def trimEnd (cs : List Char) : List Char := (cs.reverse.dropWhile isSpace).reverse

/-- A text without the white space on either side of it. -/
def trim (cs : List Char) : List Char := trimEnd (trimStart cs)

/-- Trimming only drops characters. -/
theorem trim_sublist (cs : List Char) : (trim cs).Sublist cs := by
  have hend : (trimEnd (trimStart cs)).Sublist (trimStart cs) := by
    have := (List.dropWhile_sublist isSpace (l := (trimStart cs).reverse)).reverse
    rwa [List.reverse_reverse] at this
  exact hend.trans (List.dropWhile_sublist isSpace)

/-! ## Words -/

/-- The maximal runs of characters that are not white space, in order. -/
def words (cs : List Char) : List (List Char) :=
  (split isSpace cs).filter (fun part => !part.isEmpty)

/-- A word is not empty. -/
theorem ne_nil_of_mem_words {cs word : List Char} (h : word ∈ words cs) : word ≠ [] := by
  have := (List.mem_filter.mp h).2
  simpa using this

/-- A word holds no white space. -/
theorem not_isSpace_of_mem_words {cs word : List Char} (h : word ∈ words cs) :
    ∀ c ∈ word, isSpace c = false :=
  not_of_mem_split isSpace (List.mem_filter.mp h).1

end LineShell.Text
