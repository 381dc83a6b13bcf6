/-
Text and bytes.

Names, paths and file contents are bytes; words and messages are text.  Text
goes to bytes by UTF-8.  Bytes go to text in two ways.  A line of input has to be
well formed (`decode?`).  A path that is shown is read as far as it can be
(`display`): each maximal ill-formed piece becomes one replacement character, so
a name that is not text still has something to be shown by, and two names may
then look alike.

Both readings come from one reader.  It keeps the sequence that it is in the
middle of (`Partial`) and takes one byte at a time.  A byte that cannot continue
the sequence ends it as one ill-formed piece and is then read afresh, which is
what makes the pieces maximal.  The range that the next byte has to lie in is part
of the state: it excludes overlong forms, surrogates and values above U+10FFFF
at the second byte, where they are decided.
-/

set_option autoImplicit false

namespace LineShell

/-- File contents, path texts and whatever a stream carries. -/
abbrev Bytes := List UInt8

namespace Text

/-! ## From text to bytes -/

/-- The UTF-8 bytes of a text. -/
def encode (s : String) : Bytes := s.toList.flatMap String.utf8EncodeChar

/-- The newline byte. -/
def newline : UInt8 := 10

/-! ## The reader's state -/

/-- A multi-byte sequence that has been begun. -/
structure Partial where
  /-- The value bits read so far. -/
  value : Nat
  /-- How many bytes are still missing after the next one. -/
  after : Nat
  /-- The least value of the next byte. -/
  low : UInt8
  /-- The greatest value of the next byte. -/
  high : UInt8
  deriving DecidableEq, Repr

/-- What a byte at the start of a sequence is. -/
inductive Lead where
  | scalar (c : Char)
  | begins (p : Partial)
  | broken
  deriving DecidableEq, Repr

/-- Reads a byte at the start of a sequence. -/
def Lead.ofByte (b : UInt8) : Lead :=
  if b < 0x80 then .scalar (Char.ofNat b.toNat)
  -- continuation bytes, and leads that could only begin an overlong form
  else if b < 0xC2 then .broken
  else if b < 0xE0 then .begins ⟨b.toNat - 0xC0, 0, 0x80, 0xBF⟩
  else if b = 0xE0 then .begins ⟨0x0, 1, 0xA0, 0xBF⟩
  else if b = 0xED then .begins ⟨0xD, 1, 0x80, 0x9F⟩
  else if b < 0xF0 then .begins ⟨b.toNat - 0xE0, 1, 0x80, 0xBF⟩
  else if b = 0xF0 then .begins ⟨0x0, 2, 0x90, 0xBF⟩
  else if b < 0xF4 then .begins ⟨b.toNat - 0xF0, 2, 0x80, 0xBF⟩
  else if b = 0xF4 then .begins ⟨0x4, 2, 0x80, 0x8F⟩
  else .broken

/-! ## Reading -/

/-- A byte at the start of a sequence: what it completes, and what it begins.
An ill-formed piece is written as `none`. -/
def readFresh (b : UInt8) : List (Option Char) × Option Partial :=
  match Lead.ofByte b with
  | .scalar c => ([some c], none)
  | .begins p => ([], some p)
  | .broken => ([none], none)

/-- One byte, read in the given state. -/
def readByte (state : Option Partial) (b : UInt8) : List (Option Char) × Option Partial :=
  match state with
  | none => readFresh b
  | some p =>
    if p.low ≤ b ∧ b ≤ p.high then
      let value := p.value * 64 + (b.toNat - 0x80)
      if p.after = 0 then ([some (Char.ofNat value)], none)
      else ([], some ⟨value, p.after - 1, 0x80, 0xBF⟩)
    else
      -- the piece ends in front of this byte, which may begin the next character
      let (out, next) := readFresh b
      (none :: out, next)

/-- Reads bytes from a state to their end. -/
def readFrom (state : Option Partial) : Bytes → List (Option Char)
  | [] => if state.isSome then [none] else []
  | b :: rest =>
    let (out, next) := readByte state b
    out ++ readFrom next rest

/-- The characters of a byte string, with `none` for each maximal ill-formed piece. -/
def scan (bs : Bytes) : List (Option Char) := readFrom none bs

/-! ## The two readings -/

/-- The text of a well-formed byte string. -/
def decode? (bs : Bytes) : Option String :=
  let cs := scan bs
  if cs.all Option.isSome then some (String.ofList (cs.filterMap id)) else none

/-- The replacement character U+FFFD. -/
def replacement : Char := Char.ofNat 0xFFFD

/-- A byte string as it is shown: each maximal ill-formed piece becomes U+FFFD. -/
def display (bs : Bytes) : String :=
  String.ofList ((scan bs).map (·.getD replacement))

end Text

end LineShell
