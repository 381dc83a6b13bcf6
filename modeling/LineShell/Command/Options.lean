/-
Reading arguments.

The words behind a verb are options or operands.  A word is an option when it begins with
a dash, until `--` says that no more options follow; what an option may be called, and
whether it takes the next word as its value, is told by a `Signature`.  Options must
be spelled exactly.  A request for help (`--help`, or the word `help` in front of `--`)
does not end the reading: an error in front of it wins, and so does a flag behind it, but
if the end is reached the usage is what the words asked for.

The verbs of the shell are more lenient about order than this reader.  They first bring
their words into the order that it wants, flags, then `--`, then operands, so that a flag
may stand anywhere and the word `help` is always an operand.
-/
import LineShell.Text.Utf8

set_option autoImplicit false

namespace LineShell

/-! ## Signatures -/

/-- An option. -/
structure OptionSpec where
  /-- The ways to write it. -/
  spellings : List String
  /-- Whether the next word is its value. -/
  takesValue : Bool
  deriving DecidableEq, Repr

/-- The arguments that a verb or a program takes. -/
structure Signature where
  options : List OptionSpec
  /-- Whether operands are taken. -/
  operands : Bool
  deriving DecidableEq, Repr

/-- Why words are refused. -/
inductive ArgumentError where
  | unrecognized (word : String)
  | missingValue (option : String)
  | duplicate (option value : String)
  | behindHelp
  deriving DecidableEq, Repr

/-- What is printed about refused words. Some of these texts end in a newline. -/
def ArgumentError.message : ArgumentError → String
  | .unrecognized word => "Unrecognized argument: " ++ word ++ "\n"
  | .missingValue option => "No value provided for option '" ++ option ++ "'.\n"
  | .duplicate option value =>
    "Error parsing option '" ++ option ++ "' with value '" ++ value
      ++ "': duplicate values provided\n"
  | .behindHelp => "Trailing arguments are not allowed after `help`."

/-- What was read. -/
structure Arguments where
  /-- The options in the order of the words, with their values. -/
  given : List (OptionSpec × Option String)
  operands : List String
  deriving DecidableEq, Repr

/-- What words ask for. -/
inductive Reading where
  | accepted (args : Arguments)
  | usage
  | refused (e : ArgumentError)
  deriving DecidableEq, Repr

namespace Arguments

/-- No words at all. -/
def none : Arguments := ⟨[], []⟩

/-- Whether an option with this spelling was given. -/
def has (args : Arguments) (spelling : String) : Bool :=
  args.given.any (fun g => g.1.spellings.contains spelling)

/-- The value of the option with this spelling. -/
def value? (args : Arguments) (spelling : String) : Option String :=
  (args.given.find? (fun g => g.1.spellings.contains spelling)).bind (·.2)

/-- Adds an option at the end. -/
def addOption (args : Arguments) (spec : OptionSpec) (value : Option String) : Arguments :=
  { args with given := args.given ++ [(spec, value)] }

/-- Adds an operand at the end. -/
def addOperand (args : Arguments) (word : String) : Arguments :=
  { args with operands := args.operands ++ [word] }

end Arguments

/-! ## The reader -/

/-- Whether a word asks for help. -/
def isHelpWord (word : String) : Bool := word == "--help" || word == "help"

/-- Whether a word begins with a dash. -/
def beginsWithDash (word : String) : Bool := word.toList.head? == some '-'

namespace Signature

/-- The option that a word spells. -/
def find? (sig : Signature) (word : String) : Option OptionSpec :=
  sig.options.find? (fun spec => spec.spellings.contains word)

/-- What the words come to once all were read. -/
def finish (help : Bool) (args : Arguments) : Reading :=
  if help then .usage else .accepted args

/-- Reads the words behind `--`, which are all operands. -/
def readOperands (sig : Signature) (help : Bool) (args : Arguments) : List String → Reading
  | [] => finish help args
  | word :: rest =>
    if sig.operands then readOperands sig help (args.addOperand word) rest
    else .refused (.unrecognized word)

/-- Reads words from the left. `help` says whether help was asked for before them. -/
def readFrom (sig : Signature) (help : Bool) (args : Arguments) : List String → Reading
  | [] => finish help args
  | word :: rest =>
    if isHelpWord word then readFrom sig true args rest
    else if word = "--" then sig.readOperands help args rest
    else if beginsWithDash word then
      -- behind a request for help a flag is refused even if it is a known one
      if help then .refused .behindHelp
      else
        match sig.find? word with
        | none => .refused (.unrecognized word)
        | some spec =>
          if spec.takesValue then
            match rest with
            | [] => .refused (.missingValue word)
            | value :: rest =>
              -- the value is taken whatever it looks like, so the duplicate can name it
              if args.given.any (fun g => g.1 == spec) then .refused (.duplicate word value)
              else readFrom sig help (args.addOption spec (some value)) rest
          else readFrom sig help (args.addOption spec none) rest
    else if sig.operands then readFrom sig help (args.addOperand word) rest
    else .refused (.unrecognized word)

/-- Reads the words behind a verb. -/
def read (sig : Signature) (words : List String) : Reading := sig.readFrom false .none words

end Signature

/-! ## Flags in front -/

/-- Whether a word is a flag: it begins with a dash and is more than that. -/
def isFlag (word : String) : Bool := beginsWithDash word && word != "-"

/-- The words in front of the first `--`. -/
def beforeMark (words : List String) : List String := words.takeWhile (· != "--")

/-- The words behind the first `--`. -/
def behindMark (words : List String) : List String := (words.dropWhile (· != "--")).drop 1

/-- The flags among the words in front of the first `--`. -/
def flagsOf (words : List String) : List String := (beforeMark words).filter isFlag

/-- The words that are not flags: those in front of the first `--`, then all behind it. -/
def operandsOf (words : List String) : List String :=
  (beforeMark words).filter (fun w => !isFlag w) ++ behindMark words

/-- The same words with the flags in front of a `--` and the operands behind it. -/
def flagsFirst (words : List String) : List String := flagsOf words ++ "--" :: operandsOf words

end LineShell
