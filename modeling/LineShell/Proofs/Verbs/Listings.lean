/-
Listings.

A listing is made of the shown names of a directory in three steps: some are left out, the others
are sorted, and the order may be turned around.  Names are compared by their bytes, and two names
with the same bytes are the same text, so a sorted list is told by its members alone, however often
each of them occurs (`eq_sortedNames`).  The order in which the directory gives its entries is
therefore lost, although entries of different names may be shown alike, and leaving names out before
or after sorting is the same.
-/
import LineShell.Proofs.Verbs.Arguments
import LineShell.Proofs.Verbs.Directories

set_option autoImplicit false

namespace LineShell

open LineShell.Text

/-! ## The order of names -/

/-- Texts with the same bytes are the same. -/
theorem encode_injective {a b : String} (h : encode a = encode b) : a = b := by
  have hbytes : a.toList.utf8Encode = b.toList.utf8Encode := congrArg List.toByteArray h
  rw [String.utf8Encode_toList, String.utf8Encode_toList] at hbytes
  exact String.toByteArray_inj.mp hbytes

namespace Verbs

theorem shownBefore_trans (a b c : String) (hab : shownBefore a b = true)
    (hbc : shownBefore b c = true) : shownBefore a c = true := by
  rw [shownBefore, decide_eq_true_iff] at hab hbc ⊢
  exact List.le_trans hab hbc

theorem shownBefore_total (a b : String) : (shownBefore a b || shownBefore b a) = true := by
  rw [Bool.or_eq_true, shownBefore, shownBefore, decide_eq_true_iff, decide_eq_true_iff]
  exact List.le_total _ _

theorem shownBefore_antisymm {a b : String} (hab : shownBefore a b = true)
    (hba : shownBefore b a = true) : a = b := by
  rw [shownBefore, decide_eq_true_iff] at hab hba
  exact encode_injective (List.le_antisymm hab hba)

/-- A list in the order of listings. -/
def Ordered (names : List String) : Prop := names.Pairwise fun a b => encode a ≤ encode b

/-- The shown names of a directory, in order. -/
def sortedNames (shown : List String) : List String := shown.mergeSort shownBefore

theorem ordered_sortedNames (shown : List String) : Ordered (sortedNames shown) :=
  (List.pairwise_mergeSort shownBefore_trans shownBefore_total shown).imp fun h =>
    decide_eq_true_iff.mp h

/-- There is one order for some names. -/
theorem eq_sortedNames {names shown : List String} (hperm : names.Perm shown)
    (h : Ordered names) : names = sortedNames shown := by
  apply List.Perm.eq_of_pairwise _ h (ordered_sortedNames shown)
  · exact hperm.trans (List.mergeSort_perm shown shownBefore).symm
  · intro a b _ _ hab hba
    exact shownBefore_antisymm (decide_eq_true hab) (decide_eq_true hba)

theorem sortedNames_eq_of_perm {shown other : List String} (h : shown.Perm other) :
    sortedNames shown = sortedNames other :=
  eq_sortedNames ((List.mergeSort_perm shown shownBefore).trans h) (ordered_sortedNames shown)

/-- Names can be left out before or after. -/
theorem filter_sortedNames (p : String → Bool) (shown : List String) :
    (sortedNames shown).filter p = sortedNames (shown.filter p) :=
  eq_sortedNames ((List.mergeSort_perm shown shownBefore).filter p)
    ((ordered_sortedNames shown).filter p)

/-! ## The list -/

section List

variable (names others : List Name) (all reversed : Bool)

theorem listing_all : listing names true false = sortedNames (names.map display) := by
  have hkept : (names.map display).filter (fun _ => true) = names.map display :=
    List.filter_eq_self.mpr fun _ _ => rfl
  exact congrArg sortedNames hkept

theorem listing_reversed : listing names all true = (listing names all false).reverse := rfl

/-- What begins with a dot can be left out of the whole list. -/
theorem listing_shown :
    listing names false reversed
      = (listing names true reversed).filter fun name => !isHidden name := by
  have hforward : listing names false false
      = (listing names true false).filter fun name => !isHidden name := by
    rw [listing_all, filter_sortedNames]
    rfl
  cases reversed with
  | false => exact hforward
  | true => rw [listing_reversed, listing_reversed, hforward, List.filter_reverse]

variable {names others} in
/-- The order of the entries does not matter. -/
theorem listing_eq_of_perm (h : names.Perm others) :
    listing names all reversed = listing others all reversed := by
  have hsorted : listing names true false = listing others true false := by
    rw [listing_all, listing_all, sortedNames_eq_of_perm (h.map display)]
  have hforward : listing names all false = listing others all false := by
    cases all with
    | false => rw [listing_shown, listing_shown, hsorted]
    | true => exact hsorted
  cases reversed with
  | false => exact hforward
  | true => rw [listing_reversed, listing_reversed, hforward]

end List

end Verbs

/-! ## What leaves the files alone -/

namespace Action

/-- A command that leaves the files as they are wherever the output is not a file. -/
def KeepsFiles {α : Type} (a : Action α) : Prop :=
  ∀ w : World, w.output.IsFileless → (a.run w).2.files = w.files

namespace KeepsFiles

variable {α β : Type} {m : Action α} {f : α → Action β}

theorem done (a : α) : (Action.done a).KeepsFiles := fun _ _ => rfl

theorem pure (a : α) : (Pure.pure a : Action α).KeepsFiles := fun _ _ => rfl

theorem fail (failure : Failure) : (Action.fail failure : Action α).KeepsFiles := fun _ _ => rfl

/-- Only a call can change a file where no file is behind the output. -/
theorem ask {r : Request} (h : r.calls = []) : (Action.ask r).KeepsFiles := by
  intro w hout
  show (w.answer r).2.files = w.files
  rw [World.files_answer hout, h]
  rfl

theorem bind (hm : m.KeepsFiles) (hf : ∀ a, (f a).KeepsFiles) : (m >>= f).KeepsFiles := by
  intro w hout
  have hfirst := hm w hout
  have houtFirst := hout.of_sameStream (m.run_sameStreams w).output
  rw [run_bind]
  rcases hrun : m.run w with ⟨a | failure | message, u⟩
  · rw [hrun] at hfirst houtFirst
    exact (hf a u houtFirst).trans hfirst
  · rw [hrun] at hfirst
    exact hfirst
  · rw [hrun] at hfirst
    exact hfirst

theorem attempt (hm : m.KeepsFiles) : m.attempt.KeepsFiles := by
  intro w hout
  have hfiles := hm w hout
  rw [run_attempt]
  rcases hrun : m.run w with ⟨a | failure | message, u⟩ <;> rw [hrun] at hfiles <;> exact hfiles

theorem orGiveUp (result : Except IoError α) : (Action.orGiveUp result).KeepsFiles := by
  cases result with
  | error e => exact fail _
  | ok a => exact done a

theorem print (data : Bytes) : (Action.print data).KeepsFiles :=
  (ask rfl).bind fun _ => orGiveUp _

theorem complain (message : String) : (Action.complain message).KeepsFiles :=
  (ask rfl).bind fun _ => orGiveUp _

theorem printing : Printing fun _ => KeepsFiles := ⟨done, bind, print⟩

theorem listDirectory (shown : String) (dir : Path) (all reversed : Bool) :
    (Verbs.listDirectory shown dir all reversed).KeepsFiles := by
  have hstatus : (Action.call (.status dir)).KeepsFiles := fun _ _ => rfl
  have hlist : (Action.call (.list dir)).KeepsFiles := fun _ _ => rfl
  have hthere : (Action.isDirectory dir).KeepsFiles := by
    apply hstatus.bind
    rintro (e | kind)
    · exact pure false
    · exact pure _
  apply hthere.bind
  rintro (_ | _)
  · exact fail _
  · apply hlist.bind
    rintro (e | names)
    · exact fail _
    · exact (printing.printLine _).bind fun _ => (printing.printNames _).bind fun _ => pure 0

/-- What stands around a body only says something. -/
theorem handler {b : Builtin} (h : ∀ args, (b.body args).KeepsFiles) (tokens : List String) :
    (b.handler tokens).KeepsFiles := by
  unfold Builtin.handler
  split
  · apply (h _).attempt.bind
    rintro (failure | status)
    · exact (complain _).bind fun _ => pure 1
    · exact pure status
  · exact (printing.printLine _).bind fun _ => pure 0
  · exact (complain _).bind fun _ => pure 1

theorem ls (tokens : List String) : (Verbs.ls.handler tokens).KeepsFiles := by
  apply handler
  intro args
  apply (ask rfl).bind
  intro env
  split
  · exact listDirectory _ _ _ _
  · exact listDirectory _ _ _ _

end KeepsFiles

end Action

/-! ## The verb -/

namespace Verbs

variable {w : World} {words : List String}

/-- The directory that `ls` lists. -/
def listed (env : Environment) (words : List String) : Path :=
  match operandsOf words with
  | operand :: _ => env.locate operand
  | [] => env.currentDir

/-- Whether the words ask for the entries that begin with a dot. -/
def wantsAll (words : List String) : Bool :=
  decide ("-a" ∈ flagsOf words ∨ "--all" ∈ flagsOf words)

/-- Whether the words ask for the reverse order. -/
def wantsReversed (words : List String) : Bool :=
  decide ("-r" ∈ flagsOf words ∨ "--reverse" ∈ flagsOf words)

/-- With words that it admits, `ls` lists one directory. -/
theorem run_ls (hadmits : ls.Admits words) (w : World) :
    ∃ shown,
      (ls.handler ("ls" :: words)).run w
        = (Builtin.reporting (listDirectory shown (listed w.env words) (wantsAll words)
          (wantsReversed words))).run w
      ∧ (ls.handler ("ls" :: words)).printed w
        = (listDirectory shown (listed w.env words) (wantsAll words)
          (wantsReversed words)).printed w := by
  have hbuiltin : ls ∈ VerbTable.builtins := by simp [VerbTable.builtins]
  have hreceives : ls.handler ("ls" :: words)
      = Builtin.reporting (ls.body ⟨ls.signature.given (flagsOf words), operandsOf words⟩) :=
    (Builtin.receives_iff_admits hbuiltin).mpr ⟨hadmits, rfl⟩ ls.body
  obtain ⟨hall, hreversed⟩ := @has_ls_iff (flagsOf words) (operandsOf words)
  have hwantsAll : Arguments.has ⟨ls.signature.given (flagsOf words), operandsOf words⟩ "-a"
      = wantsAll words := Bool.eq_iff_iff.mpr (hall.trans decide_eq_true_iff.symm)
  have hwantsReversed : Arguments.has ⟨ls.signature.given (flagsOf words), operandsOf words⟩ "-r"
      = wantsReversed words := Bool.eq_iff_iff.mpr (hreversed.trans decide_eq_true_iff.symm)
  rw [hreceives, Builtin.printed_reporting, ← hwantsAll, ← hwantsReversed, listed]
  cases operandsOf words with
  | nil => exact ⟨".", Builtin.run_reporting_congr rfl, rfl⟩
  | cons operand operands => exact ⟨operand, Builtin.run_reporting_congr rfl, rfl⟩

/-- **Listings are canonical.**  The list of a directory does not depend on the order in which the
directory gives its entries.  With `-a` it has the shown names of all entries, each as often as it
occurs, in the order of their bytes; without, it is the same list without the names that begin with
a dot; and `-r` turns it around.  `ls` prints a heading and then this list, a name on a line, and
changes no file. -/
theorem listings_are_canonical :
    (∀ {names others : List Name} (all reversed : Bool), names.Perm others →
        listing names all reversed = listing others all reversed)
      ∧ (∀ names : List Name, (listing names true false).Perm (names.map display)
        ∧ (listing names true false).Pairwise fun a b => encode a ≤ encode b)
      ∧ (∀ (names : List Name) (reversed : Bool),
        listing names false reversed
          = (listing names true reversed).filter fun name => !isHidden name)
      ∧ (∀ (names : List Name) (all : Bool),
        listing names all true = (listing names all false).reverse)
      -- the verb
      ∧ (∀ {w : World} {words : List String} {l : Location} {names : List Name},
        w.Takes → ls.Admits words →
        w.files.resolve (listed w.env words) = .ok (l, .directory) →
        names.Perm (w.files.names l) →
        ∃ us, (ls.handler ("ls" :: words)).run w = (.done 0, w.hear us)
          ∧ (ls.handler ("ls" :: words)).printed w
            = heading (listed w.env words)
              ++ entryLines (listing names (wantsAll words) (wantsReversed words)))
      ∧ ∀ {w : World} (tokens : List String), w.output.IsFileless →
        ((ls.handler tokens).run w).2.files = w.files := by
  refine ⟨fun all reversed h => listing_eq_of_perm all reversed h, fun names => ?_,
    listing_shown, listing_reversed, ?_, fun tokens hout => Action.KeepsFiles.ls tokens _ hout⟩
  · rw [listing_all]
    exact ⟨List.mergeSort_perm _ _, ordered_sortedNames _⟩
  · intro w words l names htakes hadmits hdir hnames
    obtain ⟨shown, hrun, hprinted⟩ := run_ls hadmits w
    obtain ⟨us, hlist, hlistPrinted⟩ := @run_listDirectory w (listed w.env words) l
      (wantsAll words) (wantsReversed words) shown htakes hdir
    refine ⟨us, ?_, ?_⟩
    · rw [hrun]
      exact Builtin.run_reporting_of_done hlist
    · rw [hprinted, hlistPrinted, listing_eq_of_perm _ _ hnames]

/-- A world in a directory with four entries, of which two have names that are not text. -/
def mixed : World :=
  { Session.quiet.world with
    files := .ofSeeds (.fresh (encode "r") [])
      [.file ⟨encode "/r/" ++ [0xFF]⟩ [], .file (Path.ofString "/r/.h") [],
        .file ⟨encode "/r/" ++ [0xFE]⟩ [], .file (Path.ofString "/r/b") []] }

/-- Two entries that are shown alike, in two orders. -/
theorem listings_are_canonical_mixed :
    listing [[0xFF], encode ".h", [0xFE], encode "b"] true false
        = listing [encode "b", [0xFE], encode ".h", [0xFF]] true false
      ∧ listing [[0xFF], encode ".h", [0xFE], encode "b"] true false
        = [".h", "b", "\uFFFD", "\uFFFD"]
      ∧ (∃ us, (ls.handler ["ls", "-a", "-r"]).run mixed = (.done 0, mixed.hear us))
      ∧ (ls.handler ["ls", "-a", "-r"]).printed mixed
        = encode "Listing directory: /r\n\uFFFD\n\uFFFD\nb\n.h\n"
      ∧ ((ls.handler ["ls", "-a", "-r"]).run mixed).2.files = mixed.files := by
  obtain ⟨hperm, -, -, -, hls, hfiles⟩ := listings_are_canonical
  have hadmits : ls.Admits ["-a", "-r"] := by
    refine ⟨by decide, by decide, fun _ => by decide⟩
  have hlist : [".h", "b", "\uFFFD", "\uFFFD"]
      = listing [[0xFF], encode ".h", [0xFE], encode "b"] true false := by
    rw [listing_all]
    apply eq_sortedNames
    · decide +kernel
    · unfold Ordered
      decide +kernel
  have hnames : [[0xFF], encode ".h", [0xFE], encode "b"].Perm
      (mixed.files.names [encode "r"]) := by decide +kernel
  obtain ⟨us, hrun, hprinted⟩ := @hls mixed ["-a", "-r"] [encode "r"] _ ⟨nofun, rfl⟩ hadmits
    (by decide +kernel) hnames
  have hwants : wantsAll ["-a", "-r"] = true ∧ wantsReversed ["-a", "-r"] = true := by decide
  refine ⟨hperm true false (by decide +kernel), hlist.symm, ⟨us, hrun⟩, ?_, hfiles _ nofun⟩
  rw [hprinted, hwants.1, hwants.2, listing_reversed, ← hlist]
  decide +kernel

end Verbs

end LineShell
