/-
Room for what is printed.

A console may have room for a limited number of bytes, and a buffer takes any number.  Where the
output is one of the two, whether something can be printed depends on its length alone
(`World.Affords`): what is printed leaves that much less room, and nothing else about the session
changes (`World.Spends`).  So whoever prints no more than others have printed can print it
where they could.  And of a text that there is too little room for, a console gets the beginning, in
whatever pieces the text is printed (`run_printAll_of_room`).
-/
import LineShell.Proofs.Session.Flow

set_option autoImplicit false

namespace LineShell

open LineShell.Text

namespace Console

variable {c : Console} {n m : Nat} {data : Bytes}

/-- A console with room for some more bytes. -/
def Affords (c : Console) (n : Nat) : Prop := ∀ room, c.room = some room → n ≤ room

theorem Affords.mono (h : c.Affords n) (hle : m ≤ n) : c.Affords m :=
  fun room hroom => Nat.le_trans hle (h room hroom)

theorem affords_zero (c : Console) : c.Affords 0 := fun room _ => room.zero_le

/-- A console takes what it has room for, and only that. -/
theorem write_eq_ok_iff : (c.write data).1 = .ok () ↔ c.Affords data.length := by
  rcases hroom : c.room with _ | room
  · simp [write, Affords, hroom]
  · by_cases hfits : data.length ≤ room <;> simp [write, Affords, hroom, hfits]

/-- What it takes leaves that much less room. -/
theorem affords_write (h : c.Affords data.length) :
    (c.write data).2.Affords m ↔ c.Affords (data.length + m) := by
  rcases hroom : c.room with _ | room
  · simp [write, Affords, hroom]
  · have hfits : data.length ≤ room := h room hroom
    simp only [write, Affords, hroom, hfits, if_true, Option.some.injEq, forall_eq']
    omega

end Console

namespace World

variable {w u v : World} {n m : Nat} {data : Bytes}

/-- An output that no file is behind, with room for some more bytes. -/
structure Affords (w : World) (n : Nat) : Prop where
  fileless : w.output.IsFileless
  room : w.output = .console → w.console.Affords n

theorem Affords.mono (h : w.Affords n) (hle : m ≤ n) : w.Affords m :=
  ⟨h.fileless, fun houtput => (h.room houtput).mono hle⟩

theorem affords_zero (h : w.output.IsFileless) : w.Affords 0 := ⟨h, fun _ => w.console.affords_zero⟩

theorem affords_of_room (hout : w.output.IsFileless) (h : w.console.room = none) (n : Nat) :
    w.Affords n := by
  refine ⟨hout, fun _ room hroom => ?_⟩
  rw [h] at hroom
  exact nomatch hroom

/-- What becomes of a world when some bytes are printed: there is less room, and that is all. -/
structure Spends (w : World) (n : Nat) (u : World) : Prop where
  afforded : w.Affords n
  left : ∀ m, u.Affords m ↔ w.Affords (n + m)
  env_eq : u.env = w.env
  files_eq : u.files = w.files

theorem spends_zero (h : w.output.IsFileless) : w.Spends 0 w where
  afforded := affords_zero h
  left := fun m => by rw [Nat.zero_add]
  env_eq := rfl
  files_eq := rfl

theorem Spends.trans (h : w.Spends n u) (h' : u.Spends m v) : w.Spends (n + m) v where
  afforded := (h.left m).mp h'.afforded
  left := fun k => by rw [h'.left, h.left, Nat.add_assoc]
  env_eq := h'.env_eq.trans h.env_eq
  files_eq := h'.files_eq.trans h.files_eq

theorem Spends.fileless (h : w.Spends n u) : u.output.IsFileless :=
  ((h.left 0).mpr h.afforded).fileless

/-- What is printed was afforded. -/
theorem affords_of_print (hout : w.output.IsFileless) (h : w.print data = (.ok (), u)) :
    w.Affords data.length := by
  refine ⟨hout, fun houtput => ?_⟩
  rw [print, houtput] at h
  exact Console.write_eq_ok_iff.mp (congrArg Prod.fst h)

/-- What is afforded is printed. -/
theorem exists_print (h : w.Affords data.length) :
    ∃ u, w.print data = (.ok (), u) ∧ w.Spends data.length u := by
  rcases houtput : w.output with _ | buffer | sink
  · have hroom := h.room houtput
    refine ⟨{ w with console := (w.console.write data).2 }, ?_, h, fun m => ?_, rfl, rfl⟩
    · rw [print, houtput]
      simp only [Console.write_eq_ok_iff.mpr hroom]
    · constructor
      · intro hleft
        exact ⟨h.fileless, fun _ => (Console.affords_write hroom).mp (hleft.room houtput)⟩
      · intro hafforded
        exact ⟨h.fileless, fun _ => (Console.affords_write hroom).mpr (hafforded.room houtput)⟩
  · refine ⟨{ w with output := .capture (buffer.write data) }, ?_, h, fun m => ?_, rfl, rfl⟩
    · rw [print, houtput]
    · constructor
      · intro _
        refine ⟨h.fileless, fun hconsole => ?_⟩
        cases houtput.symm.trans hconsole
      · intro _
        constructor
        · intro sink hsink
          cases hsink
        · intro hconsole
          cases hconsole
  · exact absurd houtput (h.fileless sink)

end World

namespace Action

variable {w u : World} {pieces : List Bytes}

/-- Pieces are printed if there is room for all of them. -/
theorem exists_run_printAll (h : w.Affords pieces.flatten.length) :
    ∃ u, (printAll pieces).run w = (.done (), u) ∧ w.Spends pieces.flatten.length u := by
  induction pieces generalizing w with
  | nil => exact ⟨w, rfl, World.spends_zero h.fileless⟩
  | cons piece pieces ih =>
    rw [List.flatten_cons, List.length_append] at h ⊢
    obtain ⟨u, hprint, hspends⟩ := World.exists_print (h.mono (Nat.le_add_right _ _))
    obtain ⟨v, hrest, hspendsRest⟩ := ih ((hspends.left _).mpr h)
    refine ⟨v, ?_, hspends.trans hspendsRest⟩
    rw [printAll, run_bind, run_print_eq, hprint]
    exact hrest

/-- Pieces that were printed have left that much less room. -/
theorem spends_of_run_printAll (hout : w.output.IsFileless)
    (h : (printAll pieces).run w = (.done (), u)) : w.Spends pieces.flatten.length u := by
  induction pieces generalizing w with
  | nil =>
    cases h
    exact World.spends_zero hout
  | cons piece pieces ih =>
    rw [printAll, run_bind, run_print_eq] at h
    rcases hprinted : w.print piece with ⟨e | ⟨⟩, v⟩
    · rw [hprinted] at h
      exact nomatch h
    · rw [hprinted] at h
      obtain ⟨v', hprint, hspends⟩ := World.exists_print (World.affords_of_print hout hprinted)
      have hsame : v' = v := by
        rw [hprinted] at hprint
        exact (congrArg Prod.snd hprint).symm
      rw [hsame] at hspends
      rw [List.flatten_cons, List.length_append]
      exact hspends.trans (ih hspends.fileless h)

/-- A console with little room gets as much of a text as there is room for, in whatever pieces the
text is printed. -/
theorem run_printAll_of_room {room : Nat} (hout : w.output = .console)
    (hroom : w.console.room = some room) (pieces : List Bytes) :
    ((printAll pieces).run w).1
        = (if pieces.flatten.length ≤ room then .done () else .failed (.io .sinkClosed))
      ∧ ((printAll pieces).run w).2.console.bytes
        = w.console.bytes ++ pieces.flatten.take room := by
  induction pieces generalizing w room with
  | nil =>
    rw [List.flatten_nil, List.take_nil, List.append_nil]
    exact ⟨(if_pos room.zero_le).symm, rfl⟩
  | cons piece pieces ih =>
    rw [printAll, run_bind, run_print_eq, List.flatten_cons, List.length_append, List.take_append]
    by_cases hfits : piece.length ≤ room
    · have hprint : w.print piece = (.ok (),
          { w with console := ⟨w.console.written ++ piece, some (room - piece.length)⟩ }) := by
        rw [World.print, hout]
        simp only [Console.write, hroom, if_pos hfits]
      obtain ⟨hended, hbytes⟩ := @ih
        { w with console := ⟨w.console.written ++ piece, some (room - piece.length)⟩ }
        (room - piece.length) hout rfl
      have hmore : pieces.flatten.length ≤ room - piece.length
          ↔ piece.length + pieces.flatten.length ≤ room := by omega
      rw [hprint, List.take_of_length_le hfits]
      simp only [hmore] at hended
      refine ⟨hended, hbytes.trans ?_⟩
      simp [Console.bytes]
    · have hprint : w.print piece = (.error .sinkClosed,
          { w with console := ⟨w.console.written ++ piece.take room, some 0⟩ }) := by
        rw [World.print, hout]
        simp only [Console.write, hroom, if_neg hfits]
      have hbeyond : ¬ piece.length + pieces.flatten.length ≤ room := by omega
      have hnothing : room - piece.length = 0 := by omega
      rw [hprint, if_neg hbeyond, hnothing, List.take_zero, List.append_nil]
      refine ⟨rfl, ?_⟩
      simp [Console.bytes]

/-- The bytes of a printed line. -/
def lineBytes (pieces : List String) : Bytes := pieces.flatMap encode ++ [newline]

theorem flatten_line (pieces : List String) :
    (pieces.map encode ++ [[newline]]).flatten = lineBytes pieces := by
  rw [List.flatten_append, lineBytes, List.flatMap_def]
  rfl

theorem exists_run_printLine {pieces : List String} (h : w.Affords (lineBytes pieces).length) :
    ∃ u, (printLine pieces).run w = (.done (), u) ∧ w.Spends (lineBytes pieces).length u := by
  rw [← flatten_line] at h ⊢
  exact exists_run_printAll h

theorem spends_of_run_printLine {pieces : List String} (hout : w.output.IsFileless)
    (h : (printLine pieces).run w = (.done (), u)) : w.Spends (lineBytes pieces).length u := by
  rw [← flatten_line]
  exact spends_of_run_printAll hout h

end Action

end LineShell
