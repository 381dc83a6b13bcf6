/-
What there is to read.

The current input is the input of the session or a memory that a pipe has filled.  A reader sees no
difference but one: input in memory ends well, while that of the session may break off.  So what the
current input can give is told by the bytes that are left and by what is behind them
(`World.Supplies`), in whatever chunks they arrive.

Reading and printing do not meet: a read changes nothing that a print looks at, and a print nothing
that a read does.
-/
import LineShell.Proofs.Session.Flow

set_option autoImplicit false

namespace LineShell

variable {data : Bytes} {ending : SourceEnd}

namespace World

variable {w : World}

/-- What is behind the last byte of the current input. -/
def inputEnd (w : World) : SourceEnd :=
  match w.input with
  | .session => w.source.ending
  | .memory _ => .finished

/-- The current input gives some bytes, in whatever chunks, and then ends in some way. -/
structure Supplies (w : World) (data : Bytes) (ending : SourceEnd) : Prop where
  unread_eq : w.unread = data
  inputEnd_eq : w.inputEnd = ending

/-- The same world with other things to read. -/
def reading (w : World) (source : Source) (input : Input) : World :=
  { w with source := source, input := input }

theorem Supplies.inputLeft_eq (h : w.Supplies data ending) : w.inputLeft = data.length := by
  rw [← h.unread_eq, inputLeft, unread]
  rcases w.input with _ | reader <;> rfl

/-- A read takes the bytes in front of the cut, and touches nothing but the input. -/
theorem Supplies.readUntil (h : w.Supplies data ending) (b : UInt8) :
    ∃ source input, w.readUntil b = (ending.deliver b data, w.reading source input)
      ∧ (w.reading source input).Supplies (cutAfter b data).2 ending := by
  obtain ⟨rfl, rfl⟩ := h
  rcases hinput : w.input with _ | reader
  · obtain ⟨hresult, hbytes, hending⟩ := w.source.readUntil_eq b
    refine ⟨(w.source.readUntil b).2, .session, ?_, ?_, ?_⟩
    · rw [World.readUntil, unread, inputEnd, hinput]
      simp only
      rw [hresult, reading, ← hinput]
    · rw [unread, unread, hinput]
      exact hbytes
    · rw [inputEnd, inputEnd, hinput]
      exact hending
  · refine ⟨w.source, .memory ⟨(cutAfter b reader.rest).2⟩, ?_, ?_, ?_⟩
    · rw [World.readUntil, unread, inputEnd, hinput, SourceEnd.deliver, if_pos (.inr rfl)]
      rfl
    · rw [unread, unread, hinput]
      rfl
    · rw [inputEnd, inputEnd, hinput]
      rfl

/-- Printing goes on as before, whatever there is to read. -/
theorem print_reading (w : World) (source : Source) (input : Input) (data : Bytes) :
    (w.reading source input).print data
      = ((w.print data).1, (w.print data).2.reading source input) := by
  rcases houtput : w.output with _ | buffer | sink <;> simp only [print, reading, houtput]

end World

namespace Action

theorem run_print_reading (w : World) (source : Source) (input : Input) (data : Bytes) :
    (print data).run (w.reading source input)
        = (((print data).run w).1, ((print data).run w).2.reading source input)
      ∧ (print data).printed (w.reading source input) = (print data).printed w := by
  refine ⟨?_, ?_⟩
  · rw [run_print_eq, run_print_eq, World.print_reading]
    rcases w.print data with ⟨e | ⟨⟩, u⟩ <;> rfl
  · rw [printed_print, printed_print, World.print_reading]

/-- What pieces print does not depend on what there is to read. -/
theorem run_printAll_reading (pieces : List Bytes) (w : World) (source : Source)
    (input : Input) :
    (printAll pieces).run (w.reading source input)
        = (((printAll pieces).run w).1, ((printAll pieces).run w).2.reading source input)
      ∧ (printAll pieces).printed (w.reading source input) = (printAll pieces).printed w := by
  induction pieces generalizing w with
  | nil => exact ⟨rfl, rfl⟩
  | cons piece pieces ih =>
    obtain ⟨hrun, hprinted⟩ := run_print_reading w source input piece
    rw [printAll, run_bind, run_bind, printed_bind, printed_bind, hrun, hprinted]
    rcases (print piece).run w with ⟨⟨⟩ | failure | message, u⟩
    · exact ⟨(ih u).1, congrArg ((print piece).printed w ++ ·) (ih u).2⟩
    · exact ⟨rfl, rfl⟩
    · exact ⟨rfl, rfl⟩

/-- Printing takes nothing from the input. -/
theorem supplies_run_printAll (pieces : List Bytes) {w : World} (h : w.Supplies data ending) :
    ((printAll pieces).run w).2.Supplies data ending := by
  induction pieces generalizing w with
  | nil => exact h
  | cons piece pieces ih =>
    have hprint : (w.print piece).2.Supplies data ending := by
      obtain ⟨hunread, hend⟩ := h
      unfold World.print
      split <;> exact ⟨hunread, hend⟩
    rw [printAll, run_bind, run_print_eq]
    rcases hresult : w.print piece with ⟨e | ⟨⟩, u⟩
    · rw [hresult] at hprint
      exact hprint
    · rw [hresult] at hprint
      exact ih hprint

end Action

end LineShell
