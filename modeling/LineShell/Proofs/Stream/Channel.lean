/-
The channel of a pipe.

The two ends of a pipe are a buffer that is written to and a reader over what was taken out of it.
Neither loses a byte.  What has been taken out of a buffer, followed by what it still holds, is what
was written to it, in whatever order it was written to and taken from (`run_balance`).  And a
reader has, after any steps, exactly the bytes from some position on, which is the number of bytes
that were read or skipped so far (`rest_after`); from this position each step gives what it is asked
for.

The reader keeps no position of its own, so a skip past the end needs no care: behind the end
nothing is left, however far behind.
-/
import LineShell.Proofs.Stream.Chunked

set_option autoImplicit false

namespace LineShell

open LineShell.Text

/-! ## The writing end -/

/-- What can be done with a buffer, by who writes to it and by who holds a handle on it. -/
inductive CaptureStep where
  | write (data : Bytes)
  | flush
  /-- Takes out what the buffer holds. -/
  | take
  deriving DecidableEq, Repr

/-- What a step writes. -/
def CaptureStep.written : CaptureStep → Bytes
  | .write data => data
  | _ => []

namespace CaptureBuffer

/-- One step, with what it takes out. -/
def step (b : CaptureBuffer) : CaptureStep → Bytes × CaptureBuffer
  | .write data => ([], b.write data)
  -- nothing waits anywhere else
  | .flush => ([], b)
  | .take => b.take

/-- A sequence of steps, with all that they take out, in order. -/
def run (b : CaptureBuffer) : List CaptureStep → Bytes × CaptureBuffer
  | [] => ([], b)
  | x :: steps =>
    let (out, b) := b.step x
    let (more, b) := b.run steps
    (out ++ more, b)

/-- One step loses nothing. -/
theorem step_balance (b : CaptureBuffer) (x : CaptureStep) :
    (b.step x).1 ++ (b.step x).2.bytes = b.bytes ++ x.written := by
  cases x with
  | write data => exact bytes_write b data
  | flush => exact (List.append_nil b.bytes).symm
  | take => rfl

/-- What is taken out, and then what is left, is what was there and what was written. -/
theorem run_balance (b : CaptureBuffer) (steps : List CaptureStep) :
    (b.run steps).1 ++ (b.run steps).2.bytes = b.bytes ++ steps.flatMap CaptureStep.written := by
  induction steps generalizing b with
  | nil => exact (List.append_nil b.bytes).symm
  | cons x steps ih =>
    show (b.step x).1 ++ ((b.step x).2.run steps).1 ++ ((b.step x).2.run steps).2.bytes = _
    calc (b.step x).1 ++ ((b.step x).2.run steps).1 ++ ((b.step x).2.run steps).2.bytes
        = (b.step x).1 ++ ((b.step x).2.bytes ++ steps.flatMap CaptureStep.written) := by
          rw [List.append_assoc, ih]
      _ = b.bytes ++ (x.written ++ steps.flatMap CaptureStep.written) := by
          rw [← List.append_assoc, step_balance, List.append_assoc]

end CaptureBuffer

/-! ## The reading end -/

/-- What can be done with a reader. -/
inductive ReadStep where
  /-- Reads at most `n` bytes. -/
  | read (n : Nat)
  /-- Looks at what is left. -/
  | fillBuffer
  /-- Skips `n` bytes, or all that are left. -/
  | consume (n : Nat)
  /-- Reads up to and including a byte. -/
  | readUntil (b : UInt8)
  | readToEnd
  deriving DecidableEq, Repr

/-- The beginning of some bytes that ends in the first `b`, or all of them if there is none. -/
def UpTo (b : UInt8) (ahead piece : Bytes) : Prop :=
  (∃ before behind, ahead = before ++ b :: behind ∧ b ∉ before ∧ piece = before ++ [b])
    ∨ b ∉ ahead ∧ piece = ahead

namespace ReadStep

/-- What a step gives that finds some bytes ahead. -/
def Gives : ReadStep → (ahead given : Bytes) → Prop
  | .read n, ahead, given => given = ahead.take n
  | .fillBuffer, ahead, given => given = ahead
  | .consume _, _, given => given = []
  | .readUntil b, ahead, given => UpTo b ahead given
  | .readToEnd, ahead, given => given = ahead

/-- The bytes that a step delivers for good. What is only looked at is given again. -/
def delivered : ReadStep → (given : Bytes) → Bytes
  | .fillBuffer, _ => []
  | _, given => given

/-- How far a step moves on that has given some bytes. -/
def advance : ReadStep → (given : Bytes) → Nat
  | .consume n, _ => n
  | x, given => (x.delivered given).length

end ReadStep

theorem upTo_cutAfter (b : UInt8) (ahead : Bytes) : UpTo b ahead (cutAfter b ahead).1 := by
  by_cases hmem : b ∈ ahead
  · obtain ⟨before, behind, rfl, hbefore⟩ := List.eq_append_cons_of_mem hmem
    exact .inl ⟨before, behind, rfl, hbefore, by rw [cutAfter_concat hbefore]⟩
  · exact .inr ⟨hmem, by rw [cutAfter_of_not_mem hmem]⟩

namespace MemoryReader

/-- One step, with what it gives. -/
def step (r : MemoryReader) : ReadStep → Bytes × MemoryReader
  | .read n => r.read n
  | .fillBuffer => (r.rest, r)
  | .consume n => ([], r.consume n)
  | .readUntil b => r.readUntil b
  | .readToEnd => r.readToEnd

/-- The reader after a sequence of steps. -/
def after (r : MemoryReader) : List ReadStep → MemoryReader
  | [] => r
  | x :: steps => (r.step x).2.after steps

/-- How many bytes a sequence of steps reads or skips. -/
def position (r : MemoryReader) : List ReadStep → Nat
  | [] => 0
  | x :: steps => x.advance (r.step x).1 + (r.step x).2.position steps

/-- The bytes that a sequence of steps delivers, in order. -/
def delivered (r : MemoryReader) : List ReadStep → Bytes
  | [] => []
  | x :: steps => x.delivered (r.step x).1 ++ (r.step x).2.delivered steps

theorem step_gives (r : MemoryReader) (x : ReadStep) : x.Gives r.rest (r.step x).1 := by
  cases x with
  | read n => rfl
  | fillBuffer => rfl
  | consume n => rfl
  | readUntil b => exact upTo_cutAfter b r.rest
  | readToEnd => rfl

/-- A step that does not skip leaves what it does not deliver. -/
theorem step_delivered (r : MemoryReader) {x : ReadStep} (hx : ∀ n, x ≠ .consume n) :
    x.delivered (r.step x).1 ++ (r.step x).2.rest = r.rest := by
  cases x with
  | read n => exact List.take_append_drop n r.rest
  | fillBuffer => rfl
  | consume n => exact absurd rfl (hx n)
  | readUntil b => exact cutAfter_append b r.rest
  | readToEnd => exact List.append_nil r.rest

/-- One step moves on by as much as it advances. -/
theorem rest_step (r : MemoryReader) (x : ReadStep) :
    (r.step x).2.rest = r.rest.drop (x.advance (r.step x).1) := by
  by_cases hskip : ∃ n, x = .consume n
  · obtain ⟨n, rfl⟩ := hskip
    rfl
  · have hx : ∀ n, x ≠ .consume n := fun n hn => hskip ⟨n, hn⟩
    have hadvance : x.advance (r.step x).1 = (x.delivered (r.step x).1).length := by
      cases x with
      | consume n => exact absurd rfl (hx n)
      | _ => rfl
    calc (r.step x).2.rest
        = (x.delivered (r.step x).1 ++ (r.step x).2.rest).drop (x.advance (r.step x).1) := by
          rw [hadvance, List.drop_left]
      _ = r.rest.drop (x.advance (r.step x).1) := by rw [step_delivered r hx]

/-- **After any steps a reader has the bytes from its position on.** -/
theorem rest_after (r : MemoryReader) (steps : List ReadStep) :
    (r.after steps).rest = r.rest.drop (r.position steps) := by
  induction steps generalizing r with
  | nil => rfl
  | cons x steps ih => rw [after, position, ih, rest_step, List.drop_drop]

/-- What is delivered comes in its order, and nothing comes twice. -/
theorem delivered_sublist (r : MemoryReader) (steps : List ReadStep) :
    (r.delivered steps).Sublist r.rest := by
  induction steps generalizing r with
  | nil => exact List.nil_sublist _
  | cons x steps ih =>
    by_cases hskip : ∃ n, x = .consume n
    · obtain ⟨n, rfl⟩ := hskip
      exact (ih (r.consume n)).trans (List.drop_sublist n r.rest)
    · rw [← step_delivered r fun n hn => hskip ⟨n, hn⟩]
      exact (ih (r.step x).2).append_left _

/-- Without skips everything is delivered that is not left. -/
theorem delivered_append (r : MemoryReader) {steps : List ReadStep}
    (hskip : ∀ n, .consume n ∉ steps) : r.delivered steps ++ (r.after steps).rest = r.rest := by
  induction steps generalizing r with
  | nil => rfl
  | cons x steps ih =>
    have hx : ∀ n, x ≠ .consume n := by
      rintro n rfl
      exact hskip n List.mem_cons_self
    rw [delivered, after, List.append_assoc,
      ih (r.step x).2 fun n hn => hskip n (List.mem_cons_of_mem x hn), step_delivered r hx]

end MemoryReader

/-! ## The result -/

/-- **A pipe's channel is faithful at both ends.**  Whatever is done with a buffer that was empty,
what was taken out of it and what it holds make up what was written.  And whatever is done with a
reader over some bytes, the next step sees exactly the bytes from the position on that was reached:
a read gives the next ones, as many as it asks for or as there are, a read up to a byte the shortest
piece that ends in it or else all, and so on.  So what is delivered comes in order and never
twice, and nothing is left out but what was skipped. -/
theorem channel_is_faithful :
    (∀ steps : List CaptureStep,
      (CaptureBuffer.empty.run steps).1 ++ (CaptureBuffer.empty.run steps).2.bytes
        = steps.flatMap CaptureStep.written)
      ∧ ∀ (data : Bytes) (steps : List ReadStep),
        (∀ x : ReadStep, x.Gives (data.drop ((MemoryReader.mk data).position steps))
            (((MemoryReader.mk data).after steps).step x).1)
          ∧ ((MemoryReader.mk data).delivered steps).Sublist data
          ∧ ((∀ n, .consume n ∉ steps) → (MemoryReader.mk data).delivered steps
              ++ data.drop ((MemoryReader.mk data).position steps) = data) := by
  refine ⟨fun steps => CaptureBuffer.empty.run_balance steps, fun data steps => ?_⟩
  refine ⟨fun x => ?_, ?_, ?_⟩
  · have hrest := (MemoryReader.mk data).rest_after steps
    rw [← hrest]
    exact MemoryReader.step_gives _ x
  · exact MemoryReader.delivered_sublist _ steps
  · intro hskip
    have hrest := (MemoryReader.mk data).rest_after steps
    rw [← hrest]
    exact MemoryReader.delivered_append _ hskip

/-- Looking, reading a line and reading a byte deliver the line and the byte, and leave the rest. -/
theorem channel_is_faithful_mixed :
    let r : MemoryReader := ⟨encode "ab\ncd"⟩
    let steps : List ReadStep := [.fillBuffer, .readUntil newline, .read 1]
    (∀ n, .consume n ∉ steps) ∧ r.delivered steps = encode "ab\nc"
      ∧ r.delivered steps ++ r.rest.drop (r.position steps) = r.rest := by
  intro r steps
  have hskip : ∀ n, ReadStep.consume n ∉ steps := by simp [steps]
  exact ⟨hskip, by decide +kernel, (channel_is_faithful.2 r.rest steps).2.2 hskip⟩

end LineShell
