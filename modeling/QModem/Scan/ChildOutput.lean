import QModem.Lib.Run

/-!
# The Output of a Child

`capture_exec` and `at_command` of `modem_scan/src/modem_scand.c` run a child and read its output
from a pipe.  Both poll: `select`, `read` until there is nothing, `waitpid`.  Once the child has
exited, `capture_exec` reads what is left in the pipe, and `at_command` does not.

Child and parent take their turns in any order.  `select` may report anything, and `read` may return
any part of what is there.  Signals and the processes that a child leaves behind are left out.

- `output_within`: nothing is written behind the end of the buffer
- `output_complete_iff`: when `at_command` returns, it has all the output exactly if there was none
  left, or no room for it, when it learned of the exit.
-/

namespace QModem.Scan

open Lib List

/-- Where the parent is: at one of the three calls of its loop, behind the loop, or at an end. -/
inductive Place where
  | select
  | read
  | waitpid
  | rest
  | returned
  | timedOut
  deriving DecidableEq

/-- A child and its parent.  `written` is what the child has written so far, and `out` the first
`used` bytes of the buffer. -/
structure Capture where
  written : List UInt8
  exited : Bool
  pipe : List UInt8
  out : List UInt8
  place : Place

/-- A turn of the child or a call of the parent, with what it returns. -/
inductive Turn where
  | write (bytes : List UInt8)
  | exit
  | select (ready : Bool)
  | read (count : ℕ)
  /-- `late` says that the time is up. -/
  | waitpid (late : Bool)

namespace Capture

def start : Capture := ⟨[], false, [], [], .select⟩

variable (outLen : ℕ)

/-- The bytes that were read are copied as far as there is room. -/
def copied (out bytes : List UInt8) : List UInt8 :=
  if outLen > 1 ∧ out.length < outLen - 1 then out ++ bytes.take (outLen - 1 - out.length) else out

/-- One turn; a call that is not due does nothing.  `drains` says that there is a loop behind the
loop. -/
def step (drains : Bool) (s : Capture) : Turn → Capture
  | .write bytes =>
    if s.exited then s else { s with written := s.written ++ bytes, pipe := s.pipe ++ bytes }
  | .exit => { s with exited := true }
  | .select ready =>
    if s.place = .select then { s with place := if ready then .read else .waitpid } else s
  | .read count =>
    if s.place ≠ .read ∧ s.place ≠ .rest then s
    else if s.pipe = [] then { s with place := if s.place = .read then .waitpid else .returned }
    else
      let n := min (max count 1) 512
      { s with pipe := s.pipe.drop n, out := copied outLen s.out (s.pipe.take n) }
  | .waitpid late =>
    if s.place ≠ .waitpid then s
    else if s.exited then { s with place := if drains then .rest else .returned }
    else { s with place := if late then .timedOut else .select }

def captureExec : Capture → Turn → Capture := step outLen true

def atCommand : Capture → Turn → Capture := step outLen false

/-- Whoever has returned has what the child has written, as far as there was room. -/
def Complete (s : Capture) : Prop := s.place = .returned → s.out = s.written.take (outLen - 1)

/-- When the exit is noticed, there is nothing left in the pipe, or no room for it. -/
def Emptied (s : Capture) : Turn → Prop
  | .waitpid _ =>
    s.place = .waitpid → s.exited = true → s.pipe = [] ∨ outLen - 1 ≤ s.out.length
  | _ => True

/-- What was read and what is in the pipe is what was written, and the parent leaves its loop when
the child has exited. -/
structure Kept (s : Capture) : Prop where
  bytes : ∃ taken, s.written = taken ++ s.pipe ∧ s.out = taken.take (outLen - 1)
  exited : s.place = .rest ∨ s.place = .returned → s.exited = true

variable {outLen} {s : Capture} {drains : Bool}

theorem copied_take (taken bytes : List UInt8) :
    copied outLen (taken.take (outLen - 1)) bytes = (taken ++ bytes).take (outLen - 1) := by
  unfold copied
  rw [take_append, length_take]
  split
  · rw [min_eq_right (by omega)]
  · have hfull : outLen - 1 - taken.length = 0 := by omega
    rw [hfull, take_zero, append_nil]

/-- What is copied is a beginning of what the child has written, in every turn of either side. -/
theorem kept_step (h : s.Kept outLen) (t : Turn) : (s.step outLen drains t).Kept outLen := by
  obtain ⟨hbytes, hexited⟩ := h
  cases t with
  | write bytes =>
    dsimp only [step]
    split_ifs
    · exact ⟨hbytes, hexited⟩
    · obtain ⟨taken, hwritten, hout⟩ := hbytes
      exact ⟨⟨taken, by rw [hwritten, append_assoc], hout⟩, hexited⟩
  | exit => exact ⟨hbytes, fun _ => rfl⟩
  | select ready =>
    dsimp only [step]
    split_ifs
    · exact ⟨hbytes, by simp⟩
    · exact ⟨hbytes, by simp⟩
    · exact ⟨hbytes, hexited⟩
  | read count =>
    dsimp only [step]
    split_ifs with hdue hempty hloop
    · exact ⟨hbytes, hexited⟩
    · exact ⟨hbytes, by simp⟩
    · exact ⟨hbytes, fun _ => hexited (by tauto)⟩
    · obtain ⟨taken, hwritten, hout⟩ := hbytes
      -- what `read` returns is taken from the pipe, and as much of it as there is room is copied
      refine ⟨⟨taken ++ s.pipe.take (min (max count 1) 512), ?_, ?_⟩, hexited⟩
      · rw [hwritten, append_assoc, take_append_drop]
      · rw [hout, copied_take]
  | waitpid late =>
    dsimp only [step]
    split_ifs with hdue hexit
    · exact ⟨hbytes, hexited⟩
    · exact ⟨hbytes, fun _ => hexit⟩
    · exact ⟨hbytes, fun _ => hexit⟩
    · exact ⟨hbytes, by simp⟩
    · exact ⟨hbytes, by simp⟩

/-- Only the exit of a child whose output is not read to its end can lose something. -/
theorem complete_step (hkept : s.Kept outLen) (h : s.Complete outLen) (t : Turn) :
    (s.step outLen drains t).Complete outLen ↔ drains = true ∨ s.Emptied outLen t := by
  obtain ⟨⟨taken, hwritten, hout⟩, hexited⟩ := hkept
  cases t with
  | write bytes =>
    refine iff_of_true ?_ (.inr trivial)
    dsimp only [step]
    split_ifs with halive
    · exact h
    · exact fun hreturned => absurd (hexited (.inr hreturned)) halive
  | exit => exact iff_of_true h (.inr trivial)
  | select ready =>
    refine iff_of_true ?_ (.inr trivial)
    dsimp only [step]
    split_ifs
    · exact nofun
    · exact nofun
    · exact h
  | read count =>
    refine iff_of_true ?_ (.inr trivial)
    dsimp only [step]
    split_ifs with hdue hempty
    · exact h
    · exact nofun
    · exact fun _ => by rw [hwritten, hout, hempty, append_nil]
    · exact fun hreturned => by simp [show s.place = .returned from hreturned] at hdue
  | waitpid late =>
    dsimp only [step, Emptied]
    split_ifs with hdue hexit hdrains
    · exact iff_of_true h (.inr fun hplace => absurd hplace hdue)
    · exact iff_of_true nofun (.inl hdrains)
    · -- what is left in the pipe stays there
      have hfull : outLen - 1 - taken.length = 0 ↔ outLen - 1 ≤ s.out.length := by
        rw [hout, length_take]
        omega
      simp only [Complete, not_not.mp hdue, hexit, hdrains, forall_const, Bool.false_eq_true, false_or]
      rw [← hfull, hwritten, hout, take_append, self_eq_append_right, take_eq_nil_iff]
      exact or_comm
    · exact iff_of_true nofun (.inr fun _ hexit' => absurd hexit' hexit)
    · exact iff_of_true nofun (.inr fun _ hexit' => absurd hexit' hexit)

/-- What the buffer holds is what the child has written first, with room for a zero byte. -/
theorem output_within (outLen : ℕ) (drains : Bool) (turns : List Turn) :
    Throughout (step outLen drains)
      (fun s => s.out <+: s.written ∧ s.out.length ≤ outLen - 1) start turns := by
  have hkept : Throughout (step outLen drains) (Kept outLen) start turns := by
    apply throughout_of_step ⟨⟨[], rfl, by simp [start]⟩, by simp [start]⟩
    exact fun s t _ h => kept_step h t
  refine hkept.imp fun s h => ?_
  obtain ⟨taken, hwritten, hout⟩ := h.bytes
  rw [hout, hwritten, length_take]
  exact ⟨(List.take_prefix _ taken).trans (List.prefix_append _ _), Nat.min_le_left _ _⟩

/-- **Output of a child**: in whatever order child and parent take their turns. -/
theorem output_complete_iff (outLen : ℕ) (turns : List Turn) :
    Throughout (captureExec outLen) (Complete outLen) start turns ∧
      (Throughout (atCommand outLen) (Complete outLen) start turns ↔
        Along (atCommand outLen) (Emptied outLen) start turns) := by
  have hstart : start.Kept outLen := ⟨⟨[], rfl, by simp [start]⟩, by simp [start]⟩
  have hcomplete : start.Complete outLen := nofun
  constructor
  · have hboth : Throughout (captureExec outLen) (fun s => s.Kept outLen ∧ s.Complete outLen) start
        turns := by
      apply throughout_of_step ⟨hstart, hcomplete⟩
      exact fun s t _ h => ⟨kept_step h.1 t, (complete_step h.1 h.2 t).mpr (.inl rfl)⟩
    exact hboth.imp fun s h => h.2
  · -- here the loop may end with something left in the pipe
    apply throughout_iff_along (Kept outLen) hstart (fun s t _ h => kept_step h t) hcomplete
    intro s t _ hkept h
    exact (complete_step hkept h t).trans (or_iff_right Bool.false_ne_true)

/-- The child answers and exits after `select` has found nothing. -/
theorem output_lost :
    (run (atCommand 64) start [.select false, .write [0x4f, 0x4b], .exit, .waitpid false]).place =
        .returned ∧
      ¬ Throughout (atCommand 64) (Complete 64) start
        [.select false, .write [0x4f, 0x4b], .exit, .waitpid false] := by
  refine ⟨rfl, fun h => ?_⟩
  have hlast := h.last rfl
  cases hlast

end Capture

end QModem.Scan
