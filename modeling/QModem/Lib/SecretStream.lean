import Mathlib

/-!
# Ideal Authenticated Streams

A stream is a sequence of messages with tags, encrypted one after the other under a key and a
header.  In the ideal stream a pull succeeds exactly on the next pushed frame.

- `StreamCipher`: the ciphertexts, of which only the length is known
- `Streams`: what has been pushed under every key and header
- `pull`: decryption of the next frame
-/

namespace QModem.Lib

/-- A message of a stream, its tag and its ciphertext. -/
structure StreamFrame where
  message : List UInt8
  tag : UInt8
  cipher : List UInt8
  deriving DecidableEq

variable {κ η : Type}

/-- The ciphertext of a message depends on key and header, on what was sent before, and on the tag.
It is longer than the message by a fixed number of bytes. -/
structure StreamCipher (κ η : Type) (overhead : ℕ) where
  cipher : κ → η → List StreamFrame → List UInt8 → UInt8 → List UInt8
  length_cipher : ∀ key header sent message tag,
    (cipher key header sent message tag).length = message.length + overhead

/-- The frames that have been pushed under every key and header. -/
abbrev Streams (κ η : Type) := κ → η → List StreamFrame

namespace Streams

variable [DecidableEq κ] [DecidableEq η]

/-- The frames under one key and header are replaced. -/
def set (w : Streams κ η) (key : κ) (header : η) (frames : List StreamFrame) : Streams κ η :=
  fun k h => if k = key ∧ h = header then frames else w k h

@[simp] theorem set_self (w : Streams κ η) (key : κ) (header : η) (frames : List StreamFrame) :
    w.set key header frames key header = frames := if_pos ⟨rfl, rfl⟩

@[simp] theorem set_set (w : Streams κ η) (key : κ) (header : η) (frames frames' : List StreamFrame) :
    (w.set key header frames).set key header frames' = w.set key header frames' := by
  funext k h
  unfold set
  split <;> rfl

/-- A new stream. -/
def initPush (w : Streams κ η) (key : κ) (header : η) : Streams κ η := w.set key header []

end Streams

namespace StreamCipher

variable {overhead : ℕ} (S : StreamCipher κ η overhead)

def frame (key : κ) (header : η) (sent : List StreamFrame) (message : List UInt8) (tag : UInt8) :
    StreamFrame := ⟨message, tag, S.cipher key header sent message tag⟩

/-- The next frame is pushed: the streams afterwards and its ciphertext. -/
def push [DecidableEq κ] [DecidableEq η] (w : Streams κ η) (key : κ) (header : η)
    (message : List UInt8) (tag : UInt8) : Streams κ η × List UInt8 :=
  let frame := S.frame key header (w key header) message tag
  (w.set key header (w key header ++ [frame]), frame.cipher)

end StreamCipher

/-- Decryption with the frames that are still to come: the next one and those behind it. -/
def pull : List StreamFrame → List UInt8 → Option (StreamFrame × List StreamFrame)
  | [], _ => none
  | frame :: frames, cipher => if frame.cipher = cipher then some (frame, frames) else none

/-- **The ideal stream**: a pull succeeds exactly on the next frame. -/
theorem pull_eq_some {frames frames' : List StreamFrame} {cipher : List UInt8} {frame : StreamFrame} :
    pull frames cipher = some (frame, frames') ↔ frames = frame :: frames' ∧ frame.cipher = cipher := by
  cases frames with
  | nil => simp [pull]
  | cons next frames =>
    simp only [pull, Option.ite_none_right_eq_some, Option.some.injEq, Prod.mk.injEq, List.cons.injEq]
    constructor
    · rintro ⟨hcipher, rfl, rfl⟩
      exact ⟨⟨rfl, rfl⟩, hcipher⟩
    · rintro ⟨⟨rfl, rfl⟩, hcipher⟩
      exact ⟨hcipher, rfl, rfl⟩

@[simp] theorem pull_cons_cipher (frame : StreamFrame) (frames : List StreamFrame) :
    pull (frame :: frames) frame.cipher = some (frame, frames) := if_pos rfl

end QModem.Lib
