import QModem.Lib.SecretStream

/-!
# Sealed Payloads

`encrypt_payload` and `decrypt_payload` of `qmodem-seal.c`.  A payload is a magic text, the header
of a secret stream, and the frames of the stream, each behind its length.

Reading and writing files works, so a read that comes back short has reached the end.
`StreamCipher` is the secret stream of libsodium, taken as ideal.

## Main results

- `decryptLoop_sound`: what the frame loop writes is a pushed stream up to its final frame
- `decryptLoop_sealed`: the loop reads back what the writer has left
- `sealed_payload`: both for whole payloads
-/

namespace QModem.Seal

open Lib List

abbrev Bytes := List UInt8

/-- `IO_CHUNK` -/
def ioChunk : ℕ := 65536

/-- `crypto_secretstream_xchacha20poly1305_ABYTES` -/
def aBytes : ℕ := 17

/-- `crypto_secretstream_xchacha20poly1305_HEADERBYTES` -/
def headerBytes : ℕ := 24

/-- `crypto_secretstream_xchacha20poly1305_TAG_FINAL` -/
def tagFinal : UInt8 := 3

/-- `PAYLOAD_MAGIC`: `QMSPAY1` and a newline. -/
def payloadMagic : Bytes := [81, 77, 83, 80, 65, 89, 49, 10]

/-- The header that `init_push` makes. -/
abbrev Header := { header : Bytes // header.length = headerBytes }

/-! ## Numbers -/

/-- `write_u32` -/
def writeU32 (value : ℕ) : Bytes :=
  [UInt8.ofNat (value / 2 ^ 24), UInt8.ofNat (value / 2 ^ 16), UInt8.ofNat (value / 2 ^ 8),
    UInt8.ofNat value]

/-- The return values of `read_u32`. -/
inductive U32 where
  | eof
  | failed
  | value (value : ℕ) (rest : Bytes)
  deriving DecidableEq

/-- `read_u32` -/
def readU32 (input : Bytes) : U32 :=
  match input with
  | [] => .eof
  | a :: b :: c :: d :: rest =>
    .value (a.toNat * 2 ^ 24 + b.toNat * 2 ^ 16 + c.toNat * 2 ^ 8 + d.toNat) rest
  | _ => .failed

theorem readU32_writeU32 {value : ℕ} (h : value < 2 ^ 32) (rest : Bytes) :
    readU32 (writeU32 value ++ rest) = .value value rest := by
  simp only [writeU32, readU32, cons_append, nil_append, UInt8.toNat_ofNat',
    U32.value.injEq, and_true]
  omega

theorem length_of_readU32 {input rest : Bytes} {value : ℕ} (h : readU32 input = .value value rest) :
    input.length = rest.length + 4 := by
  unfold readU32 at h
  split at h
  · cases h
  · cases h
    simp
  · cases h

/-! ## Encryption -/

section Encrypt

variable (S : StreamCipher Bytes Bytes aBytes) (key header : Bytes)

/-- The loop of `encrypt_payload`: what it writes, and the streams afterwards. -/
def encryptLoop (input : Bytes) (w : Streams Bytes Bytes) : Bytes × Streams Bytes Bytes :=
  -- a short read has reached the end of the file
  if (input.take ioChunk).length < ioChunk then
    let (w, cipher) := S.push w key header (input.take ioChunk) tagFinal
    (writeU32 cipher.length ++ cipher, w)
  else
    let (w, cipher) := S.push w key header (input.take ioChunk) 0
    let (rest, w) := encryptLoop (input.drop ioChunk) w
    (writeU32 cipher.length ++ cipher ++ rest, w)
termination_by input.length
decreasing_by
  simp only [List.length_take, List.length_drop, ioChunk] at *
  omega

/-- `encrypt_payload` -/
def encryptPayload (header : Header) (input : Bytes) (w : Streams Bytes Bytes) :
    Bytes × Streams Bytes Bytes :=
  let (frames, w) := encryptLoop S key header.val input (w.initPush key header.val)
  (payloadMagic ++ header.val ++ frames, w)

end Encrypt

/-! ## Decryption -/

/-- How `decrypt_payload` ends: with a message, before the output file is opened, or with the output
file. -/
inductive Outcome where
  | died (message : String)
  | wrote (output : Bytes)
  deriving DecidableEq

/-- The loop of `decrypt_payload`, with the frames that the secret stream expects, the text in
`verified` and `saw_final`, and what follows the loop. -/
def decryptLoop (input : Bytes) (frames : List StreamFrame) (verified : Bytes) (sawFinal : Bool) :
    Outcome :=
  match _ : readU32 input with
  | .eof => if sawFinal then .wrote verified else .died "encrypted payload is truncated"
  | .failed => .died "invalid encrypted payload frame"
  | .value cipherLen rest =>
    if cipherLen < aBytes || ioChunk + aBytes < cipherLen ||
        (rest.take cipherLen).length ≠ cipherLen then
      .died "invalid encrypted payload frame"
    else if sawFinal then .died "encrypted payload authentication failed"
    else
      match pull frames (rest.take cipherLen) with
      | none => .died "encrypted payload authentication failed"
      | some (frame, frames) =>
        if frame.tag = tagFinal then
          decryptLoop (rest.drop cipherLen) frames (verified ++ frame.message) true
        else if frame.tag ≠ 0 then .died "unsupported encrypted payload tag"
        else decryptLoop (rest.drop cipherLen) frames (verified ++ frame.message) false
termination_by input.length
decreasing_by
  all_goals
    have := length_of_readU32 ‹readU32 input = .value cipherLen rest›
    simp only [List.length_drop]
    omega

/-- `decrypt_payload` -/
def decryptPayload (w : Streams Bytes Bytes) (key : Bytes) (input : Bytes) : Outcome :=
  let magic := input.take payloadMagic.length
  let header := (input.drop payloadMagic.length).take headerBytes
  if magic ≠ payloadMagic || header.length ≠ headerBytes then
    .died "invalid encrypted payload header"
  else
    decryptLoop ((input.drop payloadMagic.length).drop headerBytes) (w key header) [] false

/-! ## What is written was pushed -/

/-- The messages of some frames, one after the other. -/
def text (frames : List StreamFrame) : Bytes := frames.flatMap StreamFrame.message

/-- The frames of a stream up to its first final one. -/
def UpToFinal (frames upTo : List StreamFrame) : Prop :=
  ∃ before final rest, frames = before ++ final :: rest ∧ upTo = before ++ [final] ∧
    (∀ frame ∈ before, frame.tag = 0) ∧ final.tag = tagFinal

theorem UpToFinal.cons {frame : StreamFrame} {frames upTo : List StreamFrame}
    (h : UpToFinal frames upTo) (htag : frame.tag = 0) :
    UpToFinal (frame :: frames) (frame :: upTo) := by
  obtain ⟨before, final, rest, rfl, rfl, hbefore, hfinal⟩ := h
  exact ⟨frame :: before, final, rest, rfl, rfl, by simpa [htag] using hbefore, hfinal⟩

variable {input output : Bytes} {frames : List StreamFrame} {verified : Bytes}

/-- After the final frame nothing is accepted any more. -/
theorem decryptLoop_final (h : decryptLoop input frames verified true = .wrote output) :
    output = verified := by
  unfold decryptLoop at h
  split at h
  · simpa using h.symm
  · cases h
  · split at h
    · cases h
    · simp at h

/-- One pass of the loop that does not end in a message. -/
theorem decryptLoop_cases (h : decryptLoop input frames verified false = .wrote output) :
    ∃ frame frames' rest, frames = frame :: frames' ∧
      (frame.tag = tagFinal ∧
          decryptLoop rest frames' (verified ++ frame.message) true = .wrote output ∨
        frame.tag = 0 ∧
          decryptLoop rest frames' (verified ++ frame.message) false = .wrote output) := by
  unfold decryptLoop at h
  split at h
  · cases h
  · cases h
  · rename_i cipherLen rest _
    split at h
    · cases h
    · simp only [Bool.false_eq_true, if_false] at h
      split at h
      · cases h
      · rename_i frame frames' hpull
        -- the frame is the next one of the stream, and its tag says how to go on
        refine ⟨frame, frames', rest.drop cipherLen, (pull_eq_some.mp hpull).1, ?_⟩
        split at h
        · rename_i hfinal
          exact .inl ⟨hfinal, h⟩
        · split at h
          · cases h
          · rename_i htag
            exact .inr ⟨not_not.mp htag, h⟩

/-- **What the loop writes** is the text in `verified` and then that of the pushed stream up to its
final frame. -/
theorem decryptLoop_sound (h : decryptLoop input frames verified false = .wrote output) :
    ∃ upTo, UpToFinal frames upTo ∧ output = verified ++ text upTo := by
  -- on the frames that are still expected: every pass that goes on has taken one of them
  induction frames generalizing input verified with
  | nil =>
    obtain ⟨_, _, _, hnil, _⟩ := decryptLoop_cases h
    cases hnil
  | cons frame frames ih =>
    obtain ⟨_, _, rest, hcons, hpass⟩ := decryptLoop_cases h
    obtain ⟨rfl, rfl⟩ := cons.inj hcons
    rcases hpass with ⟨hfinal, hrest⟩ | ⟨htag, hrest⟩
    · -- the stream may go on behind its final frame, but the file does not
      refine ⟨[frame], ⟨[], frame, frames, rfl, rfl, by simp, hfinal⟩, ?_⟩
      rw [decryptLoop_final hrest]
      simp [text]
    · obtain ⟨upTo, hupTo, hout⟩ := ih hrest
      exact ⟨frame :: upTo, hupTo.cons htag, by simp [hout, text]⟩

/-! ## What was sealed is read back -/

/-- A frame in the file. -/
def frameBytes (frame : StreamFrame) : Bytes := writeU32 frame.cipher.length ++ frame.cipher

/-- The frames that the writer leaves: full chunks, and a shorter one at the end. -/
inductive Sealed : List StreamFrame → Prop where
  | last {frame : StreamFrame} (htag : frame.tag = tagFinal)
      (hcipher : frame.cipher.length = frame.message.length + aBytes)
      (hsize : frame.message.length < ioChunk) : Sealed [frame]
  | cons {frame : StreamFrame} {frames : List StreamFrame} (htag : frame.tag = 0)
      (hcipher : frame.cipher.length = frame.message.length + aBytes)
      (hsize : frame.message.length = ioChunk) (hrest : Sealed frames) : Sealed (frame :: frames)

/-- The loop reads a frame of at most one chunk. -/
theorem decryptLoop_frame {frame : StreamFrame}
    (hcipher : frame.cipher.length = frame.message.length + aBytes)
    (hsize : frame.message.length ≤ ioChunk) (rest verified : Bytes) (frames : List StreamFrame) :
    decryptLoop (frameBytes frame ++ rest) (frame :: frames) verified false =
      if frame.tag = tagFinal then decryptLoop rest frames (verified ++ frame.message) true
      else if frame.tag ≠ 0 then .died "unsupported encrypted payload tag"
      else decryptLoop rest frames (verified ++ frame.message) false := by
  -- the length in front of the frame is that of its ciphertext
  have hread : readU32 (frameBytes frame ++ rest) =
      .value frame.cipher.length (frame.cipher ++ rest) := by
    refine readU32_writeU32 ?_ _
    simp only [hcipher, aBytes, ioChunk] at *
    omega
  have hlength : ¬ (frame.cipher.length < aBytes ∨ ioChunk + aBytes < frame.cipher.length) := by
    omega
  rw [decryptLoop]
  split
  · rename_i heof
    cases hread.symm.trans heof
  · rename_i hfailed
    cases hread.symm.trans hfailed
  · rename_i cipherLen rest' hvalue
    obtain ⟨rfl, rfl⟩ := U32.value.inj (hread.symm.trans hvalue)
    simp [hlength]

/-- A stream that was sealed is read to its end. -/
theorem decryptLoop_sealed (h : Sealed frames) (verified : Bytes) :
    decryptLoop (frames.flatMap frameBytes) frames verified false =
      .wrote (verified ++ text frames) := by
  induction h generalizing verified with
  | @last frame htag hcipher hsize =>
    have hframe := decryptLoop_frame hcipher hsize.le [] verified []
    rw [if_pos htag] at hframe
    simp only [flatMap_cons, flatMap_nil, hframe]
    rw [decryptLoop]
    simp [readU32, text]
  | @cons frame frames htag hcipher hsize _ ih =>
    have hframe := decryptLoop_frame hcipher hsize.le (frames.flatMap frameBytes) verified frames
    rw [if_neg (by rw [htag]; decide), if_neg (not_not.mpr htag)] at hframe
    -- the rest of the file is read with the rest of the stream
    rw [flatMap_cons, hframe, ih]
    simp [text]

/-- **What the writer leaves**: the frames of the file are those pushed, and their text is the
input. -/
theorem encryptLoop_eq (S : StreamCipher Bytes Bytes aBytes) (key header input : Bytes)
    (w : Streams Bytes Bytes) :
    ∃ frames, Sealed frames ∧ text frames = input ∧
      encryptLoop S key header input w =
        (frames.flatMap frameBytes, w.set key header (w key header ++ frames)) := by
  -- on the length of the input, as the loop takes a chunk from it
  induction hn : input.length using Nat.strong_induction_on generalizing input w with
  | _ n ih =>
    rw [encryptLoop]
    split
    · rename_i hshort
      let frame := S.frame key header (w key header) (input.take ioChunk) tagFinal
      refine ⟨[frame], .last rfl (S.length_cipher ..) hshort, ?_, ?_⟩
      · -- the whole input is in this chunk
        have hall : input.length ≤ ioChunk := by
          rw [length_take] at hshort
          omega
        simp [text, frame, StreamCipher.frame, take_of_length_le hall]
      · simp [StreamCipher.push, frame, frameBytes]
    · rename_i hfull
      let frame := S.frame key header (w key header) (input.take ioChunk) 0
      have hsize : (input.take ioChunk).length = ioChunk :=
        le_antisymm (length_take_le ..) (not_lt.mp hfull)
      have hless : (input.drop ioChunk).length < n := by
        simp only [length_take, length_drop, ioChunk] at *
        omega
      obtain ⟨frames, hsealed, htext, hloop⟩ := ih _ hless (input.drop ioChunk)
        (S.push w key header (input.take ioChunk) 0).1 rfl
      refine ⟨frame :: frames, .cons rfl (S.length_cipher ..) hsize hsealed, ?_, ?_⟩
      · have hsplit : text (frame :: frames) = input.take ioChunk ++ text frames := rfl
        rw [hsplit, htext, take_append_drop]
      · simp only [hloop]
        simp [StreamCipher.push, frame, frameBytes]

/-! ## Payloads -/

theorem decryptPayload_eq (w : Streams Bytes Bytes) (key : Bytes) (header : Header) (frames : Bytes) :
    decryptPayload w key (payloadMagic ++ header.val ++ frames) =
      decryptLoop frames (w key header.val) [] false := by
  have hheader := header.property
  simp [decryptPayload, append_assoc, hheader]

/-- **Sealed payloads**: whatever is given as a payload, `decrypt_payload` ends without an output
file or writes the text of one pushed stream up to its final frame; and it gives every file back
that `encrypt_payload` has sealed. -/
theorem sealed_payload (S : StreamCipher Bytes Bytes aBytes) (w : Streams Bytes Bytes) (key : Bytes) :
    (∀ payload, (∃ message, decryptPayload w key payload = .died message) ∨
      ∃ header upTo, UpToFinal (w key header) upTo ∧
        decryptPayload w key payload = .wrote (text upTo)) ∧
    ∀ (header : Header) (input : Bytes),
      decryptPayload (encryptPayload S key header input w).2 key
        (encryptPayload S key header input w).1 = .wrote input := by
  refine ⟨fun payload => ?_, fun header input => ?_⟩
  · cases hout : decryptPayload w key payload with
    | died message => exact .inl ⟨message, rfl⟩
    | wrote output =>
      unfold decryptPayload at hout
      dsimp only at hout
      split at hout
      · cases hout
      · -- what is written are the frames up to the final one
        obtain ⟨upTo, hupTo, rfl⟩ := decryptLoop_sound hout
        exact .inr ⟨_, upTo, hupTo, rfl⟩
  · obtain ⟨frames, hsealed, htext, hloop⟩ :=
      encryptLoop_eq S key header.val input (w.initPush key header.val)
    simp only [encryptPayload, hloop, decryptPayload_eq]
    simp [Streams.initPush, decryptLoop_sealed hsealed, htext]

end QModem.Seal
