import QModem.Lib.Md5

/-!
# The MD5 of the SIP Gateway

`md5` of `qmodem_sipd/src/sip_gateway.c`, and where it agrees with the standard.

## Main results

- `md5Rounds_eq`: the 64 passes of the inner loop are the 64 operations of the standard
- `md5_of_lt`: the digest is right when the length still fits into the last block
- `md5_eq_digest_iff`: when the length needs a second block, the digest is right only if the
  chaining value of the complete blocks is zero
-/

namespace QModem.Sip

open Lib List

/-! ## The inner loops -/

/-- `md5_left_rotate` -/
def md5LeftRotate (value count : UInt32) : UInt32 :=
  (value <<< count) ||| (value >>> (32 - count))

def shift : List UInt32 :=
  [7, 12, 17, 22, 7, 12, 17, 22, 7, 12, 17, 22, 7, 12, 17, 22,
   5, 9, 14, 20, 5, 9, 14, 20, 5, 9, 14, 20, 5, 9, 14, 20,
   4, 11, 16, 23, 4, 11, 16, 23, 4, 11, 16, 23, 4, 11, 16, 23,
   6, 10, 15, 21, 6, 10, 15, 21, 6, 10, 15, 21, 6, 10, 15, 21]

def table : List UInt32 :=
  [0xd76aa478, 0xe8c7b756, 0x242070db, 0xc1bdceee, 0xf57c0faf, 0x4787c62a, 0xa8304613, 0xfd469501,
   0x698098d8, 0x8b44f7af, 0xffff5bb1, 0x895cd7be, 0x6b901122, 0xfd987193, 0xa679438e, 0x49b40821,
   0xf61e2562, 0xc040b340, 0x265e5a51, 0xe9b6c7aa, 0xd62f105d, 0x02441453, 0xd8a1e681, 0xe7d3fbc8,
   0x21e1cde6, 0xc33707d6, 0xf4d50d87, 0x455a14ed, 0xa9e3e905, 0xfcefa3f8, 0x676f02d9, 0x8d2a4c8a,
   0xfffa3942, 0x8771f681, 0x6d9d6122, 0xfde5380c, 0xa4beea44, 0x4bdecfa9, 0xf6bb4b60, 0xbebfbc70,
   0x289b7ec6, 0xeaa127fa, 0xd4ef3085, 0x04881d05, 0xd9d4d039, 0xe6db99e5, 0x1fa27cf8, 0xc4ac5665,
   0xf4292244, 0x432aff97, 0xab9423a7, 0xfc93a039, 0x655b59c3, 0x8f0ccc92, 0xffeff47d, 0x85845dd1,
   0x6fa87e4f, 0xfe2ce6e0, 0xa3014314, 0x4e0811a1, 0xf7537e82, 0xbd3af235, 0x2ad7d2bb, 0xeb86d391]

/-- The value of `f` before the addition. -/
def mixed (i : ℕ) (r : Md5.State) : UInt32 :=
  if i < 16 then (r.b &&& r.c) ||| (~~~r.b &&& r.d)
  else if i < 32 then (r.d &&& r.b) ||| (~~~r.d &&& r.c)
  else if i < 48 then r.b ^^^ r.c ^^^ r.d
  else r.c ^^^ (r.b ||| ~~~r.d)

/-- The value of `g`. -/
def wordIndex (i : ℕ) : ℕ :=
  if i < 16 then i
  else if i < 32 then (5 * i + 1) % 16
  else if i < 48 then (3 * i + 5) % 16
  else 7 * i % 16

/-- One pass of the inner loop over the registers `a`, `b`, `c` and `d`. -/
def md5Step (words : List UInt32) (r : Md5.State) (i : ℕ) : Md5.State :=
  let f := mixed i r + (r.a + table.getD i 0 + words.getD (wordIndex i) 0)
  { a := r.d, d := r.c, c := r.b, b := r.b + md5LeftRotate f (shift.getD i 0) }

def md5Rounds (words : List UInt32) (r : Md5.State) : Md5.State :=
  (List.range 64).foldl (md5Step words) r

/-- The loop that fills `words` from `block`. -/
def loadWords (block : List UInt8) : List UInt32 :=
  (List.range 64).foldl (fun words i =>
    words.modify (i / 4) (· ||| (block.getD i 0).toUInt32 <<< UInt32.ofNat (i % 4 * 8)))
    (List.replicate 16 0)

/-! ## The outer loop -/

/-- The last bytes of the input on a block of zeros, with `0x80` behind them. -/
def markedBlock (bytes : List UInt8) : List UInt8 :=
  (bytes ++ (List.replicate 64 0).drop bytes.length).set bytes.length 0x80

/-- The loop that writes `bit_length` into the last eight bytes of `block`. -/
def writeLength (block : List UInt8) (bitLength : UInt64) : List UInt8 :=
  (List.range 8).foldl
    (fun block i => block.set (56 + i) (bitLength >>> UInt64.ofNat (8 * i)).toUInt8) block

/-- One pass of the outer loop at `offset`.  The registers are loaded from the state once, before
the first block; when the length needs a block of its own, that block starts from the registers the
first one left behind. -/
def md5Pass (input : List UInt8) (offset : ℕ) (state : Md5.State) : Md5.State :=
  let bitLength := UInt64.ofNat input.length * 8
  let remaining := input.length - offset
  if 64 ≤ remaining then
    state + md5Rounds (loadWords ((input.drop offset).take 64)) state
  else
    let block := markedBlock ((input.drop offset).take remaining)
    if 56 ≤ remaining then
      let registers := md5Rounds (loadWords block) state
      let block := writeLength (List.replicate 64 0) bitLength
      state + registers + md5Rounds (loadWords block) registers
    else
      state + md5Rounds (loadWords (writeLength block bitLength)) state

/-- `for (offset = 0; offset <= length; offset += 64)` with its `break`. -/
def md5Loop (input : List UInt8) (offset : ℕ) (state : Md5.State) : Md5.State :=
  if offset ≤ input.length then
    if input.length - offset < 56 then md5Pass input offset state
    else md5Loop input (offset + 64) (md5Pass input offset state)
  else state
termination_by input.length + 1 - offset

/-- `state[offset / 4] >> ((offset % 4) * 8U)` for the sixteen bytes of the output. -/
def outputBytes (state : Md5.State) : List UInt8 :=
  (List.range 16).map fun offset =>
    ([state.a, state.b, state.c, state.d].getD (offset / 4) 0 >>>
      UInt32.ofNat (offset % 4 * 8)).toUInt8

/-- `md5`; the length of an input is a `size_t` well below its largest value. -/
def md5 (input : List UInt8) : List UInt8 := outputBytes (md5Loop input 0 Md5.initial)

/-! ## The inner loops are the standard's operations -/

/-- The two shifts of the source are a rotation. -/
theorem md5LeftRotate_eq {value count : UInt32} (hpos : 0 < count.toNat) (hlt : count.toNat < 32) :
    md5LeftRotate value count = Md5.rotateLeft value count.toNat := by
  have hback : (32 - count).toNat = 32 - count.toNat :=
    UInt32.toNat_sub_of_le _ _ (UInt32.le_iff_toNat_le.mpr hlt.le)
  have hrot : (Md5.rotateLeft value count.toNat).toNat =
      (value.toBitVec.rotateLeft count.toNat).toNat := rfl
  apply UInt32.toNat_inj.mp
  rw [hrot, BitVec.toNat_rotateLeft, md5LeftRotate, UInt32.toNat_or, UInt32.toNat_shiftLeft,
    UInt32.toNat_shiftRight, hback, Nat.mod_eq_of_lt hlt,
    Nat.mod_eq_of_lt (by omega : 32 - count.toNat < 32), UInt32.toNat_toBitVec]

/-- The operation of the standard that pass `i` carries out. -/
def operationAt (i : ℕ) : Md5.Operation where
  mix := if i < 16 then .F else if i < 32 then .G else if i < 48 then .H else .I
  k := wordIndex i
  s := (shift.getD i 0).toNat
  constant := table.getD i 0

theorem operations_eq : Md5.operations = (List.range 64).map operationAt := by
  decide +kernel

theorem mixed_eq (i : ℕ) (r : Md5.State) :
    mixed i r = (operationAt i).mix.apply r.b r.c r.d := by
  unfold mixed operationAt
  split_ifs <;> simp [Md5.Mix.apply, UInt32.and_comm]

theorem shift_bounds : ∀ i < 64, 0 < (shift.getD i 0).toNat ∧ (shift.getD i 0).toNat < 32 := by
  decide

/-- The four branches of the loop are the four rounds of the algorithm. -/
theorem md5Step_eq {i : ℕ} (hi : i < 64) (words : List UInt32) (r : Md5.State) :
    md5Step words r i = (operationAt i).apply words r := by
  obtain ⟨hpos, hlt⟩ := shift_bounds i hi
  have hsum : mixed i r + (r.a + table.getD i 0 + words.getD (wordIndex i) 0) =
      r.a + (operationAt i).mix.apply r.b r.c r.d + words.getD (wordIndex i) 0 +
        table.getD i 0 := by
    rw [mixed_eq]
    ac_rfl
  simp only [md5Step, hsum, md5LeftRotate_eq hpos hlt, Md5.Operation.apply]
  rfl

variable (block input : List UInt8) (state : Md5.State)

theorem loadWords_eq : loadWords block = Md5.words block := by
  simp [loadWords, Md5.words, Md5.word, List.range, List.range.loop, List.modify]

theorem md5Rounds_eq (r : Md5.State) : md5Rounds (loadWords block) r = Md5.rounds block r := by
  rw [md5Rounds, loadWords_eq, Md5.rounds, operations_eq, foldl_map]
  refine foldl_ext _ _ _ fun r i hi => ?_
  exact md5Step_eq (mem_range.mp hi) _ r

theorem outputBytes_eq : outputBytes state = state.toBytes := by
  simp [outputBytes, Md5.State.toBytes, Md5.wordBytes, range, range.loop]

/-! ## One pass of the outer loop -/

theorem markedBlock_eq {bytes : List UInt8} (h : bytes.length < 64) :
    markedBlock bytes = bytes ++ 0x80 :: List.replicate (63 - bytes.length) 0 := by
  have hzeros : 64 - bytes.length = 63 - bytes.length + 1 := by omega
  rw [markedBlock, drop_replicate, hzeros, replicate_succ]
  simp

theorem markedBlock_rest :
    markedBlock (Md5.rest input) =
      Md5.rest input ++ 0x80 :: List.replicate (63 - input.length % 64) 0 := by
  have hlt : (Md5.rest input).length < 64 := by
    rw [Md5.length_rest]
    exact Nat.mod_lt _ (by decide)
  rw [markedBlock_eq hlt, Md5.length_rest]

theorem lengthByte_eq {i : ℕ} (hi : i < 8) (n : ℕ) :
    ((UInt64.ofNat n * 8) >>> UInt64.ofNat (8 * i)).toUInt8 = UInt8.ofNat ((8 * n) >>> (8 * i)) := by
  apply UInt8.toNat_inj.mp
  interval_cases i <;> simp [Nat.shiftRight_eq_div_pow] <;> omega

theorem writeLength_eq {front : List UInt8} (hfront : front.length = 56) (n : ℕ) :
    writeLength (front ++ List.replicate 8 0) (UInt64.ofNat n * 8) =
      front ++ Md5.lengthBytes (8 * n) := by
  have hbytes : Md5.lengthBytes (8 * n) = (range 8).map fun i =>
      ((UInt64.ofNat n * 8) >>> UInt64.ofNat (8 * i)).toUInt8 :=
    map_congr_left fun i hi => (lengthByte_eq (mem_range.mp hi) n).symm
  rw [hbytes, writeLength]
  generalize UInt64.ofNat n * 8 = bitLength
  simp [range, range.loop, hfront]

variable {input : List UInt8}

theorem md5Pass_of_ge {offset : ℕ} (h : 64 ≤ input.length - offset) (state : Md5.State) :
    md5Pass input offset state = Md5.compress ((input.drop offset).take 64) state := by
  simp only [md5Pass, h, if_true, md5Rounds_eq, Md5.compress]

/-- The pass that reaches the end of the input. -/
theorem md5Pass_last :
    md5Pass input (64 * (input.length / 64)) state =
      if 56 ≤ input.length % 64 then
        let registers := Md5.rounds (markedBlock (Md5.rest input)) state
        state + registers +
          Md5.rounds (writeLength (replicate 64 0) (UInt64.ofNat input.length * 8)) registers
      else
        Md5.compress (writeLength (markedBlock (Md5.rest input)) (UInt64.ofNat input.length * 8))
          state := by
  have hremaining : input.length - 64 * (input.length / 64) = input.length % 64 := by omega
  have hrest : (input.drop (64 * (input.length / 64))).take (input.length % 64) = Md5.rest input :=
    take_of_length_le (Md5.length_rest input).le
  have hfit : ¬ 64 ≤ input.length % 64 := by omega
  simp only [md5Pass, hremaining, hrest, hfit, if_false, md5Rounds_eq, Md5.compress]

theorem md5Pass_of_lt (h : input.length % 64 < 56) (state : Md5.State) :
    md5Pass input (64 * (input.length / 64)) state =
      Md5.compress (Md5.rest input ++ Md5.padding input.length) state := by
  -- eight of the zeros behind the mark are overwritten with the length
  have hzeros : 63 - input.length % 64 = 55 - input.length % 64 + 8 := by omega
  have hpad : (119 - input.length % 64) % 64 = 55 - input.length % 64 := by omega
  rw [md5Pass_last, if_neg (Nat.not_le.mpr h), markedBlock_rest, hzeros, replicate_add,
    ← cons_append, ← append_assoc, writeLength_eq (by simp; omega), Md5.padding, hpad, append_assoc]

theorem md5Pass_of_le (h : 56 ≤ input.length % 64) (state : Md5.State) :
    md5Pass input (64 * (input.length / 64)) state =
      let registers :=
        Md5.rounds (Md5.rest input ++ 0x80 :: replicate (63 - input.length % 64) 0) state
      state + registers +
        Md5.rounds (replicate 56 0 ++ Md5.lengthBytes (8 * input.length)) registers := by
  have hzeros : replicate 64 (0 : UInt8) = replicate 56 0 ++ replicate 8 0 := by
    rw [← replicate_add]
  rw [md5Pass_last, if_pos h, markedBlock_rest, hzeros, writeLength_eq length_replicate]

/-! ## The whole loop -/

/-- The blocks that are complete are absorbed one after the other. -/
theorem md5Loop_eq {offset : ℕ} (hblock : offset % 64 = 0) (hle : offset ≤ input.length)
    (state : Md5.State) :
    md5Loop input offset state =
      md5Pass input (64 * (input.length / 64))
        (Md5.absorb Md5.compress ((input.length - offset) / 64) (input.drop offset) state) := by
  fun_induction md5Loop input offset state with
  | case1 offset state _ hlt =>
    have hzero : (input.length - offset) / 64 = 0 := by omega
    have hlast : 64 * (input.length / 64) = offset := by omega
    rw [hzero, hlast, Md5.absorb]
  | case2 offset state _ hge ih =>
    by_cases hmore : offset + 64 ≤ input.length
    · have hsucc : (input.length - offset) / 64 = (input.length - (offset + 64)) / 64 + 1 := by omega
      rw [ih (by omega) hmore, hsucc, Md5.absorb, drop_drop,
        md5Pass_of_ge (by omega : 64 ≤ input.length - offset)]
    · -- the next offset lies behind the input
      have hzero : (input.length - offset) / 64 = 0 := by omega
      have hlast : 64 * (input.length / 64) = offset := by omega
      rw [md5Loop, if_neg hmore, hzero, hlast, Md5.absorb]
  | case3 offset state hnot => exact absurd hle hnot

theorem md5_eq :
    md5 input =
      (md5Pass input (64 * (input.length / 64)) (Md5.chaining input)).toBytes := by
  rw [md5, outputBytes_eq, md5Loop_eq (Nat.zero_mod 64) (Nat.zero_le _)]
  rfl

/-- Where the length still fits into the last block, the digest is the standard's. -/
theorem md5_of_lt (h : input.length % 64 < 56) : md5 input = Md5.digest input := by
  rw [md5_eq, md5Pass_of_lt h, Md5.digest_of_lt h]

/-- Where the length needs a block of its own, the operations on that block start from the registers
instead of the sum of state and registers, and they keep the two apart. -/
theorem md5_of_ge (h : 56 ≤ input.length % 64) :
    md5 input = Md5.digest input ↔ Md5.chaining input = 0 := by
  rw [md5_eq, md5Pass_of_le h, Md5.digest_of_ge h, Md5.State.toBytes_injective.eq_iff,
    Md5.compress, Md5.compress, Md5.State.add_left_cancel_iff, (Md5.rounds_injective _).eq_iff,
    Md5.State.eq_add_left_iff]

theorem md5_eq_digest_iff :
    md5 input = Md5.digest input ↔ input.length % 64 < 56 ∨ Md5.chaining input = 0 := by
  by_cases h : input.length % 64 < 56
  · simp [h, md5_of_lt h]
  · simp [h, md5_of_ge (Nat.le_of_not_lt h)]

end QModem.Sip
