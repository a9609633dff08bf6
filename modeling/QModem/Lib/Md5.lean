import Mathlib

/-!
# The MD5 Message Digest

MD5 as its standard describes it: the message is padded to whole blocks of 64 bytes, and each block
is absorbed into a chaining value of four 32-bit words by 64 operations.

## Main results

- `rounds_injective`: with a fixed block, the 64 operations lose nothing of the chaining value
- `State.toBytes_injective`: a digest determines the last chaining value
- `digest_eq`: a digest is the chaining value of the complete blocks of the message, with one or two
  blocks of padding absorbed into it
-/

namespace QModem.Lib.Md5

open List

/-- The bytes of a word, low-order byte first. -/
def wordBytes (word : UInt32) : List UInt8 :=
  [word.toUInt8, (word >>> 8).toUInt8, (word >>> 16).toUInt8, (word >>> 24).toUInt8]

/-- The four words A, B, C and D. -/
structure State where
  a : UInt32
  b : UInt32
  c : UInt32
  d : UInt32
  deriving DecidableEq, Repr

namespace State

/-- Words are added one by one, each modulo `2 ^ 32`. -/
instance : Add State := ⟨fun s t => ⟨s.a + t.a, s.b + t.b, s.c + t.c, s.d + t.d⟩⟩

instance : Zero State := ⟨⟨0, 0, 0, 0⟩⟩

theorem add_def (s t : State) : s + t = ⟨s.a + t.a, s.b + t.b, s.c + t.c, s.d + t.d⟩ := rfl

theorem zero_def : (0 : State) = ⟨0, 0, 0, 0⟩ := rfl

/-- Low-order byte of A first, high-order byte of D last. -/
def toBytes (s : State) : List UInt8 :=
  wordBytes s.a ++ wordBytes s.b ++ wordBytes s.c ++ wordBytes s.d

end State

/-- The chaining value before the first block. -/
def initial : State := ⟨0x67452301, 0xefcdab89, 0x98badcfe, 0x10325476⟩

/-! ## The 64 operations -/

def rotateLeft (x : UInt32) (n : ℕ) : UInt32 := ⟨x.toBitVec.rotateLeft n⟩

/-- The auxiliary functions of the four rounds. -/
inductive Mix where
  | F
  | G
  | H
  | I
  deriving DecidableEq, Repr

def Mix.apply : Mix → UInt32 → UInt32 → UInt32 → UInt32
  | .F, x, y, z => (x &&& y) ||| (~~~x &&& z)
  | .G, x, y, z => (x &&& z) ||| (y &&& ~~~z)
  | .H, x, y, z => x ^^^ y ^^^ z
  | .I, x, y, z => y ^^^ (x ||| ~~~z)

/-- The operation `[abcd k s i]` of a round, with the constant `T[i]` written out. -/
structure Operation where
  mix : Mix
  /-- The word of the block that is read. -/
  k : ℕ
  /-- The rotation. -/
  s : ℕ
  constant : UInt32
  deriving DecidableEq, Repr

/-- `a = b + ((a + mix(b,c,d) + X[k] + T[i]) <<< s)`.  The standard lists the operations with their
four arguments rotated, here the words are rotated instead. -/
def Operation.apply (words : List UInt32) (op : Operation) (s : State) : State where
  a := s.d
  b := s.b + rotateLeft (s.a + op.mix.apply s.b s.c s.d + words.getD op.k 0 + op.constant) op.s
  c := s.b
  d := s.c

/-- A round: sixteen operations with one auxiliary function and four rotations in turn. -/
def round (mix : Mix) (rotations : List ℕ) (ks : List ℕ) (constants : List UInt32) :
    List Operation :=
  (ks.zip constants).mapIdx fun i (k, constant) => ⟨mix, k, rotations.getD (i % 4) 0, constant⟩

def operations : List Operation :=
  round .F [7, 12, 17, 22] [0, 1, 2, 3, 4, 5, 6, 7, 8, 9, 10, 11, 12, 13, 14, 15]
    [0xd76aa478, 0xe8c7b756, 0x242070db, 0xc1bdceee, 0xf57c0faf, 0x4787c62a, 0xa8304613, 0xfd469501,
     0x698098d8, 0x8b44f7af, 0xffff5bb1, 0x895cd7be, 0x6b901122, 0xfd987193, 0xa679438e, 0x49b40821]
  ++ round .G [5, 9, 14, 20] [1, 6, 11, 0, 5, 10, 15, 4, 9, 14, 3, 8, 13, 2, 7, 12]
    [0xf61e2562, 0xc040b340, 0x265e5a51, 0xe9b6c7aa, 0xd62f105d, 0x02441453, 0xd8a1e681, 0xe7d3fbc8,
     0x21e1cde6, 0xc33707d6, 0xf4d50d87, 0x455a14ed, 0xa9e3e905, 0xfcefa3f8, 0x676f02d9, 0x8d2a4c8a]
  ++ round .H [4, 11, 16, 23] [5, 8, 11, 14, 1, 4, 7, 10, 13, 0, 3, 6, 9, 12, 15, 2]
    [0xfffa3942, 0x8771f681, 0x6d9d6122, 0xfde5380c, 0xa4beea44, 0x4bdecfa9, 0xf6bb4b60, 0xbebfbc70,
     0x289b7ec6, 0xeaa127fa, 0xd4ef3085, 0x04881d05, 0xd9d4d039, 0xe6db99e5, 0x1fa27cf8, 0xc4ac5665]
  ++ round .I [6, 10, 15, 21] [0, 7, 14, 5, 12, 3, 10, 1, 8, 15, 6, 13, 4, 11, 2, 9]
    [0xf4292244, 0x432aff97, 0xab9423a7, 0xfc93a039, 0x655b59c3, 0x8f0ccc92, 0xffeff47d, 0x85845dd1,
     0x6fa87e4f, 0xfe2ce6e0, 0xa3014314, 0x4e0811a1, 0xf7537e82, 0xbd3af235, 0x2ad7d2bb, 0xeb86d391]

/-- Word `k` of a block, low-order byte first. -/
def word (block : List UInt8) (k : ℕ) : UInt32 :=
  (block.getD (4 * k) 0).toUInt32 ||| (block.getD (4 * k + 1) 0).toUInt32 <<< 8 |||
    (block.getD (4 * k + 2) 0).toUInt32 <<< 16 ||| (block.getD (4 * k + 3) 0).toUInt32 <<< 24

def words (block : List UInt8) : List UInt32 := (List.range 16).map (word block)

def rounds (block : List UInt8) (s : State) : State :=
  operations.foldl (fun s op => op.apply (words block) s) s

/-- The result of the operations is added to the chaining value they started from. -/
def compress (block : List UInt8) (s : State) : State := s + rounds block s

/-! ## Messages -/

/-- Absorbs the first `n` blocks of `bytes` into a chaining value, with any compression function. -/
def absorb {σ : Type} (compress : List UInt8 → σ → σ) : ℕ → List UInt8 → σ → σ
  | 0, _, s => s
  | n + 1, bytes, s => absorb compress n (bytes.drop 64) (compress (bytes.take 64) s)

/-- The eight bytes of the length in bits modulo `2 ^ 64`, low-order byte first. -/
def lengthBytes (bits : ℕ) : List UInt8 :=
  (List.range 8).map fun i => UInt8.ofNat (bits >>> (8 * i))

/-- One byte `0x80`, then zeros up to eight bytes before the end of a block, then the length. -/
def padding (length : ℕ) : List UInt8 :=
  0x80 :: List.replicate ((119 - length % 64) % 64) 0 ++ lengthBytes (8 * length)

def pad (message : List UInt8) : List UInt8 := message ++ padding message.length

def digest (message : List UInt8) : List UInt8 :=
  (absorb compress ((pad message).length / 64) (pad message) initial).toBytes

-- the digest of `abc`
example : digest [0x61, 0x62, 0x63] =
    [0x90, 0x01, 0x50, 0x98, 0x3c, 0xd2, 0x4f, 0xb0, 0xd6, 0x96, 0x3f, 0x7d, 0x28, 0xe1, 0x7f, 0x72] := by
  decide +kernel

/-- The chaining value after the complete blocks of a message, before any padding. -/
def chaining (message : List UInt8) : State :=
  absorb compress (message.length / 64) message initial

/-- What follows the complete blocks. -/
def rest (message : List UInt8) : List UInt8 := message.drop (64 * (message.length / 64))

/-! ## Nothing is lost -/

/-- A rotation can be undone. -/
theorem rotateLeft_injective (n : ℕ) : Function.Injective (rotateLeft · n) := by
  intro x y h
  have hrot : x.toBitVec.rotateLeft n = y.toBitVec.rotateLeft n := UInt32.toBitVec_inj.mpr h
  refine UInt32.toBitVec_inj.mp (BitVec.eq_of_getLsbD_eq fun j hj => ?_)
  -- bit `j` is found at place `j + n` of the rotated word
  have hbit := congrArg (fun z => z.getLsbD ((j + n) % 32)) hrot
  simp only [BitVec.getLsbD_rotateLeft] at hbit
  have hn : n % 32 < 32 := Nat.mod_lt _ (by decide)
  by_cases hlow : (j + n) % 32 < n % 32
  · have hpos : 32 - n % 32 + (j + n) % 32 = j := by omega
    simpa [hlow, hpos] using hbit
  · have hpos : (j + n) % 32 - n % 32 = j := by omega
    have hlt : (j + n) % 32 < 32 := Nat.mod_lt _ (by decide)
    simpa [hlow, hpos, hlt] using hbit

/-- The four bytes of a word give it back. -/
theorem wordBytes_injective : Function.Injective wordBytes := by
  intro x y h
  simp only [wordBytes, cons.injEq, and_true, ← UInt8.toNat_inj, UInt32.toNat_toUInt8,
    UInt32.toNat_shiftRight, Nat.shiftRight_eq_div_pow] at h
  obtain ⟨h0, h1, h2, h3⟩ := h
  have hx := x.toNat_lt
  have hy := y.toNat_lt
  apply UInt32.toNat_inj.mp
  simp at h0 h1 h2 h3
  omega

theorem Operation.apply_injective (words : List UInt32) (op : Operation) :
    Function.Injective (op.apply words) := by
  intro s t h
  obtain ⟨hd, hb, hsb, hsc⟩ := State.mk.inj h
  -- three of the words are moved, and they fix everything that is added to the fourth
  rw [hsb, hsc, hd, UInt32.add_right_inj] at hb
  have ha := rotateLeft_injective op.s hb
  cases s; cases t
  simp_all

theorem rounds_injective (block : List UInt8) : Function.Injective (rounds block) := by
  unfold rounds
  generalize operations = ops
  induction ops with
  | nil => exact Function.injective_id
  | cons op ops ih => exact ih.comp (Operation.apply_injective (words block) op)

namespace State

theorem add_left_cancel_iff {s t u : State} : s + t = s + u ↔ t = u := by
  cases s; cases t; cases u
  simp [add_def]

theorem eq_add_left_iff {s t : State} : t = s + t ↔ s = 0 := by
  cases s; cases t
  simp [add_def, zero_def]

theorem toBytes_injective : Function.Injective toBytes := by
  intro s t h
  obtain ⟨h, hd⟩ := append_inj h (by simp [wordBytes])
  obtain ⟨h, hc⟩ := append_inj h (by simp [wordBytes])
  obtain ⟨ha, hb⟩ := append_inj h (by simp [wordBytes])
  cases s; cases t
  simp only [mk.injEq]
  exact ⟨wordBytes_injective ha, wordBytes_injective hb, wordBytes_injective hc,
    wordBytes_injective hd⟩

end State

/-! ## Blocks of a message -/

section

variable {σ : Type} (f : List UInt8 → σ → σ)

theorem absorb_add (m n : ℕ) (bytes : List UInt8) (s : σ) :
    absorb f (m + n) bytes s = absorb f n (bytes.drop (64 * m)) (absorb f m bytes s) := by
  induction m generalizing bytes s with
  | zero => simp [absorb]
  | succ m ih =>
    rw [Nat.add_right_comm, absorb, ih, absorb, drop_drop, Nat.mul_succ, Nat.add_comm 64]

/-- Only the blocks that are absorbed matter. -/
theorem absorb_append {n : ℕ} {xs : List UInt8} (h : 64 * n ≤ xs.length) (ys : List UInt8)
    (s : σ) : absorb f n (xs ++ ys) s = absorb f n xs s := by
  induction n generalizing xs s with
  | zero => rfl
  | succ n ih =>
    have hblock : 64 ≤ xs.length := by omega
    have hdrop : 64 * n ≤ (xs.drop 64).length := by simp; omega
    rw [absorb, absorb, take_append_of_le_length hblock, drop_append_of_le_length hblock, ih hdrop]

end

@[simp] theorem length_rest (message : List UInt8) :
    (rest message).length = message.length % 64 := by
  simp [rest]; omega

@[simp] theorem length_lengthBytes (bits : ℕ) : (lengthBytes bits).length = 8 := by
  simp [lengthBytes]

theorem length_padding (n : ℕ) : (padding n).length = 9 + (119 - n % 64) % 64 := by
  simp [padding]; omega

variable {message : List UInt8}

theorem digest_eq {n : ℕ} (hcount : (pad message).length / 64 = message.length / 64 + n) :
    digest message =
      (absorb compress n (rest message ++ padding message.length) (chaining message)).toBytes := by
  have hle : 64 * (message.length / 64) ≤ message.length := Nat.mul_div_le _ _
  rw [digest, hcount, absorb_add, pad, absorb_append _ hle, drop_append_of_le_length hle,
    chaining, rest]

/-- The length still fits into the block of the last bytes. -/
theorem digest_of_lt (h : message.length % 64 < 56) :
    digest message =
      (compress (rest message ++ padding message.length) (chaining message)).toBytes := by
  have hcount : (pad message).length / 64 = message.length / 64 + 1 := by
    simp [pad, length_padding]; omega
  have hblock : (rest message ++ padding message.length).length = 64 := by
    simp [length_padding]; omega
  rw [digest_eq hcount, absorb, absorb, take_of_length_le hblock.le]

/-- The length needs a block of its own. -/
theorem digest_of_ge (h : 56 ≤ message.length % 64) :
    digest message =
      (compress (List.replicate 56 0 ++ lengthBytes (8 * message.length))
        (compress (rest message ++ 0x80 :: List.replicate (63 - message.length % 64) 0)
          (chaining message))).toBytes := by
  have hlt : message.length % 64 < 64 := Nat.mod_lt _ (by decide)
  have hcount : (pad message).length / 64 = message.length / 64 + 2 := by
    simp [pad, length_padding]; omega
  -- the zeros of the padding end one block and begin the next
  have hzeros : (119 - message.length % 64) % 64 = 63 - message.length % 64 + 56 := by omega
  have hsplit : rest message ++ padding message.length =
      (rest message ++ 0x80 :: replicate (63 - message.length % 64) 0) ++
        (replicate 56 0 ++ lengthBytes (8 * message.length)) := by
    rw [padding, hzeros, replicate_add]
    simp
  have hfirst : (rest message ++ 0x80 :: replicate (63 - message.length % 64) 0).length = 64 := by
    simp; omega
  have hsecond : (replicate 56 (0 : UInt8) ++ lengthBytes (8 * message.length)).length = 64 := by
    simp
  rw [digest_eq hcount, hsplit, absorb, absorb, absorb, take_left' hfirst, drop_left' hfirst,
    take_of_length_le hsecond.le]

end QModem.Lib.Md5
