import Mathlib

/-!
# Digit Streams of a Natural Number

A stream of `w`-bit groups sent least significant group first is the base `2 ^ w` expansion of one
natural number.  Packing groups of one width into groups of another width does not change that
number, so packing and unpacking are both statements about two expansions of the same value.

## Main results

- `digit_regroup`: a group of one width out of two neighbouring groups of another width
- `digit_ofDigits`: the expansion of a list of digits gives the list back
- `digit_add_mul_two_pow_low` and `digit_add_mul_two_pow_high`: the two halves of a stream
- `appendGroups_inj`, `toNat_shiftIn`: streams with the most significant group first, through a word
-/

namespace QModem.Lib

open List Nat

/-- The `i`-th group of `w` bits of `value`, least significant group first. -/
def digit (w value i : ℕ) : ℕ :=
  (value >>> (w * i)) % 2 ^ w

/-- The first `n` groups of `w` bits of `value`. -/
def digitList (w value n : ℕ) : List ℕ :=
  (List.range n).map (digit w value)

/-! ## Single digits -/

variable (w value n i : ℕ)

theorem digit_lt : digit w value i < 2 ^ w :=
  Nat.mod_lt _ (Nat.two_pow_pos w)

theorem testBit_digit (j : ℕ) :
    (digit w value i).testBit j = (decide (j < w) && value.testBit (w * i + j)) := by
  simp [digit, testBit_mod_two_pow, testBit_shiftRight]

/-- A `w`-bit group that starts `o` bits into the `v`-bit group `i` is made of the upper bits of
group `i` and the lower bits of group `i + 1`. -/
theorem digit_regroup {w v value k i o : ℕ} (hstart : w * k = v * i + o) (ho : o ≤ v)
    (hspan : w + o ≤ 2 * v) :
    digit w value k =
      ((digit v value (i + 1) <<< (v - o)) ||| (digit v value i >>> o)) % 2 ^ w := by
  apply eq_of_testBit_eq
  intro j
  simp only [testBit_digit, testBit_mod_two_pow, testBit_or, testBit_shiftLeft, testBit_shiftRight]
  by_cases hj : j < w
  · by_cases hlow : v - o ≤ j
    · -- the bit lies in group `i + 1`
      have hpos : v * (i + 1) + (j - (v - o)) = w * k + j := by
        rw [hstart, mul_add]; omega
      have hin : j - (v - o) < v := by omega
      have hout : ¬ o + j < v := by omega
      simp [hj, hlow, hpos, hin, hout]
    · -- the bit lies in group `i`
      have hpos : v * i + (o + j) = w * k + j := by omega
      have hin : o + j < v := by omega
      simp [hj, hlow, hpos, hin]
  · simp [hj]

/-! ## Streams made of two parts -/

/-- What is added above the first bits leaves their digits as they are. -/
theorem digit_add_mul_two_pow_low {w low high n i : ℕ} (hlow : low < 2 ^ n)
    (hi : w * i + w ≤ n) : digit w (low + high * 2 ^ n) i = digit w low i := by
  apply eq_of_testBit_eq
  intro j
  simp only [testBit_digit]
  by_cases hj : j < w
  · have hlt : w * i + j < n := by omega
    rw [add_comm, mul_comm, testBit_two_pow_mul_add _ hlow]
    simp [hj, hlt]
  · simp [hj]

theorem digit_add_mul_two_pow_high {w low high n k i : ℕ} (hlow : low < 2 ^ n)
    (hn : n = w * k) : digit w (low + high * 2 ^ n) (k + i) = digit w high i := by
  apply eq_of_testBit_eq
  intro j
  simp only [testBit_digit]
  have hge : ¬ w * (k + i) + j < n := by rw [hn, mul_add]; omega
  have hsub : w * (k + i) + j - n = w * i + j := by rw [hn, mul_add]; omega
  rw [add_comm low, mul_comm high, testBit_two_pow_mul_add _ hlow]
  simp [hge, hsub]

/-! ## Expansions of digit lists -/

theorem ofDigits_lt {w : ℕ} (hw : 0 < w) (ds : List ℕ) (hds : ∀ d ∈ ds, d < 2 ^ w) :
    Nat.ofDigits (2 ^ w) ds < 2 ^ (w * ds.length) := by
  rw [pow_mul]
  exact Nat.ofDigits_lt_base_pow_length (Nat.one_lt_two_pow hw.ne') hds

/-- The expansion of a list of digits gives the digits back. -/
theorem digit_ofDigits (ds : List ℕ) (hds : ∀ d ∈ ds, d < 2 ^ w) (i : ℕ) (hi : i < ds.length) :
    digit w (Nat.ofDigits (2 ^ w) ds) i = ds[i] := by
  induction ds generalizing i with
  | nil => simp at hi
  | cons d ds ih =>
    have hd : d < 2 ^ w := hds d (mem_cons_self ..)
    have htail : ∀ x ∈ ds, x < 2 ^ w := fun x hx => hds x (mem_cons_of_mem _ hx)
    rw [ofDigits_cons, mul_comm]
    cases i with
    | zero =>
      simp [digit, mod_eq_of_lt hd]
    | succ i =>
      -- the other digits stand one place higher
      have hstep : digit w (d + ofDigits (2 ^ w) ds * 2 ^ w) (1 + i) =
          digit w (ofDigits (2 ^ w) ds) i :=
        digit_add_mul_two_pow_high hd (mul_one w).symm
      rw [add_comm 1 i] at hstep
      rw [hstep, ih htail i (by simpa using hi), getElem_cons_succ]

@[simp] theorem length_digitList : (digitList w value n).length = n := by
  simp [digitList]

theorem digitList_getElem (hi : i < (digitList w value n).length) :
    (digitList w value n)[i] = digit w value i := by
  simp [digitList]

theorem digitList_succ : digitList w value (n + 1) = digitList w value n ++ [digit w value n] := by
  simp [digitList, range_succ]

/-! ## The most significant group first -/

section Groups

/-- The number that is read when groups of `w` bits follow the number `n`. -/
def appendGroups (w n : ℕ) (groups : List ℕ) : ℕ := groups.foldl (fun n g => n * 2 ^ w + g) n

variable {w m n k : ℕ} {gs hs : List ℕ}

theorem appendGroups_append :
    appendGroups w n (gs ++ hs) = appendGroups w (appendGroups w n gs) hs :=
  foldl_append

/-- Groups can be read off the number that they spell. -/
theorem appendGroups_inj (hlen : gs.length = hs.length) (hgs : ∀ g ∈ gs, g < 2 ^ w)
    (hhs : ∀ g ∈ hs, g < 2 ^ w) (h : appendGroups w m gs = appendGroups w n hs) :
    m = n ∧ gs = hs := by
  induction gs generalizing m n hs with
  | nil =>
    obtain rfl := length_eq_zero_iff.mp hlen.symm
    exact ⟨h, rfl⟩
  | cons g gs ih =>
    cases hs with
    | nil => cases hlen
    | cons g' hs =>
      rw [forall_mem_cons] at hgs hhs
      obtain ⟨hstep, rfl⟩ := ih (succ.inj hlen) hgs.2 hhs.2 h
      -- the last group is the remainder
      have hgroup := congrArg (· % 2 ^ w) hstep
      simp only [mul_add_mod', mod_eq_of_lt hgs.1, mod_eq_of_lt hhs.1] at hgroup
      subst hgroup
      exact ⟨Nat.eq_of_mul_eq_mul_right (Nat.two_pow_pos w) (Nat.add_right_cancel hstep), rfl⟩

/-- A group that is shifted in leaves what is in front of it. -/
theorem append_div {g : ℕ} (hg : g < 2 ^ w) : (n * 2 ^ w + g) / 2 ^ (k + w) = n / 2 ^ k := by
  rw [Nat.add_comm k, pow_add, ← Nat.div_div_eq_div_mul, Nat.mul_comm n,
    Nat.mul_add_div (Nat.two_pow_pos w), Nat.div_eq_of_lt hg, Nat.add_zero]

/-- The next group of a number behind the ones in front of it. -/
theorem div_append (n w k : ℕ) : n / 2 ^ (k + w) * 2 ^ w + n / 2 ^ k % 2 ^ w = n / 2 ^ k := by
  rw [pow_add, ← Nat.div_div_eq_div_mul, Nat.div_add_mod']

/-- A group inside a word does not notice the bits that the word has lost. -/
theorem mod_div_mod (n : ℕ) (h : k + w ≤ m) : n % 2 ^ m / 2 ^ k % 2 ^ w = n / 2 ^ k % 2 ^ w := by
  apply eq_of_testBit_eq
  intro j
  simp only [testBit_mod_two_pow, testBit_div_two_pow]
  by_cases hj : j < w
  · have hlt : j + k < m := by omega
    simp [hj, hlt]
  · simp [hj]

variable {word group : UInt32}

theorem toNat_shiftAmount (h : k < 32) : (UInt32.ofNat k).toNat % 32 = k := by
  rw [UInt32.toNat_ofNat']
  omega

/-- One more group in a word of 32 bits. -/
theorem toNat_shiftIn (hword : word.toNat = n % 2 ^ 32) (hw : w < 32) (hgroup : group.toNat < 2 ^ w) :
    (word <<< UInt32.ofNat w ||| group).toNat = (n * 2 ^ w + group.toNat) % 2 ^ 32 := by
  rw [UInt32.toNat_or, UInt32.toNat_shiftLeft, toNat_shiftAmount hw, hword, ← shiftLeft_eq,
    shiftLeft_add_eq_or_of_lt hgroup, or_mod_two_pow, mod_eq_of_lt group.toNat_lt,
    shiftLeft_eq, shiftLeft_eq, mod_mul_mod]

/-- A group of a word of 32 bits. -/
theorem toNat_shiftRight_mod (hword : word.toNat = n % 2 ^ 32) (h : k + w ≤ 32) (hk : k < 32) :
    (word >>> UInt32.ofNat k).toNat % 2 ^ w = n / 2 ^ k % 2 ^ w := by
  rw [UInt32.toNat_shiftRight, toNat_shiftAmount hk, hword, shiftRight_eq_div_pow, mod_div_mod n h]

end Groups

/-! ## Printed numbers -/

/-- A number can be read off its digits in any base, whatever stands for them. -/
theorem toDigits_map_injective {α : Type} {b : ℕ} (hb : 1 < b) {f : Char → α}
    (hf : ∀ m < b, ∀ n < b, f m.digitChar = f n.digitChar → m = n) :
    Function.Injective fun n => (Nat.toDigits b n).map f := by
  intro m n h
  induction m using Nat.strong_induction_on generalizing n with
  | _ m ih =>
    simp only [toDigits_eq_if hb (n := m), toDigits_eq_if hb (n := n)] at h
    have hdigit : ∀ k, k % b < b := fun k => mod_lt k (by omega)
    split at h <;> split at h
    · next hm hn => exact hf m hm n hn (by simpa using h)
    · -- one of the numbers has more digits
      have hlength := congrArg length h
      have hpos : 0 < (toDigits b (n / b)).length := length_toDigits_pos
      simp only [map_append, length_append, length_map, length_singleton] at hlength
      omega
    · have hlength := congrArg length h
      have hpos : 0 < (toDigits b (m / b)).length := length_toDigits_pos
      simp only [map_append, length_append, length_map, length_singleton] at hlength
      omega
    · next hm hn =>
      rw [map_append, map_append, map_singleton, map_singleton] at h
      obtain ⟨hhigh, hlow⟩ := append_inj' h rfl
      have hquotient := ih (m / b) (div_lt_self (by omega) hb) hhigh
      have hremainder := hf _ (hdigit m) _ (hdigit n) (by simpa using hlow)
      rw [← div_add_mod m b, ← div_add_mod n b, hquotient, hremainder]

end QModem.Lib
