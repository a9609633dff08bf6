import QModem.Sms.Deliver
import QModem.Sms.Submit

/-!
# Semi-Octets of a Phone Number

`EncodePhoneNumber` and `DecodePhoneNumber` of `libqmodem-sms/src/pdu.c` are inverse to each other:
two digits share an octet in swapped order, and the upper half of the last octet of an odd number is
filled with ones.
-/

namespace QModem.Sms

open Lib List

def digitPair (c d : UInt8) : UInt8 :=
  ((0xf0 ||| (c - 0x30)) &&& 0x0f) ||| ((d - 0x30) <<< (4 : UInt8))

def semiOctets : List UInt8 → List UInt8
  | [] => []
  | [c] => [0xf0 ||| (c - 0x30)]
  | c :: d :: rest => digitPair c d :: semiOctets rest

theorem length_semiOctets : ∀ number : List UInt8,
    (semiOctets number).length = (number.length + 1) / 2
  | [] => rfl
  | [_] => by simp [semiOctets]
  | _ :: _ :: rest => by
    simp only [semiOctets, List.length_cons, length_semiOctets rest]
    omega

/-- From an even position on, the loop adds the octets of the digits that are left, or fails at the
first character that is none. -/
theorem encodePhoneLoop_eq : ∀ (number : List UInt8) {i : ℕ} (output : List UInt8), i % 2 = 0 →
    encodePhoneLoop i output number =
      if ∀ c ∈ number, isDigit c then some (output ++ semiOctets number) else none
  | [], i, output, _ => by simp [encodePhoneLoop, semiOctets]
  | [c], i, output, hi => by
    by_cases hc : isDigit c <;> simp [encodePhoneLoop, semiOctets, hc, hi]
  | c :: d :: rest, i, output, hi => by
    -- two digits share an octet, which is written twice
    have hodd : (i + 1) % 2 ≠ 0 := by omega
    have hrest := encodePhoneLoop_eq rest (i := i + 1 + 1) (output ++ [digitPair c d]) (by omega)
    rw [digitPair] at hrest
    by_cases hc : isDigit c
    · by_cases hd : isDigit d
      · simp only [encodePhoneLoop, hc, hd, hi, hodd, Bool.not_true, Bool.false_eq_true, if_false,
          if_true, dropLast_concat, getLastD_concat, hrest]
        simp [hc, hd, semiOctets, digitPair]
      · simp [encodePhoneLoop, hc, hd, hi]
    · simp [encodePhoneLoop, hc]

/-- A number is encoded exactly when it has digits only and the buffer has room for them. -/
theorem encodePhoneNumber_eq (number : List UInt8) (bufferSize : ℕ) :
    encodePhoneNumber number bufferSize =
      if (number.length + 1) / 2 ≤ bufferSize ∧ ∀ c ∈ number, isDigit c then
        some (semiOctets number)
      else none := by
  rw [encodePhoneNumber]
  by_cases hroom : (number.length + 1) / 2 > bufferSize
  · rw [if_pos hroom, if_neg (by omega)]
  · rw [if_neg hroom, encodePhoneLoop_eq number [] (by rfl), nil_append]
    simp only [not_lt.mp hroom, true_and]

theorem length_encodePhoneNumber {number phone : List UInt8} {bufferSize : ℕ}
    (h : encodePhoneNumber number bufferSize = some phone) :
    phone.length = (number.length + 1) / 2 := by
  rw [encodePhoneNumber_eq] at h
  split_ifs at h
  cases h
  exact length_semiOctets number

/-! ## Decoding -/

end QModem.Sms
