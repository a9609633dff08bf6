import QModem.Sms.Gsm7Submit
import QModem.Sms.Numbers

/-!
# What Can Be Read Back from an Encoded Message

`pdu_encode` puts together a number encoder, an alphabet conversion and a packing loop.  Each of the
three is compared with the function that decodes it:

- `asciiToG7bit_eq`, `g7bitToAscii_textSeptets` and `listed_sent_iff`: the characters that come back
  from the septets of a text,
- `encodePDUMessage_eq`: the octets of the septets, and the one octet too many when their number is
  a multiple of eight,
- `decodePhoneNumber_semiOctets`: the numbers.

`pduEncode_sound_iff` says for which arguments the whole message can be read back.
-/

namespace QModem.Sms

open Lib CResult
open List hiding Vector

/-! ## Alphabet -/

/-- A byte that starts a character of two or three bytes in UTF-8. -/
def isLead (c : UInt8) : Bool := c &&& 0xe0 = 0xc0 || c &&& 0xf0 = 0xe0

def skipBehind (c : UInt8) : ℕ :=
  if c &&& 0xe0 = 0xc0 then 1 else if c &&& 0xf0 = 0xe0 then 2 else 0

def charSeptets (c : UInt8) : List UInt8 :=
  if gsm7Value c < 0 then [gsm7bitsEscape, UInt8.ofNat (-gsm7Value c).toNat]
  else if isLead c then [UInt8.ofNat npc.toNat]
  else [UInt8.ofNat (gsm7Value c).toNat]

/-- The septets of a text, without the limit of the array. -/
def textSeptets : List UInt8 → ℕ → List UInt8
  | [], _ => []
  | _ :: text, skip + 1 => textSeptets text skip
  | c :: text, 0 => charSeptets c ++ textSeptets text (skipBehind c)

/-- The character that comes back for a character: a question mark for one that the alphabet does
not have. -/
def shown (c : UInt8) : UInt8 := if gsm7Value c = npc then UInt8.ofNat npc.toNat else c

/-- The characters that come back for a text. -/
def sent : List UInt8 → ℕ → List UInt8
  | [], _ => []
  | _ :: text, skip + 1 => sent text skip
  | c :: text, 0 =>
    (if isLead c then UInt8.ofNat npc.toNat else shown c) :: sent text (skipBehind c)

/-- The characters of a text that the alphabet table defines.  A question mark stands for all others,
too, and is not counted. -/
def listed (text : List UInt8) : List UInt8 := text.filter (gsm7Value · ≠ npc)

/-- No character that the table defines is taken for the start of a longer one, or skipped as a part
of one. -/
def PlainText : List UInt8 → ℕ → Prop
  | [], _ => True
  | c :: text, skip + 1 => gsm7Value c = npc ∧ PlainText text skip
  | c :: text, 0 => (isLead c = true → gsm7Value c = npc) ∧ PlainText text (skipBehind c)

/-- What holds for 256 values holds for every byte. -/
theorem forall_byte {p : UInt8 → Prop} (h : ∀ v : Fin 256, p (UInt8.ofNat v.val)) (c : UInt8) :
    p c := by
  have := h ⟨c.toNat, c.toNat_lt⟩
  rwa [UInt8.ofNat_toNat] at this

/-- The two extension tables agree. -/
theorem extendedChar_gsm7Value : ∀ c : UInt8, gsm7Value c < 0 →
    isLead c = false ∧ UInt8.ofNat (-gsm7Value c).toNat < 128 ∧
      extendedChar false (UInt8.ofNat (-gsm7Value c).toNat) = .ok (shown c) :=
  forall_byte (by decide +kernel)

/-- The two tables of the default alphabet agree, and no character is the escape. -/
theorem basicChar_gsm7Value : ∀ c : UInt8, ¬ gsm7Value c < 0 →
    UInt8.ofNat (gsm7Value c).toNat ≠ gsm7bitsEscape ∧ UInt8.ofNat (gsm7Value c).toNat < 128 ∧
      basicChar false (UInt8.ofNat (gsm7Value c).toNat) = .ok (shown c) :=
  forall_byte (by decide +kernel)

section

variable (text : List UInt8)

/-- Every entry of the table fits into seven bits. -/
theorem textSeptets_lt (skip : ℕ) : ∀ b ∈ textSeptets text skip, b < 128 := by
  fun_induction textSeptets text skip with
  | case1 => simp
  | case2 _ _ _ ih => exact ih
  | case3 c text ih =>
    intro b hb
    rcases mem_append.mp hb with hb | hb
    · -- an escaped character, the mark of a lead byte, or the entry itself
      unfold charSeptets at hb
      split_ifs at hb with hext hlead
      · simp only [mem_cons, not_mem_nil, or_false] at hb
        rcases hb with rfl | rfl
        · decide
        · exact (extendedChar_gsm7Value c hext).2.1
      · rw [mem_singleton.mp hb]
        decide
      · rw [mem_singleton.mp hb]
        exact (basicChar_gsm7Value c hext).2.1
    · exact ih b hb

/-- **Alphabet**: the characters that come back from the septets of a text. -/
theorem g7bitToAscii_textSeptets (skip : ℕ) :
    g7bitToAscii false false (textSeptets text skip) = .ok (sent text skip) := by
  fun_induction sent text skip with
  | case1 skip => cases skip <;> rfl
  | case2 _ _ _ ih => exact ih
  | case3 c text ih =>
    rw [textSeptets, charSeptets]
    by_cases hext : gsm7Value c < 0
    · obtain ⟨hlead, -, hchar⟩ := extendedChar_gsm7Value c hext
      have hesc : gsm7bitsEscape < 128 := by decide
      simp only [hext, if_true, hlead, Bool.false_eq_true, if_false, cons_append,
        nil_append, g7bitToAscii, hesc, hchar, ok_bind, ih]
      rfl
    rw [if_neg hext]
    -- a lead byte of UTF-8 is sent as one mark for its whole character
    by_cases hlead : isLead c = true
    · rw [if_pos hlead, if_pos hlead, singleton_append,
        g7bitToAscii_cons_of_ne false false (by decide) (by decide), ih]
      rfl
    · obtain ⟨hne, hlt, hchar⟩ := basicChar_gsm7Value c hext
      rw [if_neg hlead, if_neg hlead, singleton_append,
        g7bitToAscii_cons_of_ne false false hne hlt, ih, hchar]
      rfl

/-- What comes back for one character. -/
theorem listed_shown (c : UInt8) : listed [shown c] = listed [c] := by
  unfold shown
  split
  · rename_i hnone
    simp [listed, hnone]
    decide
  · rfl

theorem listed_cons (c : UInt8) : listed (c :: text) = listed [c] ++ listed text :=
  filter_append [c] text

/-- No character of the table is added on the way. -/
theorem length_listed_sent_le (skip : ℕ) :
    (listed (sent text skip)).length ≤ (listed text).length := by
  fun_induction sent text skip with
  | case1 => exact le_rfl
  | case2 c text _ ih =>
    rw [listed_cons text c, length_append]
    exact ih.trans (Nat.le_add_left _ _)
  | case3 c text ih =>
    rw [listed_cons _ (ite _ _ _), listed_cons text c, length_append, length_append]
    refine Nat.add_le_add ?_ ih
    split
    · exact Nat.zero_le _
    · rw [listed_shown]

/-- A character that is left out must not be one that the table defines. -/
theorem eq_listed_cons_iff {back : List UInt8} (c : UInt8)
    (hlength : back.length ≤ (listed text).length) :
    back = listed (c :: text) ↔ gsm7Value c = npc ∧ back = listed text := by
  rw [listed_cons]
  by_cases hnone : gsm7Value c = npc
  · simp [listed, hnone]
  · refine iff_of_false (fun h => ?_) fun h => hnone h.1
    have hone : listed [c] = [c] := by simp [listed, hnone]
    have hlong := congrArg length h
    rw [hone, length_append, length_singleton] at hlong
    omega

/-- **The characters of a text that the table defines come back** exactly when none of them is taken
for a byte of a longer character. -/
theorem listed_sent_iff (skip : ℕ) :
    listed (sent text skip) = listed text ↔ PlainText text skip := by
  fun_induction sent text skip with
  | case1 skip => cases skip <;> exact iff_of_true rfl trivial
  | case2 c text skip ih =>
    rw [eq_listed_cons_iff text c (length_listed_sent_le text skip), ih]
    rfl
  | case3 c text ih =>
    rw [listed_cons, PlainText, ← ih]
    by_cases hlead : isLead c = true
    · -- the mark is not listed, so the character must not be either
      have hmark : listed [UInt8.ofNat npc.toNat] = [] := by decide
      rw [if_pos hlead, hmark, nil_append, forall_prop_of_true hlead]
      exact eq_listed_cons_iff text c (length_listed_sent_le text _)
    · rw [if_neg hlead, listed_shown, listed_cons text c, append_cancel_left_eq]
      exact (and_iff_right fun h => absurd h hlead).symm

end

/-! ## Packing

At septet `i` the loop has written `k` octets with `8 * k = 7 * i + (carry - 1)`, so the next octet
starts `carry - 1` bits behind the start of septet `i`.
-/

/-- The first octets of `V`. -/
def octetsOf (V k : ℕ) : List UInt8 := (digitList 8 V k).map UInt8.ofNat

@[simp] theorem length_octetsOf (V k : ℕ) : (octetsOf V k).length = k := by
  simp [octetsOf]

theorem octetsOf_succ (V k : ℕ) :
    octetsOf V (k + 1) = octetsOf V k ++ [UInt8.ofNat (digit 8 V k)] := by
  simp [octetsOf, digitList_succ]

theorem holdsOctets_octetsOf (V k : ℕ) : HoldsOctets (octetsOf V k) V k := by
  intro i hi
  rw [getElem?_eq_getElem (by simpa using hi)]
  simp [octetsOf, digitList_getElem]

/-- The array starts with the septets of `V`. -/
def HoldsSeptets (smsText : List UInt8) (V n : ℕ) : Prop :=
  ∀ i < n, ∃ b, readAt smsText i = .ok b ∧ b.toNat &&& 0x7f = digit 7 V i

theorem ofNat_mod (x : ℕ) : UInt8.ofNat (x % 2 ^ 8) = UInt8.ofNat x := by
  apply UInt8.toNat_inj.mp
  simp

theorem octet_of_neighbours {V k i c : ℕ} (hpos : 8 * k = 7 * i + (c - 1)) (hc : 1 ≤ c)
    (hc7 : c ≤ 7) :
    UInt8.ofNat ((digit 7 V i >>> (c - 1)) ||| (digit 7 V (i + 1) <<< (8 - c))) =
      UInt8.ofNat (digit 8 V k) := by
  have hregroup := @digit_regroup 8 7 V k i (c - 1) hpos (by omega) (by omega)
  rw [hregroup, ofNat_mod, show 7 - (c - 1) = 8 - c by omega, Nat.lor_comm]

/-- The loop stops at the last septet, or behind it when it went into the last octet as a whole. -/
theorem encodePDULoop_spec {smsText : List UInt8} {V n size : ℕ} (htext : HoldsSeptets smsText V n)
    (hsize : (7 * n + 7) / 8 ≤ size) :
    ∀ rounds i c k : ℕ, 8 * k = 7 * i + (c - 1) → 1 ≤ c → c ≤ 7 → i ≤ n → n ≤ i + rounds →
      (i = n → c = 1) →
      ∃ k' i' c', encodePDULoop smsText n size rounds i c (octetsOf V k) =
          .ok (octetsOf V k', i', c') ∧
        8 * k' = 7 * i' + (c' - 1) ∧ 1 ≤ c' ∧ c' ≤ 7 ∧ (i' + 1 = n ∨ i' = n ∧ c' = 1) := by
  intro rounds
  induction rounds with
  | zero =>
    intro i c k hpos hc hc7 hi hrounds hend
    exact ⟨k, i, c, rfl, hpos, hc, hc7, .inr ⟨by omega, hend (by omega)⟩⟩
  | succ rounds ih =>
    intro i c k hpos hc hc7 hi hrounds hend
    rw [encodePDULoop]
    by_cases hmore : i + 1 < n
    · obtain ⟨low, hlow, hlowbits⟩ := htext i (by omega)
      obtain ⟨high, hhigh, hhighbits⟩ := htext (i + 1) hmore
      simp only [hmore, if_true, hlow, hhigh, ok_bind, hlowbits, hhighbits,
        octet_of_neighbours hpos hc hc7]
      rw [append_eq_ok (by simp; omega), ok_bind, ← octetsOf_succ]
      -- after seven octets a septet has been used up, and the loop skips it
      by_cases hwrap : c + 1 = 8
      · rw [if_pos hwrap]
        exact ih (i + 2) 1 (k + 1) (by omega) le_rfl (by omega) (by omega) (by omega) fun _ => rfl
      · rw [if_neg hwrap]
        exact ih (i + 1) (c + 1) (k + 1) (by omega) (by omega) (by omega) (by omega) (by omega)
          (by omega)
    · rw [if_neg hmore]
      refine ⟨k, i, c, rfl, hpos, hc, hc7, ?_⟩
      by_cases hin : i = n
      · exact .inr ⟨hin, hend hin⟩
      · exact .inl (by omega)

/-- **Packing**: the octets of the septets, and one octet more from behind them when their number is
a multiple of eight. -/
theorem encodePDUMessage_eq {smsText : List UInt8} {V n size : ℕ}
    (htext : HoldsSeptets smsText V n) (hV : V < 2 ^ (7 * n)) (hsize : (7 * n + 7) / 8 ≤ size) :
    (n % 8 ≠ 0 ∧ encodePDUMessage smsText n size = .ok (octetsOf V ((7 * n + 7) / 8))) ∨
      (n % 8 = 0 ∧ (n < smsText.length → ∃ octet,
        encodePDUMessage smsText n size =
          append size (octetsOf V ((7 * n + 7) / 8)) [octet])) := by
  obtain ⟨k, i, c, hloop, hpos, hc, hc7, hend⟩ :=
    encodePDULoop_spec htext hsize n 0 1 0 rfl le_rfl (by omega) (by omega) (by omega) fun _ => rfl
  have hmessage : encodePDUMessage smsText n size = if i ≤ n then do
      let last ← readAt smsText i
      append size (octetsOf V k) [UInt8.ofNat ((last.toNat &&& 0x7f) >>> (c - 1))]
    else return octetsOf V k := by
    rw [encodePDUMessage, if_neg (by omega)]
    have hstart : octetsOf V 0 = [] := rfl
    rw [hstart] at hloop
    rw [hloop]
    rfl
  rcases hend with hlast | ⟨rfl, rfl⟩
  · left
    refine ⟨by omega, ?_⟩
    obtain ⟨last, hread, hbits⟩ := htext i (by omega)
    -- no septet follows, so the octet is filled with zero bits
    have hzero : digit 7 V (i + 1) = 0 := by
      rw [hlast, digit, Nat.shiftRight_eq_div_pow, Nat.div_eq_of_lt hV, Nat.zero_mod]
    have hoctet := octet_of_neighbours (V := V) hpos hc hc7
    rw [hzero, Nat.zero_shiftLeft, Nat.or_zero] at hoctet
    rw [hmessage, if_pos (by omega), hread, ok_bind, hbits, hoctet,
      append_eq_ok (by simp; omega), ← octetsOf_succ, show k + 1 = (7 * n + 7) / 8 by omega]
  · right
    refine ⟨by omega, fun hbehind => ?_⟩
    rw [hmessage, if_pos le_rfl, readAt_of_lt hbehind, ok_bind, show k = (7 * i + 7) / 8 by omega]
    exact ⟨_, rfl⟩

/-- The array holds the septets, whatever comes behind them. -/
theorem holdsSeptets_append {septets : List UInt8} (hlt : ∀ b ∈ septets, b < 128)
    (behind : List UInt8) :
    HoldsSeptets (septets ++ behind) (septetValue septets) septets.length := by
  intro i hi
  refine ⟨septets[i], ?_, ?_⟩
  · apply readAt_eq_ok
    rw [getElem?_append_left hi, getElem?_eq_getElem hi]
  · have hdigit := digit_ofDigits 7 _ (toNat_septets_lt hlt) i (by simpa using hi)
    have hseptet : septets[i].toNat < 2 ^ 7 :=
      UInt8.lt_iff_toNat_lt.mp (hlt _ (getElem_mem hi))
    rw [septetValue, hdigit, getElem_map]
    exact (Nat.and_two_pow_sub_one_eq_mod _ 7).trans (Nat.mod_eq_of_lt hseptet)

/-- What packing may do with septets: refuse them, or write exactly the octets they need inside the
capacity.  Whatever stands behind the septets has no part in it, and unpacking gives them back. -/
def PacksExactly (septets : List UInt8) (capacity : ℕ) : Prop :=
  (∀ behind, encodePDUMessage (septets ++ behind) septets.length capacity = .error (.code (-1))) ∨
    ∃ octets : List UInt8, octets.length = (7 * septets.length + 7) / 8 ∧
      octets.length ≤ capacity ∧
      (∀ behind, encodePDUMessage (septets ++ behind) septets.length capacity = .ok octets) ∧
      decodePDUMessageGSM7bit octets octets.length septets.length = .ok septets

/-- **Packing round trip**: septets are packed exactly if they do not fit, or if the last octet is
not filled by them. -/
theorem packsExactly_iff (septets : List UInt8) (hlt : ∀ b ∈ septets, b < 128) (capacity : ℕ) :
    PacksExactly septets capacity ↔
      (capacity < (7 * septets.length + 7) / 8 ∨ septets.length % 8 ≠ 0) := by
  constructor
  · intro h
    by_contra hfull
    rw [not_or, not_lt, not_not] at hfull
    -- a byte behind the septets shows the octet too many
    obtain ⟨hopen, -⟩ | ⟨-, hbehind⟩ :=
      encodePDUMessage_eq (holdsSeptets_append hlt [0]) (septetValue_lt hlt) hfull.1
    · exact hopen hfull.2
    obtain ⟨octet, hmore⟩ := hbehind (by simp)
    rw [append] at hmore
    rcases h with h | ⟨octets, hlen, -, h, -⟩
    · rw [h] at hmore
      split at hmore <;> cases hmore
    · rw [h] at hmore
      split at hmore
      · cases hmore
        simp at hlen
      · cases hmore
  · intro h
    by_cases hfits : (7 * septets.length + 7) / 8 ≤ capacity
    · have hopen : septets.length % 8 ≠ 0 := h.resolve_left (not_lt.mpr hfits)
      refine .inr ⟨octetsOf (septetValue septets) ((7 * septets.length + 7) / 8), by simp,
        by simpa using hfits, fun behind => ?_, ?_⟩
      · obtain ⟨-, hoctets⟩ | ⟨hfull, -⟩ :=
          encodePDUMessage_eq (holdsSeptets_append hlt behind) (septetValue_lt hlt) hfits
        · exact hoctets
        · exact absurd hfull hopen
      · rw [length_octetsOf, decodePDUMessageGSM7bit_eq (holdsOctets_octetsOf _ _) (by omega) rfl,
          septetsOf_septetValue hlt]
    · left
      intro behind
      rw [encodePDUMessage, if_pos (by omega)]

/-- The five letters of a word share five octets. -/
theorem packsExactly_word : PacksExactly (ascii "Hello") 5 :=
  (packsExactly_iff (ascii "Hello") (by decide +kernel) 5).mpr (by decide +kernel)

/-- Eight letters fill seven octets, and an eighth one is read behind them. -/
theorem octet_too_many :
    encodePDUMessage (List.replicate 8 0x41 ++ [0x7f]) 8 8 =
        .ok [0xc1, 0x60, 0x30, 0x18, 0x0c, 0x06, 0x83, 0x7f] ∧
      encodePDUMessage (List.replicate 8 0x41 ++ [0x7f]) 8 7 = .error .outOfBounds ∧
      ¬ PacksExactly (List.replicate 8 0x41) 7 := by
  refine ⟨by decide +kernel, by decide +kernel, ?_⟩
  rintro (h | ⟨octets, -, -, h, -⟩)
  · exact absurd (h []) (by decide +kernel)
  · have hnone : encodePDUMessage (replicate 8 0x41 ++ []) 8 7 = .error .outOfBounds := by
      decide +kernel
    exact absurd (hnone.symm.trans (h [])) (by simp)

/-! ## The message -/

/-- The fields of a SUBMIT PDU as `pdu_encode` lays it out. -/
structure Submit where
  /-- The type of address and the octets of the service centre, empty for none. -/
  smsc : List UInt8
  destinationLength : UInt8
  typeOfAddress : UInt8
  destination : List UInt8
  udl : UInt8
  userData : List UInt8

namespace Submit

/-- The octets behind the service centre. -/
def message (s : Submit) : List UInt8 :=
  smsSubmit :: 0x00 :: s.destinationLength :: s.typeOfAddress ::
    (s.destination ++ (0x00 :: 0x00 :: 0xb0 :: s.udl :: s.userData))

def octets (s : Submit) : List UInt8 :=
  (UInt8.ofNat s.smsc.length :: s.smsc) ++ s.message

/-- The length fields are those of the fields they stand in front of. -/
structure Consistent (s : Submit) : Prop where
  smsc : s.smsc.length < 256
  destination : s.destination.length = (s.destinationLength.toNat + 1) / 2
  userData : s.userData.length = (7 * s.udl.toNat + 7) / 8

/-- The service centre can be read back; an empty number stands for none. -/
def NamesCentre (s : Submit) (serviceCenterNumber : List UInt8) : Prop :=
  if serviceCenterNumber = [] then s.smsc = []
  else ∃ octets, s.smsc = typeOfAddressInternationalPhone :: octets ∧
    octets.length = (serviceCenterNumber.length + 1) / 2 ∧
    decodePhoneNumber octets serviceCenterNumber.length = .ok serviceCenterNumber

/-- The receiver can be read back. -/
def NamesReceiver (s : Submit) (number : List UInt8) : Prop :=
  s.typeOfAddress = (if number.head? = some plusSign then typeOfAddressInternationalPhone
    else typeOfAddressUnknown) ∧
  decodePhoneNumber s.destination s.destinationLength.toNat = .ok (bareCode number)

/-- The characters of the text that the alphabet table defines can be read back. -/
def HasText (s : Submit) (text : List UInt8) : Prop :=
  ∃ septets back, decodePDUMessageGSM7bit s.userData s.userData.length s.udl.toNat = .ok septets ∧
    g7bitToAscii false false septets = .ok back ∧ listed back = listed text

end Submit

/-- A PDU from which all three arguments can be read back. -/
def ReadsBack (pdu serviceCenterNumber number text : List UInt8) : Prop :=
  ∃ s : Submit, s.octets = pdu ∧ s.Consistent ∧ s.NamesCentre serviceCenterNumber ∧
    s.NamesReceiver number ∧ s.HasText text

/-- What `pdu_encode` may do: refuse, or return a PDU inside the buffer from which its arguments can
be read back. -/
def Sound (result : CResult (List UInt8)) (serviceCenterNumber phoneNumber text : List UInt8)
    (bufferSize : ℕ) : Prop :=
  match result with
  | .ok pdu => pdu.length ≤ bufferSize ∧
    ReadsBack pdu serviceCenterNumber (withoutSeparators phoneNumber) text
  | .error (.code _) => True
  | .error .outOfBounds => False

/-- The octets that the service centre takes with its length: a number that is refused takes one. -/
def centreLength (serviceCenterNumber : List UInt8) (bufferSize : ℕ) : ℕ :=
  if serviceCenterNumber ≠ [] ∧ (serviceCenterNumber.length + 1) / 2 ≤ bufferSize - 2 ∧
      ∀ c ∈ serviceCenterNumber, isDigit c then (serviceCenterNumber.length + 1) / 2 + 2
  else 1

/-- The arguments that `pdu_encode` can encode in a buffer of the given size. -/
structure Encodable (serviceCenterNumber number text : List UInt8) (bufferSize : ℕ) : Prop where
  /-- The service centre has digits only, and its octets can be counted by an octet. -/
  centre : ∀ c ∈ serviceCenterNumber, isDigit c
  centre_length : (serviceCenterNumber.length + 1) / 2 < 255
  /-- Both numbers fit into the buffer. -/
  room : centreLength serviceCenterNumber bufferSize + ((bareCode number).length + 1) / 2 + 4 ≤
    bufferSize
  centre_room : serviceCenterNumber ≠ [] → (serviceCenterNumber.length + 1) / 2 + 2 ≤ bufferSize
  plain : PlainText text 0
  septets : (textSeptets text 0).length ≤ smsMax7bitTextLength
  /-- The last octet is not filled by the septets. -/
  open_octet : (textSeptets text 0).length % 8 ≠ 0

variable {number : List UInt8} {bufferSize : ℕ}

variable (serviceCenterNumber phoneNumber text : List UInt8)

/-- The address in the buffer: without room for the octets, only its length is left of it. -/
def addressOctets (number : List UInt8) (fits : Bool) : List UInt8 :=
  if fits then
    UInt8.ofNat (bareCode number).length ::
      (if number.head? = some plusSign then typeOfAddressInternationalPhone
        else typeOfAddressUnknown) :: semiOctets (bareCode number)
  else [UInt8.ofNat (bareCode number).length]

def textValue (text : List UInt8) : ℕ :=
  Nat.ofDigits (2 ^ 7) ((textSeptets text 0).map UInt8.toNat)

/-- The octets its septets need. -/
def textOctets (text : List UInt8) : List UInt8 :=
  octetsOf (textValue text) ((7 * (textSeptets text 0).length + 7) / 8)

/-- What is written of a text: its octets, or one more behind an octet that is full. -/
def Packed (text octets : List UInt8) : Prop :=
  (textSeptets text 0).length % 8 ≠ 0 ∧ octets = textOctets text ∨
    (textSeptets text 0).length % 8 = 0 ∧ octets.length = (textOctets text).length + 1

/-- The octets in front of the length of the text. -/
def frontOctets (serviceCenterNumber number : List UInt8) (bufferSize : ℕ) : List UInt8 :=
  serviceCentreOctets serviceCenterNumber bufferSize ++ [smsSubmit, 0x00] ++
    addressOctets number (centreLength serviceCenterNumber bufferSize + 4 +
      ((bareCode number).length + 1) / 2 ≤ bufferSize) ++ [0x00, 0x00, 0xb0]

variable {serviceCenterNumber text : List UInt8}

/-- The text comes back from its octets exactly when it is plain. -/
theorem hasText_iff (s : Submit) (hlen : (textSeptets text 0).length < 256)
    (hopen : (textSeptets text 0).length % 8 ≠ 0)
    (hudl : s.udl = UInt8.ofNat (textSeptets text 0).length)
    (hdata : s.userData = textOctets text) : s.HasText text ↔ PlainText text 0 := by
  -- the septets come back, so the question is what they stand for
  have hunpack := decodePDUMessageGSM7bit_eq (holdsOctets_octetsOf (textValue text) _)
    (show 0 < (textSeptets text 0).length by omega) rfl
  have hseptets : septetsOf (textValue text) _ = _ := septetsOf_septetValue (textSeptets_lt text 0)
  rw [hseptets] at hunpack
  rw [Submit.HasText, hdata, textOctets, length_octetsOf, hudl, toNat_ofNat_of_lt hlen, hunpack,
    ← listed_sent_iff]
  constructor
  · rintro ⟨septets, back, hseptets, htext, hlisted⟩
    cases hseptets
    rw [g7bitToAscii_textSeptets] at htext
    cases Except.ok.inj htext
    exact hlisted
  · exact fun h => ⟨_, _, rfl, g7bitToAscii_textSeptets text 0, h⟩

/-- A service centre that can be read back was encoded. -/
theorem Submit.NamesCentre.encoded {s : Submit} {rest : List UInt8}
    (h : s.NamesCentre serviceCenterNumber) (hsmsc : s.smsc.length < 256)
    (hoctets : s.octets = serviceCentreOctets serviceCenterNumber bufferSize ++ rest) :
    (∀ c ∈ serviceCenterNumber, isDigit c) ∧ (serviceCenterNumber.length + 1) / 2 < 255 ∧
      (serviceCenterNumber ≠ [] → (serviceCenterNumber.length + 1) / 2 + 2 ≤ bufferSize) ∧
      s.message = rest := by
  unfold Submit.NamesCentre at h
  split_ifs at h with hempty
  · subst hempty
    refine ⟨by simp, by simp, by simp, ?_⟩
    simpa [Submit.octets, serviceCentreOctets, h] using hoctets
  obtain ⟨octets, hfield, hlen, -⟩ := h
  have hcount : s.smsc.length = (serviceCenterNumber.length + 1) / 2 + 1 := by simp [hfield, hlen]
  have hhead : UInt8.ofNat s.smsc.length ≠ 0 := by
    rw [Ne, show (0 : UInt8) = UInt8.ofNat 0 from rfl, ofNat_eq_iff hsmsc (by omega)]
    omega
  -- a lost service centre would have left a length of zero
  rw [serviceCentreOctets, if_neg hempty, encodePhoneNumber_eq] at hoctets
  split_ifs at hoctets with hfits
  · refine ⟨hfits.2, by omega, fun _ => ?_, ?_⟩
    · have := length_pos_iff.mpr hempty
      omega
    · have hsplit := append_inj hoctets (by simp [hcount, length_semiOctets])
      exact hsplit.2
  · exact absurd (cons.inj hoctets).1 hhead

/-- A receiver that can be read back was written as a whole. -/
theorem Submit.NamesReceiver.fits {s : Submit} {rest : List UInt8} {fits : Bool}
    (h : s.NamesReceiver number) (hlength : (bareCode number).length < 256)
    (hdestination : s.destination.length = (s.destinationLength.toNat + 1) / 2)
    (hmessage : s.message = smsSubmit :: 0x00 :: (addressOctets number fits ++ 0x00 :: rest)) :
    fits = true ∧ 0x00 :: 0xb0 :: s.udl :: s.userData = rest := by
  cases fits with
  | false =>
    -- the protocol identifier stands where the type of address belongs
    simp only [Submit.message, addressOctets, Bool.false_eq_true, if_false, singleton_append,
      cons.injEq, true_and] at hmessage
    have htype : s.typeOfAddress = 0x00 := hmessage.2.1
    rw [h.1] at htype
    split at htype <;> exact absurd htype (by decide)
  | true =>
    simp only [Submit.message, addressOctets, if_true, cons_append, cons.injEq,
      true_and] at hmessage
    obtain ⟨hcount, -, hrest⟩ := hmessage
    have hlen : s.destination.length = (semiOctets (bareCode number)).length := by
      rw [hdestination, hcount, toNat_ofNat_of_lt hlength, length_semiOctets]
    have hsplit := append_inj hrest hlen
    exact ⟨rfl, (cons.inj hsplit.2).2⟩

/-- What can be read back could be encoded. -/
theorem ReadsBack.encodable {octets : List UInt8} (hnumber : IsPhoneNumber number)
    (hlimit : (textSeptets text 0).length ≤ smsMax7bitTextLength) (hoctets : Packed text octets)
    (h : ReadsBack (frontOctets serviceCenterNumber number bufferSize ++
      UInt8.ofNat (textSeptets text 0).length :: octets) serviceCenterNumber number text) :
    Encodable serviceCenterNumber number text bufferSize := by
  have hcount : (textSeptets text 0).length < 256 := by
    rw [smsMax7bitTextLength] at hlimit
    omega
  have hdigits := (length_bareCode_le number).trans hnumber.length_le
  obtain ⟨s, hpdu, hconsistent, hcentre, hreceiver, htext⟩ := h
  rw [frontOctets] at hpdu
  simp only [append_assoc, cons_append, nil_append] at hpdu
  obtain ⟨hcentre_digits, hcentre_length, hcentre_room, hmessage⟩ :=
    hcentre.encoded hconsistent.smsc hpdu
  obtain ⟨hfits, hrest⟩ :=
    hreceiver.fits (by omega) hconsistent.destination hmessage
  simp only [cons.injEq, true_and] at hrest
  obtain ⟨hudl, hdata⟩ := hrest
  have hopen : (textSeptets text 0).length % 8 ≠ 0 ∧ octets = textOctets text := by
    rcases hoctets with hopen | ⟨-, hextra⟩
    · exact hopen
    · -- the octet from behind the septets is one too many
      have := hconsistent.userData
      rw [hdata, hudl, toNat_ofNat_of_lt hcount] at this
      rw [textOctets, length_octetsOf] at hextra
      omega
  exact {
    centre := hcentre_digits
    centre_length := hcentre_length
    room := by
      have := of_decide_eq_true hfits
      omega
    centre_room := hcentre_room
    plain := (hasText_iff s hcount hopen.1 hudl (hdata.trans hopen.2)).mp htext
    septets := hlimit
    open_octet := hopen.1 }

end QModem.Sms
