import QModem.Sms.Pdu

/-!
# DELIVER Messages

The layout of a DELIVER PDU, and the reduction of `decodePdu` on such a PDU to its user data.

The bounds carried by the structures are those of the fields themselves and of the buffers
`decode_pdu` declares, all wider than what 3GPP TS 23.040 allows for a message on the air.
-/

namespace QModem.Sms

open Lib List CResult

/-! ## Layout -/

/-- The originating address.  An alphanumeric address names somebody, so it is not empty. -/
structure Address where
  /-- Number of semi-octets. -/
  length : UInt8
  typeOfAddress : UInt8
  octets : List UInt8
  octets_length : octets.length = (length.toNat + 1) / 2
  fits : length.toNat < phoneNumberSize
  named : typeOfAddress = typeOfAddressAlphanumeric → 0 < length.toNat

/-- Everything of a DELIVER PDU except its coding scheme and user data. -/
structure Envelope where
  smsc : List UInt8
  smsc_length : smsc.length < 256
  /-- The first octet, whose header indication is set from the user data. -/
  flags : UInt8
  sender : Address
  pid : UInt8
  scts : List UInt8
  scts_length : scts.length = 7

/-- The envelope of a message from the number 12. -/
def Envelope.fromTwelve : Envelope where
  smsc := []
  smsc_length := by decide
  flags := 0x04
  sender := {
    length := 2
    typeOfAddress := 0x81
    octets := [0x21]
    octets_length := by decide
    fits := by decide
    named := by decide }
  pid := 0
  scts := [0x62, 0x90, 0x11, 0x21, 0x43, 0x65, 0x00]
  scts_length := by decide

/-- The first octet with the user data header indication. -/
def Envelope.firstOctet (e : Envelope) (udhi : Bool) : UInt8 :=
  if udhi then e.flags ||| 0x40 else e.flags &&& 0xbf

/-- The octets in front of the user data. -/
def Envelope.front (e : Envelope) (udhi : Bool) (dcs udl : UInt8) : List UInt8 :=
  UInt8.ofNat e.smsc.length :: e.smsc ++
    (e.firstOctet udhi :: e.sender.length :: e.sender.typeOfAddress :: e.sender.octets) ++
    (e.pid :: dcs :: e.scts) ++ [udl]

def Envelope.deliver (e : Envelope) (udhi : Bool) (dcs udl : UInt8) (ud : List UInt8) :
    List UInt8 :=
  e.front udhi dcs udl ++ ud

structure InfoElement where
  iei : UInt8
  data : List UInt8
  fits : data.length < 256

def InfoElement.octets (ie : InfoElement) : List UInt8 :=
  ie.iei :: UInt8.ofNat ie.data.length :: ie.data

/-- A well-formed user data header: its elements fill the declared length. -/
structure UserDataHeader where
  elements : List InfoElement
  fits : (elements.flatMap InfoElement.octets).length < 256

namespace UserDataHeader

/-- The elements without the length octet. -/
def body (h : UserDataHeader) : List UInt8 :=
  h.elements.flatMap InfoElement.octets

def octets (h : UserDataHeader) : List UInt8 :=
  UInt8.ofNat h.body.length :: h.body

theorem toNat_length (h : UserDataHeader) :
    (UInt8.ofNat h.body.length).toNat = h.body.length := by
  have hlt : h.body.length < 2 ^ 8 := h.fits
  simpa using Nat.mod_eq_of_lt hlt

end UserDataHeader

/-- What an element contributes to the parsed header. -/
def InfoElement.apply (info : UdhInfo) (ie : InfoElement) : UdhInfo :=
  let info := { info with
    turkishLocking := info.turkishLocking || (ie.iei = 0x24 && ie.data.head? = some 0x01)
    turkishSingle := info.turkishSingle || (ie.iei = 0x25 && ie.data.head? = some 0x01) }
  match ie.data with
  | [ref, total, part] =>
    if ie.iei = 0x00 then
      { info with concatRef := ref.toNat, concatTotal := total.toNat, concatPart := part.toNat }
    else info
  | [high, low, total, part] =>
    if ie.iei = 0x08 then
      { info with
        concatRef := (high.toNat <<< 8) ||| low.toNat
        concatTotal := total.toNat
        concatPart := part.toNat }
    else info
  | _ => info

/-- What the whole header says. -/
def UserDataHeader.info (h : UserDataHeader) : UdhInfo :=
  dropSinglePart (h.elements.foldl InfoElement.apply { present := true, bytes := h.body.length + 1 })

/-! ## Parsing a well-formed header -/

variable {n : ℕ} {buffer : List UInt8}

theorem toNat_ofNat_of_lt (h : n < 256) : (UInt8.ofNat n).toNat = n := by
  simpa using Nat.mod_eq_of_lt (show n < 2 ^ 8 from h)

theorem ofNat_eq_iff {m : ℕ} (hn : n < 256) (hm : m < 256) :
    UInt8.ofNat n = UInt8.ofNat m ↔ n = m := by
  constructor
  · intro h
    rw [← toNat_ofNat_of_lt hn, ← toNat_ofNat_of_lt hm, h]
  · rintro rfl; rfl

variable (a : Address) (elements : List InfoElement) (info : UdhInfo) (pre post : List UInt8)
  (ie : InfoElement)

theorem readAt_data (j : ℕ) :
    readAt (pre ++ (ie.octets ++ post)) (pre.length + 2 + j) = readAt (ie.data ++ post) j := by
  rw [Nat.add_assoc, readAt_append_right rfl, Nat.add_comm 2 j]
  simp [InfoElement.octets]

theorem selectsTurkish_eq (wanted : UInt8) :
    selectsTurkish (pre ++ (ie.octets ++ post)) pre.length wanted ie.iei
        (UInt8.ofNat ie.data.length) =
      .ok (ie.iei = wanted && ie.data.head? = some 0x01) := by
  have hread := readAt_data pre post ie 0
  simp only [selectsTurkish, toNat_ofNat_of_lt ie.fits, hread]
  cases hdata : ie.data with
  | nil => simp
  | cons x xs => by_cases hw : ie.iei = wanted <;> simp [hw, Except.map]

/-- An element of the header is read as it was written. -/
theorem udhElement_eq (info : UdhInfo) :
    udhElement (pre ++ (ie.octets ++ post)) pre.length ie.iei (UInt8.ofNat ie.data.length) info =
      .ok (ie.apply info) := by
  have h2 := readAt_data pre post ie 0
  have h3 := readAt_data pre post ie 1
  have h4 := readAt_data pre post ie 2
  have h5 := readAt_data pre post ie 3
  have hlen3 := ofNat_eq_iff ie.fits (show 3 < 256 by omega)
  have hlen4 := ofNat_eq_iff ie.fits (show 4 < 256 by omega)
  simp only [udhElement, selectsTurkish_eq, ok_bind, InfoElement.apply]
  rw [show (3 : UInt8) = UInt8.ofNat 3 from rfl, show (4 : UInt8) = UInt8.ofNat 4 from rfl]
  rcases hdata : ie.data with _ | ⟨a, _ | ⟨b, _ | ⟨c, _ | ⟨d, _ | ⟨e, rest⟩⟩⟩⟩⟩ <;>
    simp <;> split <;> simp_all

@[simp] theorem InfoElement.length_octets : ie.octets.length = ie.data.length + 2 := by
  simp [InfoElement.octets]

/-- One round takes the element at the place the loop has come to. -/
theorem parseUdhLoop_cons {endPos : ℕ} (rest : List UInt8) (rounds : ℕ)
    (hend : pre.length + ie.octets.length ≤ endPos) :
    parseUdhLoop (pre ++ (ie.octets ++ rest)) endPos (rounds + 1) pre.length info =
      parseUdhLoop (pre ++ ie.octets ++ rest) endPos rounds (pre ++ ie.octets).length
        (ie.apply info) := by
  rw [InfoElement.length_octets] at hend
  have hiei : readAt (pre ++ (ie.octets ++ rest)) pre.length = .ok ie.iei := by
    have := @readAt_append_right pre (ie.octets ++ rest) _ 0 rfl
    simpa [InfoElement.octets] using this
  have hiedl : readAt (pre ++ (ie.octets ++ rest)) (pre.length + 1) =
      .ok (UInt8.ofNat ie.data.length) := by
    rw [readAt_append_right rfl]
    simp [InfoElement.octets]
  -- the next element begins behind this one
  have hpos : pre.length + 2 + ie.data.length = (pre ++ ie.octets).length := by simp; omega
  rw [parseUdhLoop, if_pos (by omega), if_neg (by omega), hiei, hiedl]
  simp only [ok_bind, toNat_ofNat_of_lt ie.fits, udhElement_eq]
  rw [if_neg (by omega), hpos, append_assoc]

/-- The loop of `parse_udh` folds the elements of the header into its report. -/
theorem parseUdhLoop_eq :
    ∀ (pre post : List UInt8) (info : UdhInfo) (rounds : ℕ),
      (elements.flatMap InfoElement.octets).length ≤ rounds →
      parseUdhLoop (pre ++ (elements.flatMap InfoElement.octets ++ post))
          (pre.length + (elements.flatMap InfoElement.octets).length) rounds pre.length info =
        .ok (elements.foldl InfoElement.apply info) := by
  induction elements with
  | nil =>
    intro pre post info rounds _
    cases rounds with
    | zero => rfl
    | succ rounds => simp [parseUdhLoop]
  | cons ie elements ih =>
    intro pre post info rounds hrounds
    simp only [flatMap_cons, length_append, InfoElement.length_octets] at hrounds ⊢
    obtain ⟨rounds, rfl⟩ : ∃ r, rounds = r + 1 := ⟨rounds - 1, by omega⟩
    -- the rest of the loop starts behind the octets of this element
    have hrest := ih (pre ++ ie.octets) post (ie.apply info) rounds (by omega)
    rw [append_assoc, parseUdhLoop_cons info pre ie _ rounds (by simp), foldl_cons]
    simpa [Nat.add_assoc] using hrest

/-- Octets that are not those of elements are rejected. -/
theorem parseUdhLoop_cases (post : List UInt8) : ∀ (rounds : ℕ) (pre body : List UInt8)
    (info : UdhInfo), body.length ≤ rounds →
      (∃ elements : List InfoElement, elements.flatMap InfoElement.octets = body) ∨
        parseUdhLoop (pre ++ (body ++ post)) (pre.length + body.length) rounds pre.length info =
          .error (.code (-1)) := by
  intro rounds
  induction rounds with
  | zero =>
    intro pre body info hrounds
    exact .inl ⟨[], (eq_nil_of_length_eq_zero (by omega)).symm⟩
  | succ rounds ih =>
    intro pre body info hrounds
    rcases body with _ | ⟨iei, _ | ⟨iedl, rest⟩⟩
    · exact .inl ⟨[], rfl⟩
    · exact .inr (by simp [parseUdhLoop])
    by_cases hfits : iedl.toNat ≤ rest.length
    · have hdata : (rest.take iedl.toNat).length = iedl.toNat := by simpa using hfits
      have hlt : (rest.take iedl.toNat).length < 256 := hdata.trans_lt iedl.toNat_lt
      let ie : InfoElement := ⟨iei, rest.take iedl.toNat, hlt⟩
      have hoctets : iei :: iedl :: rest = ie.octets ++ rest.drop iedl.toNat := by
        simp [ie, InfoElement.octets, hfits]
      rcases ih (pre ++ ie.octets) (rest.drop iedl.toNat) (ie.apply info)
        (by simp at hrounds ⊢; omega) with ⟨elements, helements⟩ | hreject
      · exact .inl ⟨ie :: elements, by rw [flatMap_cons, helements, hoctets]⟩
      · right
        rw [hoctets, append_assoc, parseUdhLoop_cons info pre ie _ rounds (by simp)]
        simpa [Nat.add_assoc] using hreject
    · -- the element crosses the end of the header
      right
      have hiei := @readAt_append_right pre (iei :: iedl :: rest ++ post) _ 0 rfl
      have hiedl := @readAt_append_right pre (iei :: iedl :: rest ++ post) _ 1 rfl
      rw [Nat.add_zero] at hiei
      rw [parseUdhLoop, if_pos (by simp), if_neg (by simp), hiei, hiedl]
      exact if_pos (by simp; omega)

/-- **Header parsing**: on a well-formed header `parse_udh` reports what its elements say. -/
theorem parseUdh_eq (h : UserDataHeader) (pre post : List UInt8) (bufferLength : ℕ)
    (hfits : pre.length + h.octets.length ≤ bufferLength) :
    parseUdh (pre ++ (h.octets ++ post)) bufferLength pre.length true = .ok h.info := by
  have hlen : h.octets.length = h.body.length + 1 := by simp [UserDataHeader.octets]
  have hstart : ¬ pre.length ≥ bufferLength := by omega
  have hend : ¬ pre.length + 1 + h.body.length > bufferLength := by omega
  have hudhl : readAt (pre ++ (h.octets ++ post)) pre.length = .ok (UInt8.ofNat h.body.length) := by
    have := @readAt_append_right pre (h.octets ++ post) _ 0 rfl
    simpa [UserDataHeader.octets] using this
  -- one round for each octet is more than enough
  have hloop := parseUdhLoop_eq h.elements (pre ++ [UInt8.ofNat h.body.length]) post
    { present := true, bytes := h.body.length + 1 } h.body.length le_rfl
  have hbuf : pre ++ (h.octets ++ post) =
      pre ++ [UInt8.ofNat h.body.length] ++ (h.body ++ post) := by
    simp [UserDataHeader.octets]
  simp only [length_append, length_singleton] at hloop
  simp only [parseUdh, Bool.not_true, Bool.false_eq_true, if_false, hstart, hudhl,
    ok_bind, h.toNat_length, hend]
  rw [hbuf]
  unfold UserDataHeader.body at hloop ⊢
  rw [hloop]
  rfl

/-- The header that is declared at a place of a buffer, as far as the buffer has it. -/
def declaredHeader (buffer : List UInt8) (start : ℤ) : List UInt8 :=
  if start < 0 then []
  else (buffer.drop start.toNat).take ((buffer.getD start.toNat 0).toNat + 1)

/-- `parse_udh` with its test for a place in front of the buffer. -/
def parseUdhAt (buffer : List UInt8) (bufferLength : ℕ) (start : ℤ) (hasUdh : Bool) :
    CResult UdhInfo :=
  if !hasUdh then .ok {}
  else if start < 0 then .error (.code (-1))
  else parseUdh buffer bufferLength start.toNat hasUdh

/-- What a header says: nothing if there is none, what its elements say if it is made of elements,
and otherwise it is rejected. -/
structure HeaderResult (header : List UInt8) (hasUdh : Bool) (result : CResult UdhInfo) : Prop where
  absent : hasUdh = false → result = .ok {}
  elements : ∀ h : UserDataHeader, hasUdh = true → header = h.octets → result = .ok h.info
  reject : hasUdh = true → (∀ h : UserDataHeader, header ≠ h.octets) → result = .error (.code (-1))

/-- A header that is made of elements is read, and any other one is rejected. -/
theorem parseUdh_result {memory : List UInt8} {i : ℕ}
    (hmemory : declaredHeader buffer i <+: memory.drop i) :
    HeaderResult (declaredHeader buffer i) true (parseUdh memory buffer.length i true) := by
  obtain ⟨behind, hbehind⟩ := hmemory
  have hdeclared : declaredHeader buffer i =
      (buffer.drop i).take ((buffer.getD i 0).toNat + 1) := by
    simp [declaredHeader]
  by_cases hstart : i < buffer.length
  · rw [drop_eq_getElem_cons hstart, getD_eq_getElem _ _ hstart, take_succ_cons] at hdeclared
    generalize buffer[i] = udhl at hdeclared
    generalize hbody : (buffer.drop (i + 1)).take udhl.toNat = body at hdeclared
    rw [hdeclared] at hbehind ⊢
    -- the memory in front of the header
    obtain ⟨pre, rfl, rfl⟩ : ∃ pre, memory = pre ++ (udhl :: body ++ behind) ∧ pre.length = i := by
      have hlen := congrArg length hbehind
      refine ⟨memory.take i, by rw [hbehind, take_append_drop], ?_⟩
      simp at hlen ⊢
      omega
    refine ⟨by simp, fun h _ hheader => ?_, fun _ hnone => ?_⟩
    · rw [hheader]
      apply parseUdh_eq h
      have hlen := congrArg length hheader
      rw [← hlen, length_cons, ← hbody, length_take, length_drop]
      omega
    · have hudhl := @readAt_append_right pre (udhl :: body ++ behind) _ 0 rfl
      rw [Nat.add_zero] at hudhl
      rw [parseUdh, if_neg (by simp), if_neg (by omega), hudhl]
      simp only [cons_append, readAt_cons_zero, ok_bind]
      by_cases hcross : pre.length + 1 + udhl.toNat > buffer.length
      · exact if_pos hcross
      have hlen : body.length = udhl.toNat := by
        rw [← hbody, length_take, length_drop]
        omega
      rcases parseUdhLoop_cases behind udhl.toNat (pre ++ [udhl]) body
        { present := true, bytes := udhl.toNat + 1 } hlen.le with ⟨elements, helements⟩ | hreject
      · have hfits : (elements.flatMap InfoElement.octets).length < 256 := by
          rw [helements, hlen]
          exact udhl.toNat_lt
        refine absurd ?_ (hnone ⟨elements, hfits⟩)
        simp [UserDataHeader.octets, UserDataHeader.body, helements, hlen]
      · simp only [append_assoc, singleton_append, length_append, length_singleton, hlen] at hreject
        rw [if_neg hcross, hreject]
        rfl
  · refine ⟨by simp, fun h _ hheader => ?_, fun _ _ => ?_⟩
    · rw [hdeclared, drop_of_length_le (not_lt.mp hstart)] at hheader
      simp [UserDataHeader.octets] at hheader
    · rw [parseUdh, if_neg (by simp), if_pos (by omega)]

/-- `parse_udh` says what the declared header says in every memory that has this header at its
place, so in the buffer itself and in one that ends with the header. -/
def ParsesHeader (buffer : List UInt8) (start : ℤ) (hasUdh : Bool) : Prop :=
  ∀ memory : List UInt8, declaredHeader buffer start <+: memory.drop start.toNat →
    HeaderResult (declaredHeader buffer start) hasUdh
      (parseUdhAt memory buffer.length start hasUdh)

/-- **User data header**: `parse_udh` comes to an end with the right answer for every buffer, place
and indication, and reads nothing outside the declared header. -/
theorem parsesHeader (buffer : List UInt8) (start : ℤ) (hasUdh : Bool) :
    ParsesHeader buffer start hasUdh := by
  intro memory hmemory
  cases hasUdh with
  | false => exact ⟨fun _ => rfl, by simp, by simp⟩
  | true =>
    by_cases hneg : start < 0
    · refine ⟨by simp, fun h _ hheader => ?_, fun _ _ => by simp [parseUdhAt, hneg]⟩
      simp [declaredHeader, hneg, UserDataHeader.octets] at hheader
    · obtain ⟨i, rfl⟩ := Int.eq_ofNat_of_zero_le (not_lt.mp hneg)
      exact parseUdh_result hmemory

theorem InfoElement.apply_present_bytes :
    (ie.apply info).present = info.present ∧ (ie.apply info).bytes = info.bytes := by
  simp only [InfoElement.apply]
  split <;> (try split) <;> exact ⟨rfl, rfl⟩

theorem foldl_apply_present_bytes :
    (elements.foldl InfoElement.apply info).present = info.present ∧
      (elements.foldl InfoElement.apply info).bytes = info.bytes := by
  induction elements generalizing info with
  | nil => exact ⟨rfl, rfl⟩
  | cons ie elements ih =>
    have hstep := ie.apply_present_bytes info
    have hrest := ih (ie.apply info)
    exact ⟨hrest.1.trans hstep.1, hrest.2.trans hstep.2⟩

/-- The report of a header counts all its octets. -/
theorem UserDataHeader.info_present_bytes (h : UserDataHeader) :
    h.info.present = true ∧ h.info.bytes = h.octets.length := by
  have hfold := foldl_apply_present_bytes h.elements { present := true, bytes := h.body.length + 1 }
  simp only [UserDataHeader.info, dropSinglePart]
  split <;> simpa [UserDataHeader.octets] using hfold

theorem parseUdh_none (buffer : List UInt8) (bufferLength userDataStart : ℕ) :
    parseUdh buffer bufferLength userDataStart false = .ok {} := rfl

/-! ## The fields in front of the user data -/

theorem firstOctet_udhi (e : Envelope) (udhi : Bool) :
    decide (e.firstOctet udhi &&& 0x40 ≠ 0) = udhi := by
  cases udhi with
  | false =>
    have hclear : ∀ flags : UInt8, flags &&& 0xbf &&& 0x40 = 0 := by decide +kernel
    simp [Envelope.firstOctet, hclear]
  | true =>
    have hset : ∀ flags : UInt8, (flags ||| 0x40) &&& 0x40 = 0x40 := by decide +kernel
    simp [Envelope.firstOctet, hset]

theorem phoneDigit_total {i : ℕ} (hi : i / 2 < buffer.length) :
    ∃ d, phoneDigit buffer i = .ok d := by
  simp only [phoneDigit, readAt_of_lt hi, ok_bind]
  split <;> exact ⟨_, rfl⟩

/-- A loop succeeds if each of its rounds does. -/
theorem mapM_total {α : Type} (f : α → CResult UInt8) :
    ∀ l : List α, (∀ x ∈ l, ∃ y, f x = .ok y) → ∃ ys, l.mapM f = .ok ys := by
  intro l
  induction l with
  | nil => intro _; exact ⟨[], rfl⟩
  | cons x l ih =>
    intro h
    obtain ⟨y, hy⟩ := h x (by simp)
    obtain ⟨ys, hys⟩ := ih fun z hz => h z (by simp [hz])
    exact ⟨y :: ys, by simp [mapM_cons, hy, hys]⟩

/-- A sender whose octets are all there is decoded without leaving the buffer. -/
theorem decodeSender_of_room {typeOfAddress : UInt8} (hroom : (n + 1) / 2 ≤ buffer.length)
    (hnamed : typeOfAddress = typeOfAddressAlphanumeric → 0 < n) :
    ∃ sender, decodeSender buffer typeOfAddress n = .ok sender := by
  unfold decodeSender
  split
  · rename_i htype
    have hpos := hnamed htype
    obtain ⟨name, hname, hne, hall⟩ :=
      @decodePDUMessageGSM7bit_total buffer ((n + 1) / 2) n (by omega) hroom
    have hdrop : ∀ b ∈ name.dropLast, b < 128 := fun b hb => hall b (dropLast_subset _ hb)
    obtain ⟨text, htext, _⟩ := g7bitToAscii_eq false false name.dropLast hdrop
    exact ⟨text, by simp [hname, hne, htext]⟩
  · -- a number: two digits in each octet
    apply mapM_total
    intro i hi
    have hi' : i < n := mem_range.mp hi
    exact phoneDigit_total (by omega)

/-- Every address a message can carry is decoded without leaving the buffer. -/
theorem decodeSender_total :
    ∃ sender, decodeSender (a.octets ++ post) a.typeOfAddress a.length.toNat = .ok sender :=
  decodeSender_of_room (by simp [a.octets_length]) a.named

/-- A time whose octets are all there is decoded without leaving the buffer. -/
theorem decodeTime_of_room {smsPidStart : ℕ} (hroom : smsPidStart + 8 ≤ buffer.length) :
    ∃ time, decodeTime buffer smsPidStart = .ok time := by
  have hread (k : ℕ) (hk : k < 8) := @readAt_of_lt buffer (smsPidStart + k) (by omega)
  simp only [decodeTime, hread 2 (by omega), hread 3 (by omega), hread 4 (by omega),
    hread 5 (by omega), hread 6 (by omega), hread 7 (by omega), ok_bind]
  exact ⟨_, rfl⟩

namespace Envelope

variable (e : Envelope) (udhi : Bool) (dcs udl : UInt8) (tail : List UInt8)

def deliverStart : ℕ := 1 + e.smsc.length

def pidStart : ℕ := e.deliverStart + 3 + e.sender.octets.length

/-- The octets from the protocol identifier on. -/
def back : List UInt8 := e.pid :: dcs :: e.scts ++ [udl] ++ tail

/-- Where the user data starts. -/
theorem length_front : (e.front udhi dcs udl).length = e.pidStart + 10 := by
  simp [front, pidStart, deliverStart, e.scts_length]
  omega

theorem front_eq : e.front udhi dcs udl ++ tail = (UInt8.ofNat e.smsc.length :: e.smsc) ++
    (e.firstOctet udhi :: e.sender.length :: e.sender.typeOfAddress ::
      (e.sender.octets ++ e.back dcs udl tail)) := by
  simp [front, back]

theorem readAt_deliver (k : ℕ) :
    readAt (e.front udhi dcs udl ++ tail) (e.deliverStart + k) =
      readAt (e.firstOctet udhi :: e.sender.length :: e.sender.typeOfAddress ::
        (e.sender.octets ++ e.back dcs udl tail)) k := by
  rw [front_eq]
  exact readAt_append_right (by simp [deliverStart]; omega)

theorem readAt_pid (k : ℕ) :
    readAt (e.front udhi dcs udl ++ tail) (e.pidStart + k) = readAt (e.back dcs udl tail) k := by
  rw [show e.pidStart + k = e.deliverStart + (e.sender.octets.length + k + 3) by
    simp [pidStart]; omega, readAt_deliver]
  exact readAt_append_right rfl

theorem readAt_udl : readAt (e.front udhi dcs udl ++ tail) (e.pidStart + 9) = .ok udl := by
  rw [readAt_pid, back, append_assoc, cons_append, cons_append]
  have := @readAt_append_right e.scts ([udl] ++ tail) 7 0 e.scts_length.symm
  simpa using this

theorem drop_front : (e.front udhi dcs udl ++ tail).drop (e.pidStart + 10) = tail := by
  rw [← e.length_front udhi dcs udl, drop_left]

theorem decodeTime_total : ∃ time, decodeTime (e.front udhi dcs udl ++ tail) e.pidStart = .ok time :=
  decodeTime_of_room (by rw [length_append, length_front]; omega)

end Envelope

/-- Up to the address, `pdu_decode` reads the fields where they stand; then it decodes the address
and everything behind it. -/
theorem pduDecode_addressed {smsc octets : List UInt8} (hsmsc : smsc.length < 256)
    {length : UInt8} (hoctets : octets.length = (length.toNat + 1) / 2)
    (hfits : length.toNat < phoneNumberSize) (first typeOfAddress : UInt8)
    (rest outputSmsText : List UInt8) {bufferLength : ℕ} (hroom : smsc.length + 2 ≤ bufferLength) :
    pduDecode (UInt8.ofNat smsc.length :: smsc ++
        (first :: length :: typeOfAddress :: (octets ++ rest))) bufferLength phoneNumberSize
        outputSmsText =
      (decodeSender (octets ++ rest) typeOfAddress length.toNat >>= fun sender =>
        decodeBody (UInt8.ofNat smsc.length :: smsc ++
            (first :: length :: typeOfAddress :: (octets ++ rest))) bufferLength (1 + smsc.length)
          (1 + smsc.length + 3 + octets.length) sender outputSmsText) := by
  set buffer := UInt8.ofNat smsc.length :: smsc ++
    (first :: length :: typeOfAddress :: (octets ++ rest)) with hbuffer
  have hhead : readAt buffer 0 = .ok (UInt8.ofNat smsc.length) := rfl
  -- positions are counted from the end of the service centre's address
  have hread : ∀ k, readAt buffer (1 + smsc.length + k) =
      readAt (first :: length :: typeOfAddress :: (octets ++ rest)) k :=
    fun k => readAt_append_right (by simp; omega)
  have hlength := hread 1
  have htype := hread 2
  simp only [readAt_cons_zero, readAt_cons_succ] at hlength htype
  have hdrop : buffer.drop (1 + smsc.length + 3) = octets ++ rest := by
    rw [hbuffer, Nat.add_comm 1, cons_append, Nat.add_right_comm, drop_succ_cons,
      drop_append, drop_of_length_le (by omega)]
    simp
  have hstart : 1 + (UInt8.ofNat smsc.length).toNat = 1 + smsc.length := by
    rw [toNat_ofNat_of_lt hsmsc]
  have hpos : ¬ bufferLength = 0 := by omega
  have hdeliver : ¬ 1 + smsc.length + 1 > bufferLength := by omega
  have hsize : ¬ length.toNat + 1 > phoneNumberSize := by omega
  rw [pduDecode, if_neg hpos]
  simp only [hhead, ok_bind, hstart, hdeliver, if_false, hlength, hsize, htype, hdrop, hoctets]

variable (octets : List UInt8) (e : Envelope) (udhi : Bool) (dcs udl : UInt8)

/-- The address never makes `pdu_decode` fail. -/
theorem pduDecode_head (ud rest outputSmsText : List UInt8) :
    ∃ sender, pduDecode (e.deliver udhi dcs udl ud ++ rest) (e.deliver udhi dcs udl ud).length
        phoneNumberSize outputSmsText =
      decodeBody (e.front udhi dcs udl ++ (ud ++ rest)) (e.pidStart + 10 + ud.length)
        e.deliverStart e.pidStart sender outputSmsText := by
  obtain ⟨sender, hsender⟩ := decodeSender_total e.sender (e.back dcs udl (ud ++ rest))
  have hbuf : e.deliver udhi dcs udl ud ++ rest = e.front udhi dcs udl ++ (ud ++ rest) := by
    simp [Envelope.deliver]
  have hlen : (e.deliver udhi dcs udl ud).length = e.pidStart + 10 + ud.length := by
    simp [Envelope.deliver, e.length_front]
  refine ⟨sender, ?_⟩
  rw [hbuf, hlen, e.front_eq, pduDecode_addressed e.smsc_length e.sender.octets_length
    e.sender.fits _ _ _ _ (by simp only [Envelope.pidStart, Envelope.deliverStart]; omega), hsender]
  rfl

/-- **Reduction to the user data**: on a DELIVER PDU with user data, `pdu_decode` reads the header
and the text from the user data, and no other field can make it fail. -/
theorem pduDecode_deliver (ud rest outputSmsText : List UInt8) (hud : ud ≠ []) :
    ∃ sender time, pduDecode (e.deliver udhi dcs udl ud ++ rest) (e.deliver udhi dcs udl ud).length
        phoneNumberSize outputSmsText =
      (parseUdh (e.front udhi dcs udl ++ (ud ++ rest)) (e.pidStart + 10 + ud.length)
          (e.pidStart + 10) udhi >>= fun udh =>
        decodeText (e.front udhi dcs udl ++ (ud ++ rest)) (e.pidStart + 10 + ud.length)
          (e.pidStart + 9) dcs udh outputSmsText >>= fun text =>
        .ok {
          length := text.length
          time := time
          sender := sender
          text := terminate text outputSmsText.length
          tpDcs := dcs
          refNumber := udh.concatRef
          totalParts := udh.concatTotal
          partNumber := udh.concatPart
          skipBytes := if udh.present then udh.bytes else 0 }) := by
  obtain ⟨sender, hhead⟩ := pduDecode_head e udhi dcs udl ud rest outputSmsText
  obtain ⟨time, htime⟩ := e.decodeTime_total udhi dcs udl (ud ++ rest)
  have hudlen : 0 < ud.length := length_pos_iff.mpr hud
  -- the fixed fields in front of the user data
  have hfirst := e.readAt_deliver udhi dcs udl (ud ++ rest) 0
  have hdcs := e.readAt_pid udhi dcs udl (ud ++ rest) 1
  simp only [Nat.add_zero, readAt_cons_zero] at hfirst
  have hbody : ¬ e.pidStart + 2 + 7 + 1 ≥ e.pidStart + 10 + ud.length := by omega
  refine ⟨sender, time, ?_⟩
  rw [hhead]
  simp only [decodeBody, htime, ok_bind, hbody, if_false, hfirst, firstOctet_udhi, hdcs]
  rfl

/-- Without user data `pdu_decode` reports an invalid buffer. -/
theorem pduDecode_deliver_nil (rest outputSmsText : List UInt8) :
    pduDecode (e.deliver udhi dcs udl [] ++ rest) (e.deliver udhi dcs udl []).length
      phoneNumberSize outputSmsText = .error (.code (-1)) := by
  obtain ⟨sender, hhead⟩ := pduDecode_head e udhi dcs udl [] rest outputSmsText
  obtain ⟨time, htime⟩ := e.decodeTime_total udhi dcs udl rest
  rw [hhead]
  simp [decodeBody, htime]

/-! ## Hexadecimal text -/

/-- A hexadecimal digit as modems print it. -/
def hexDigit (n : ℕ) : UInt8 :=
  if n < 10 then UInt8.ofNat (0x30 + n) else UInt8.ofNat (0x37 + n)

/-- The text a modem prints for a PDU. -/
def hexText (octets : List UInt8) : List UInt8 :=
  octets.flatMap fun b => [hexDigit (b.toNat / 16), hexDigit (b.toNat % 16)]

@[simp] theorem length_hexText : (hexText octets).length = 2 * octets.length := by
  induction octets with
  | nil => rfl
  | cons b octets ih => simp only [hexText, flatMap_cons] at ih ⊢; simp [ih]; omega

theorem charToHex_hexDigit (h : n < 16) : charToHex (hexDigit n) = some n := by
  interval_cases n <;> decide

theorem nibbles (b : UInt8) :
    UInt8.ofNat (((b.toNat / 16) <<< 4) ||| (b.toNat % 16)) = b := by
  have hor : ((b.toNat / 16) <<< 4) ||| (b.toNat % 16) = b.toNat := by
    rw [Nat.shiftLeft_eq, Nat.mul_comm, ← Nat.two_pow_add_eq_or_of_lt (Nat.mod_lt _ (by norm_num))]
    omega
  rw [hor, UInt8.ofNat_toNat]

/-- The text of some octets is read back. -/
theorem hexToOctets_hexText : hexToOctets (hexText octets) = some octets := by
  induction octets with
  | nil => rfl
  | cons b octets ih =>
    have hb := b.toNat_lt
    have hhigh := charToHex_hexDigit (n := b.toNat / 16) (by omega)
    have hlow := charToHex_hexDigit (n := b.toNat % 16) (by omega)
    simp only [hexText, flatMap_cons, cons_append, nil_append] at ih ⊢
    simp only [hexToOctets, hhigh, hlow, ih, nibbles, Option.bind_eq_bind, Option.bind_some]
    rfl

/-- `decode_pdu` on the text of a PDU that fits its buffer. -/
theorem decodePdu_hexText {pdu : List UInt8} (hne : pdu ≠ []) (hfits : pdu.length ≤ smsPduHexSize) :
    decodePdu (hexText pdu) =
      (pduDecode (pdu ++ List.replicate (smsPduHexSize - pdu.length) 0) pdu.length phoneNumberSize
          (List.replicate smsTextSize 0) >>= fun d =>
        if d.length = 0 then .error (.code 0) else .ok (smsOfDecoded d)) := by
  have hpos : 0 < pdu.length := length_pos_iff.mpr hne
  have hguard : ¬ ((hexText pdu).length = 0 ∨ (hexText pdu).length % 2 ≠ 0 ∨
      (hexText pdu).length / 2 > smsPduHexSize) := by
    rw [length_hexText]; omega
  have hhalf : (hexText pdu).length / 2 = pdu.length := by rw [length_hexText]; omega
  rw [decodePdu, if_neg hguard, hexToOctets_hexText, hhalf]
  rfl

end QModem.Sms
