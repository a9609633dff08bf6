import Mathlib

/-!
# RTP Packets

The three places where the header of an RTP packet is taken apart: `payload_offset` of
`voipd/src/rtp_transport.c`, `qmodem_voip_media_rtp_receive` of `voipd/src/media_core.c`, and
`media_playback_to_modem` of `qmodem_sipd/src/sip_consumer.c`.

The first and the last one begin in the same way (`headerEnd`).  Only the first one knows about
padding, and the second one takes the length of a header extension for octets, where it is counted
in words of four.

## Main results

- `payloadOffset_of_padded`, `payloadOffset_of_not_padded`: what the padding does to the payload
- `mediaRtpReceive_offset_eq_iff`: when the media core finds the payload
- `parsersAgree_iff`: the packets on which all three agree
-/

namespace QModem.Voip

/-! ## The parsers -/

/-- `RTP_HEADER_SIZE` -/
def rtpHeaderSize : ℕ := 12

/-- `QMODEM_VOIP_MEDIA_SAMPLES`, which is also the number of octets of a payload in G.711. -/
def rtpPayloadSize : ℕ := 160

inductive RtpCodec where
  | pcma
  | pcmu
  deriving DecidableEq, Repr

def RtpCodec.number : RtpCodec → ℕ
  | .pcma => 8
  | .pcmu => 0

/-- An octet of a packet; no parser reads behind the end. -/
def octet (packet : List UInt8) (i : ℕ) : ℕ := (packet.getD i 0).toNat

def version (packet : List UInt8) : ℕ := octet packet 0 >>> 6
def padded (packet : List UInt8) : Bool := octet packet 0 &&& 0x20 ≠ 0
def extended (packet : List UInt8) : Bool := octet packet 0 &&& 0x10 ≠ 0
def payloadType (packet : List UInt8) : ℕ := octet packet 1 &&& 127

/-- Where the fixed header and the contributing sources end. -/
def sourcesEnd (packet : List UInt8) : ℕ := rtpHeaderSize + (octet packet 0 &&& 15) * 4

def extensionWords (packet : List UInt8) : ℕ :=
  octet packet (sourcesEnd packet + 2) <<< 8 ||| octet packet (sourcesEnd packet + 3)

/-- The statements with which `payload_offset` and `media_playback_to_modem` begin. -/
def headerEnd (packet : List UInt8) : Option ℕ :=
  if packet.length < rtpHeaderSize || version packet ≠ 2 then none
  else if sourcesEnd packet > packet.length then none
  else if extended packet then
    if packet.length - sourcesEnd packet < 4 then none
    else if extensionWords packet > (packet.length - sourcesEnd packet - 4) / 4 then none
    else some (sourcesEnd packet + (4 + extensionWords packet * 4))
  else some (sourcesEnd packet)

/-- `payload_offset`: where the payload starts, and its length. -/
def payloadOffset (packet : List UInt8) : Option (ℕ × ℕ) :=
  match headerEnd packet with
  | none => none
  | some value =>
    if padded packet then
      let padding := octet packet (packet.length - 1)
      if padding = 0 || padding > packet.length - value then none
      else if value > packet.length - padding then none
      else some (value, packet.length - padding - value)
    else some (value, packet.length - value)

/-- What `qmodem_voip_media_rtp_receive` takes from a packet. -/
structure ReceivedHeader where
  offset : ℕ
  payloadType : ℕ
  sequence : ℕ
  timestamp : ℕ

/-- `qmodem_voip_media_rtp_receive` up to its last statement. -/
def mediaRtpHeader (packet : List UInt8) : Option ReceivedHeader :=
  if packet.length < 12 || version packet ≠ 2 then none
  else if extended packet && packet.length < sourcesEnd packet + 4 then none
  else
    let offset :=
      if extended packet then sourcesEnd packet + (4 + extensionWords packet) else sourcesEnd packet
    if offset > packet.length then none
    else some
      { offset
        payloadType := payloadType packet
        sequence := octet packet 2 <<< 8 ||| octet packet 3
        timestamp := octet packet 4 <<< 24 ||| octet packet 5 <<< 16 ||| octet packet 6 <<< 8 |||
          octet packet 7 }

/-- `qmodem_voip_media_rtp_receive`: audio in one of the two codecs and telephone events. -/
def mediaRtpReceive (packet : List UInt8) : Option ReceivedHeader :=
  (mediaRtpHeader packet).filter fun h =>
    h.payloadType = RtpCodec.pcma.number || h.payloadType = RtpCodec.pcmu.number ||
      h.payloadType = 101

/-- `receive_audio` up to the decoding: the payload it takes. -/
def receiveAudio (codec : RtpCodec) (packet : List UInt8) : Option (List UInt8) :=
  match payloadOffset packet with
  | none => none
  | some (offset, payloadLength) =>
    if payloadType packet ≠ codec.number || payloadLength ≠ rtpPayloadSize ||
        (mediaRtpReceive packet).isNone then none
    else some ((packet.drop offset).take payloadLength)

/-- `media_playback_to_modem` up to the decoding: the payload it takes. -/
def mediaPlaybackToModem (codec : RtpCodec) (packet : List UInt8) : Option (List UInt8) :=
  match headerEnd packet with
  | none => none
  | some payloadOffset =>
    if payloadType packet ≠ codec.number || packet.length - payloadOffset ≠ rtpPayloadSize then none
    else some ((packet.drop payloadOffset).take (packet.length - payloadOffset))

/-- Both sides take the same payload or none, and the media core finds it where it is. -/
structure ParsersAgree (codec : RtpCodec) (packet : List UInt8) : Prop where
  payload : receiveAudio codec packet = mediaPlaybackToModem codec packet
  offset : (receiveAudio codec packet).isSome → ∀ offset payloadLength,
    payloadOffset packet = some (offset, payloadLength) → ∀ h, mediaRtpReceive packet = some h →
      h.offset = offset

/-! ## Where the payload is -/

variable {codec : RtpCodec} {packet : List UInt8} {value : ℕ}

/-- What is known of a header that was accepted. -/
theorem headerEnd_eq_some (h : headerEnd packet = some value) :
    rtpHeaderSize ≤ packet.length ∧ version packet = 2 ∧ value ≤ packet.length ∧
      value = sourcesEnd packet +
        if extended packet then 4 + extensionWords packet * 4 else 0 := by
  unfold headerEnd at h
  split at h
  · contradiction
  next hfixed =>
    simp only [Bool.or_eq_true, decide_eq_true_eq, not_or, not_lt, not_not] at hfixed
    split at h
    · contradiction
    next hsources =>
      split at h
      next hextended =>
        split at h
        · contradiction
        next hroom =>
          split at h
          · contradiction
          next hwords =>
            obtain rfl := Option.some.inj h
            -- whole words fit behind the four octets of the extension header
            have hfits := Nat.div_mul_le_self (packet.length - sourcesEnd packet - 4) 4
            have hwords' := Nat.mul_le_mul_right 4 (not_lt.mp hwords)
            simp only [hextended, if_true]
            refine ⟨hfixed.1, hfixed.2, ?_, trivial⟩
            omega
      next hplain =>
        obtain rfl := Option.some.inj h
        simp only [hplain]
        exact ⟨hfixed.1, hfixed.2, not_lt.mp hsources, rfl⟩

theorem payloadOffset_of_not_padded (h : headerEnd packet = some value)
    (hpadded : padded packet = false) :
    payloadOffset packet = some (value, packet.length - value) := by
  simp [payloadOffset, h, hpadded]

/-- Padding is at least one octet of what stands behind the header, and the last octet is its length.
-/
theorem payloadOffset_of_padded {offset payloadLength : ℕ} (hpadded : padded packet = true) :
    payloadOffset packet = some (offset, payloadLength) ↔
      headerEnd packet = some offset ∧ octet packet (packet.length - 1) ≠ 0 ∧
        packet.length = offset + payloadLength + octet packet (packet.length - 1) := by
  unfold payloadOffset
  cases hend : headerEnd packet with
  | none => simp
  | some value =>
    simp only [hpadded, if_true, Bool.or_eq_true, decide_eq_true_eq, Option.some.injEq]
    -- the last octet counts the padding, itself included
    constructor
    · intro h
      split at h
      · contradiction
      split at h
      · contradiction
      obtain ⟨rfl, rfl⟩ := h
      omega
    · rintro ⟨rfl, hpadding, hlength⟩
      rw [if_neg (by omega), if_neg (by omega)]
      simp only [Option.some.injEq, Prod.mk.injEq, true_and]
      omega

/-- A payload starts behind the header, in any case. -/
theorem headerEnd_of_payloadOffset {offset payloadLength : ℕ}
    (h : payloadOffset packet = some (offset, payloadLength)) : headerEnd packet = some offset := by
  cases hpadded : padded packet with
  | true => exact ((payloadOffset_of_padded hpadded).mp h).1
  | false =>
    cases hend : headerEnd packet with
    | none => simp [payloadOffset, hend] at h
    | some value =>
      rw [payloadOffset_of_not_padded hend hpadded] at h
      simp only [Option.some.injEq, Prod.mk.injEq] at h
      rw [h.1]

/-- The media core accepts the header that the others accept, with an offset of its own. -/
theorem mediaRtpHeader_of_headerEnd (h : headerEnd packet = some value) :
    ∃ header, mediaRtpHeader packet = some header ∧ header.payloadType = payloadType packet ∧
      header.offset = sourcesEnd packet +
        if extended packet then 4 + extensionWords packet else 0 := by
  obtain ⟨hlength, hversion, hvalue, heq⟩ := headerEnd_eq_some h
  unfold mediaRtpHeader
  have hfixed : ¬(packet.length < 12 || version packet ≠ 2) = true := by
    simp only [hversion, Bool.or_eq_true, decide_eq_true_eq, not_or, not_lt]
    exact ⟨hlength, not_not.mpr rfl⟩
  rw [if_neg hfixed]
  -- the length of the extension is counted in octets here
  cases hextended : extended packet with
  | true =>
    simp only [hextended, if_true] at heq
    rw [if_neg (by simp; omega)]
    simp only [if_true]
    rw [if_neg (by omega)]
    exact ⟨_, rfl, rfl, rfl⟩
  | false =>
    simp only [hextended] at heq
    simp only [Bool.false_and, Bool.false_eq_true, if_false]
    rw [if_neg (by simp at heq; omega)]
    exact ⟨_, rfl, rfl, rfl⟩

theorem mediaRtpReceive_of_headerEnd (h : headerEnd packet = some value)
    (hcodec : payloadType packet = codec.number) :
    ∃ header, mediaRtpReceive packet = some header ∧ header.offset = sourcesEnd packet +
      if extended packet then 4 + extensionWords packet else 0 := by
  obtain ⟨header, hheader, htype, hoffset⟩ := mediaRtpHeader_of_headerEnd h
  refine ⟨header, ?_, hoffset⟩
  rw [mediaRtpReceive, hheader, Option.filter_some, if_pos]
  rw [htype, hcodec]
  cases codec <;> rfl

/-- The length of an extension is zero, or there is none. -/
def ExtensionEmpty (packet : List UInt8) : Prop :=
  extended packet = true → extensionWords packet = 0

/-- **The offset of the media core**: words and octets are the same for an empty extension only. -/
theorem mediaRtpReceive_offset_eq_iff (h : headerEnd packet = some value)
    (hcodec : payloadType packet = codec.number) :
    (∀ header, mediaRtpReceive packet = some header → header.offset = value) ↔
      ExtensionEmpty packet := by
  obtain ⟨header, hheader, hoffset⟩ := mediaRtpReceive_of_headerEnd h hcodec
  obtain ⟨-, -, -, hvalue⟩ := headerEnd_eq_some h
  have hall : (∀ header, mediaRtpReceive packet = some header → header.offset = value) ↔
      header.offset = value := by
    simp [hheader]
  rw [hall, hoffset, hvalue, ExtensionEmpty]
  cases extended packet with
  | true => simp; omega
  | false => simp

/-! ## When the parsers agree -/

/-- This parser takes everything behind the header for audio. -/
theorem mediaPlaybackToModem_eq_some {payload : List UInt8} (h : headerEnd packet = some value) :
    mediaPlaybackToModem codec packet = some payload ↔
      payloadType packet = codec.number ∧ packet.length - value = rtpPayloadSize ∧
        payload = (packet.drop value).take rtpPayloadSize := by
  simp only [mediaPlaybackToModem, h]
  constructor
  · intro heq
    split at heq
    · contradiction
    -- type and length are all it looks at
    next hfits =>
      simp only [Bool.or_eq_true, decide_eq_true_eq, not_or, not_not] at hfits
      rw [hfits.2] at heq
      exact ⟨hfits.1, hfits.2, (Option.some.inj heq).symm⟩
  · intro hfits
    simp [hfits.1, hfits.2.1, hfits.2.2]

/-- The other one leaves out the padding. -/
theorem receiveAudio_eq_some {payload : List UInt8} :
    receiveAudio codec packet = some payload ↔
      ∃ offset, payloadOffset packet = some (offset, rtpPayloadSize) ∧
        payloadType packet = codec.number ∧
        payload = (packet.drop offset).take rtpPayloadSize := by
  unfold receiveAudio
  cases hoffset : payloadOffset packet with
  | none => simp
  | some x =>
    obtain ⟨offset, payloadLength⟩ := x
    constructor
    · intro heq
      dsimp only at heq
      split at heq
      · contradiction
      next hfits =>
        simp only [Bool.or_eq_true, decide_eq_true_eq, not_or, not_not] at hfits
        obtain ⟨⟨htype, rfl⟩, -⟩ := hfits
        exact ⟨offset, rfl, htype, (Option.some.inj heq).symm⟩
    · intro heq
      obtain ⟨offset', heq, htype, rfl⟩ := heq
      obtain ⟨rfl, rfl⟩ := heq
      -- the media core does not refuse what has been accepted so far
      obtain ⟨header, hheader, -⟩ :=
        mediaRtpReceive_of_headerEnd (headerEnd_of_payloadOffset hoffset) htype
      simp [htype, hheader]

/-- A frame of audio in the codec: a header that is taken apart without an error, the payload type,
and behind the header the octets of a frame, which may be followed by padding. -/
def Frame (codec : RtpCodec) (packet : List UInt8) : Prop :=
  ∃ value, headerEnd packet = some value ∧ payloadType packet = codec.number ∧
    (packet.length = value + rtpPayloadSize ∨
      padded packet = true ∧ octet packet (packet.length - 1) ≠ 0 ∧
        packet.length = value + rtpPayloadSize + octet packet (packet.length - 1))

/-- Frames are what at least one side takes audio from. -/
theorem frame_iff : Frame codec packet ↔
    (receiveAudio codec packet).isSome ∨ (mediaPlaybackToModem codec packet).isSome := by
  simp only [Option.isSome_iff_exists, receiveAudio_eq_some]
  constructor
  · rintro ⟨value, hend, htype, hlength | hpadding⟩
    · refine .inr ⟨_, (mediaPlaybackToModem_eq_some hend).mpr ⟨htype, by omega, rfl⟩⟩
    · obtain ⟨hpadded, hpadding⟩ := hpadding
      exact .inl ⟨_, value, (payloadOffset_of_padded hpadded).mpr ⟨hend, hpadding⟩, htype, rfl⟩
  · rintro (⟨payload, value, hoffset, htype, -⟩ | ⟨payload, hpayload⟩)
    · have hend := headerEnd_of_payloadOffset hoffset
      refine ⟨value, hend, htype, ?_⟩
      -- without padding the length is the same for both
      cases hpadded : padded packet with
      | true => exact .inr ⟨rfl, ((payloadOffset_of_padded hpadded).mp hoffset).2⟩
      | false =>
        have hvalue := (headerEnd_eq_some hend).2.2.1
        rw [payloadOffset_of_not_padded hend hpadded] at hoffset
        simp only [Option.some.injEq, Prod.mk.injEq, true_and] at hoffset
        exact .inl (by omega)
    · cases hend : headerEnd packet with
      | none => simp [mediaPlaybackToModem, hend] at hpayload
      | some value =>
        obtain ⟨htype, hlength, -⟩ := (mediaPlaybackToModem_eq_some hend).mp hpayload
        have hvalue := (headerEnd_eq_some hend).2.2.1
        exact ⟨value, hend, htype, .inl (by omega)⟩

/-- **The parsers agree** on a packet exactly if it is no frame of audio, or it has no padding and no
words in a header extension. -/
theorem parsersAgree_iff (codec : RtpCodec) (packet : List UInt8) :
    ParsersAgree codec packet ↔
      (Frame codec packet → padded packet = false ∧ ExtensionEmpty packet) := by
  rw [frame_iff]
  constructor
  · intro hagree haccepted
    -- what one side takes the other takes as well
    obtain ⟨payload, hpayload⟩ : ∃ payload, receiveAudio codec packet = some payload := by
      rw [hagree.payload, or_self] at haccepted
      rw [hagree.payload]
      exact Option.isSome_iff_exists.mp haccepted
    obtain ⟨offset, hoffset, htype, -⟩ := receiveAudio_eq_some.mp hpayload
    have hend := headerEnd_of_payloadOffset hoffset
    have hbridge := hagree.payload ▸ hpayload
    obtain ⟨-, hlength, -⟩ := (mediaPlaybackToModem_eq_some hend).mp hbridge
    constructor
    · cases hpadded : padded packet with
      | false => rfl
      | true =>
        -- the padding would be part of the payload for one side only
        obtain ⟨-, hpadding, hlength'⟩ := (payloadOffset_of_padded hpadded).mp hoffset
        omega
    · apply (mediaRtpReceive_offset_eq_iff hend htype).mp
      exact hagree.offset (by simp [hpayload]) offset _ hoffset
  · intro hplain
    have hsame : receiveAudio codec packet = mediaPlaybackToModem codec packet := by
      cases hend : headerEnd packet with
      | none => simp [receiveAudio, payloadOffset, mediaPlaybackToModem, hend]
      | some value =>
        by_cases haccepted :
            (receiveAudio codec packet).isSome ∨ (mediaPlaybackToModem codec packet).isSome
        · have hpadded := (hplain haccepted).1
          apply Option.ext
          intro payload
          rw [receiveAudio_eq_some, mediaPlaybackToModem_eq_some hend,
            payloadOffset_of_not_padded hend hpadded]
          simp
          tauto
        · simp only [not_or, Bool.not_eq_true, Option.isSome_eq_false_iff,
            Option.isNone_iff_eq_none] at haccepted
          rw [haccepted.1, haccepted.2]
    refine ⟨hsame, ?_⟩
    intro haccepted offset payloadLength hoffset
    obtain ⟨-, hempty⟩ := hplain (.inl haccepted)
    obtain ⟨payload, hpayload⟩ := Option.isSome_iff_exists.mp haccepted
    obtain ⟨_, _, htype, -⟩ := receiveAudio_eq_some.mp hpayload
    exact (mediaRtpReceive_offset_eq_iff (headerEnd_of_payloadOffset hoffset) htype).mpr hempty

/-- A packet in PCMA with the given first octet, and with the given octets behind the fixed header.
-/
def rtpPacket (first : UInt8) (rest : List UInt8) : List UInt8 :=
  first :: 8 :: List.replicate 10 0 ++ rest

/-- A packet with four octets of padding is audio for the voice daemon and refused by the gateway;
one whose payload is shorter by its padding is the other way round.  Behind an extension of one word
the media core looks three octets before the payload. -/
theorem parsers_disagree :
    let payload := List.replicate 160 (0x55 : UInt8)
    let surplus := rtpPacket 0xa0 (payload ++ [0, 0, 0, 4])
    let deficit := rtpPacket 0xa0 (List.replicate 156 0x55 ++ [0, 0, 0, 4])
    let word := rtpPacket 0x90 ([0, 0, 0, 1, 0, 0, 0, 0] ++ payload)
    receiveAudio .pcma surplus = some payload ∧ mediaPlaybackToModem .pcma surplus = none ∧
      receiveAudio .pcma deficit = none ∧ (mediaPlaybackToModem .pcma deficit).isSome ∧
      receiveAudio .pcma word = some payload ∧ payloadOffset word = some (20, 160) ∧
      (mediaRtpReceive word).map ReceivedHeader.offset = some 17 := by
  decide +kernel

end QModem.Voip
