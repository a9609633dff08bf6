import QModem.Lib.Run
import QModem.Sip.Isolation

/-!
# Replay of Digest Responses

A digest response is accepted with a nonce of the table and a nonce count above the last one of
this nonce.  The table has 32 slots; a new nonce takes the place of the oldest one when all slots
are in use.  What PJSIP says about the response itself is arbitrary.

## Main definitions

- `History`: the gateway with the nonces it has issued and the responses it has accepted
- `History.step`: one request to `authenticate`
- `History.ReplayFree`: no response is accepted twice, the counts of a nonce rise, and a nonce is
  good for its own address and for less than 60 seconds

## Main results

- `History.step_cases`: a request leaves nonces alone, issues one or commits one
- `replayFree_iff`: a run is free of replays exactly if no response is accepted with a slot that has
  never held a nonce
-/

namespace QModem.Sip

open Lib List

def Nonce.free : Nonce := ⟨0, 0, 0, []⟩

def hexText (bytes : List UInt8) : Text :=
  bytes.flatMap fun byte : UInt8 =>
    [hex.getD (byte >>> 4).toNat 0, hex.getD (byte &&& 0x0f).toNat 0]

/-- A nonce was sent to an address. -/
structure Issue where
  source : UInt32
  nonce : Text
  time : UInt64
  deriving DecidableEq

/-- A digest response of an address was accepted. -/
structure Acceptance where
  source : UInt32
  nonce : Text
  nc : ℕ
  time : UInt64
  deriving DecidableEq

/-- The gateway with all nonces it has issued and all responses it has accepted. -/
structure History where
  gateway : Consumer
  issued : List Issue
  accepted : List Acceptance

namespace History

/-- The gateway starts with an empty table. -/
def start (g : Consumer) : History := ⟨{ g with nonces := .replicate 32 .free }, [], []⟩

/-- The nonce and the count of a response, as the gateway reads them. -/
def response (out : Outside) (g : Consumer) (r : Request) : Option Acceptance := do
  let header ← r.authorization
  let (_, nc) ← g.acceptedNonce out r
  return ⟨r.source, header.nonce, nc, out.now⟩

/-- One request that has to be authenticated. -/
def step (h : History) (e : Outside × Request) : History :=
  let (g, admitted) := { h.gateway with responses := [] }.authenticate e.1 e.2
  { gateway := g
    issued := h.issued ++ g.responses.filterMap fun response =>
      response.challenge.map fun challenge => ⟨e.2.source, challenge.1, e.1.now⟩
    accepted := h.accepted ++ if admitted then (response e.1 h.gateway e.2).toList else [] }

/-- Random bytes make a nonce that has not been issued before. -/
def Fresh (h : History) (e : Outside × Request) : Prop :=
  ∀ bytes ∈ e.1.random, bytes.length = 16 ∧ ∀ x ∈ h.issued, x.nonce ≠ hexText bytes

/-- `qmodem_voip_sip_nonce_check` does not skip free slots.  Their address is 0.0.0.0, their time
zero and their nonce the empty string, which `strcmp` finds in a nonce that begins with a zero byte.
-/
structure AcceptsBlank (h : History) (e : Outside × Request) : Prop where
  source : e.2.source = 0
  early : e.1.now < 60
  blank : ∃ header ∈ e.2.authorization, cString header.nonce = []
  matched : (h.gateway.acceptedNonce e.1 e.2).isSome = true
  right : e.1.verdict = none

end History

/-! ## The table -/

/-- A nonce that is accepted stands in a slot, is less than a minute old and has a new count. -/
theorem nonceCheck_eq_ok {address : UInt32} {nonce : Text} {now : UInt64} {nc k j : ℕ}
    {slots : List Nonce} (h : nonceCheck address nonce now nc slots k = .ok j) :
    ∃ i slot, j = k + i ∧ slots[i]? = some slot ∧ slot.address = address ∧ slot.value = nonce ∧
      slot.issued ≤ now ∧ now - slot.issued < 60 ∧ slot.lastNc < nc := by
  induction slots generalizing k with
  | nil => cases h
  | cons slot slots ih =>
    unfold nonceCheck at h
    split at h
    · -- another slot, so the search goes on
      obtain ⟨i, found, rfl, hget, hrest⟩ := ih h
      exact ⟨i + 1, found, by omega, by simpa using hget, hrest⟩
    · rename_i hmatch
      split at h
      · cases h
      · rename_i htime
        split at h
        · cases h
        · rename_i hnc
          obtain rfl : k = j := by simpa using h
          simp only [ne_eq, Bool.or_eq_true, decide_eq_true_eq, not_or, not_not, UInt64.not_lt,
            UInt64.not_le, Nat.not_le] at hmatch htime hnc
          exact ⟨0, slot, rfl, rfl, hmatch.1, hmatch.2, htime.1, htime.2, hnc.2⟩

theorem length_hexText {bytes : List UInt8} : (hexText bytes).length = 2 * bytes.length := by
  induction bytes with
  | nil => rfl
  | cons byte bytes ih =>
    rw [hexText, flatMap_cons, length_append, ← hexText, ih, length_cons]
    simp only [length_cons, length_nil]
    omega

theorem cString_hexText {bytes : List UInt8} : cString (hexText bytes) = hexText bytes := by
  refine cString_eq_self fun b hb => ?_
  obtain ⟨byte, -, hpair⟩ := mem_flatMap.mp hb
  exact (hex_text (hexPair_mem byte b hpair)).1

/-- A C string of the length of its buffer is the buffer. -/
theorem eq_cString_of_length {text : Text} (h : (cString text).length = text.length) :
    cString text = text :=
  (List.takeWhile_prefix _).eq_of_length h

theorem nonceIssue_eq_some {nonces nonces' : List Nonce} {address : UInt32} {now : UInt64}
    {random : Option (List UInt8)} {value : Text}
    (h : nonceIssue nonces address now random = some (nonces', value)) :
    ∃ bytes ∈ random, ∃ i, nonces' = nonces.set i ⟨address, now, 0, hexText bytes⟩ ∧
      value = hexText bytes := by
  simp only [nonceIssue, Option.bind_eq_bind, Option.bind_eq_some_iff] at h
  obtain ⟨bytes, hbytes, ⟨i, old⟩, -, heq⟩ := h
  cases heq
  exact ⟨bytes, hbytes, i, rfl, rfl⟩

/-- An accepted response names a nonce of full length that a slot matches. -/
theorem acceptedNonce_eq_some {out : Outside} {g : Consumer} {r : Request} {slot nc : ℕ}
    (h : g.acceptedNonce out r = some (slot, nc)) :
    ∃ header, r.authorization = some header ∧ header.nonce.length = 32 ∧
      nonceCheck r.source (cString header.nonce) out.now nc g.nonces 0 = .ok slot := by
  unfold Consumer.acceptedNonce at h
  cases hheader : r.authorization with
  | none => rw [hheader] at h; cases h
  | some header =>
    simp only [hheader, Option.bind_eq_bind, Option.bind_some] at h
    split at h
    · cases h
    · -- the form of the header is checked before the table is searched
      rename_i hform
      simp only [ne_eq, Bool.or_eq_true, decide_eq_true_eq, not_or, not_not] at hform
      split at h
      · split at h
        · rename_i hcheck
          cases h
          exact ⟨header, rfl, hform.1.2, hcheck⟩
        · cases h
      · cases h

/-! ## One request -/

namespace History

/-- **One request** leaves the nonces alone, issues one, or commits the one of an accepted
response. -/
theorem step_cases (h : History) (e : Outside × Request) :
    ((h.step e).gateway.nonces = h.gateway.nonces ∧ (h.step e).issued = h.issued ∧
        (h.step e).accepted = h.accepted) ∨
      (∃ bytes ∈ e.1.random, ∃ i,
        (h.step e).gateway.nonces = h.gateway.nonces.set i ⟨e.2.source, e.1.now, 0, hexText bytes⟩ ∧
        (h.step e).issued = h.issued ++ [⟨e.2.source, hexText bytes, e.1.now⟩] ∧
        (h.step e).accepted = h.accepted) ∨
      ∃ header ∈ e.2.authorization, ∃ (i nc : ℕ), header.nonce.length = 32 ∧
        nonceCheck e.2.source (cString header.nonce) e.1.now nc h.gateway.nonces 0 = .ok i ∧
        (h.step e).gateway.nonces = nonceCommit h.gateway.nonces i nc ∧
        (h.step e).issued = h.issued ∧
        (h.step e).accepted = h.accepted ++ [⟨e.2.source, header.nonce, nc, e.1.now⟩] := by
  obtain ⟨out, r⟩ := e
  have hsame : { h.gateway with responses := [] }.acceptedNonce out r = h.gateway.acceptedNonce out r :=
    rfl
  simp only [step, Consumer.authenticate, hsame]
  cases haccepted : h.gateway.acceptedNonce out r with
  | none =>
    -- no good nonce: the rate limit, no random bytes, or a new nonce
    simp only [Consumer.challenge]
    split
    · exact .inl (by simp [Consumer.respond])
    · split
      · exact .inl (by simp [Consumer.respond])
      · rename_i hissue
        obtain ⟨bytes, hbytes, i, rfl, rfl⟩ := nonceIssue_eq_some hissue
        exact .inr (.inl ⟨bytes, hbytes, i, rfl, by simp [Consumer.respondChallenge], by simp⟩)
  | some accepted =>
    obtain ⟨slot, nc⟩ := accepted
    -- the nonce is committed only if PJSIP accepts the response
    cases hverdict : out.verdict with
    | some status => exact .inl (by simp [Consumer.respond])
    | none =>
      obtain ⟨header, hheader, hlength, hcheck⟩ := acceptedNonce_eq_some haccepted
      refine .inr (.inr ⟨header, hheader, slot, nc, hlength, hcheck, ?_, ?_, ?_⟩)
      · rfl
      · simp
      · simp [response, hheader, haccepted]

/-- Exactly a response with a good nonce that PJSIP finds right is accepted. -/
theorem accepted_grows_iff (h : History) (e : Outside × Request) :
    (h.step e).accepted ≠ h.accepted ↔
      (h.gateway.acceptedNonce e.1 e.2).isSome = true ∧ e.1.verdict = none := by
  obtain ⟨_, _, _, _, hauthenticate, -⟩ :=
    Consumer.authenticate_eq e.1 { h.gateway with responses := [] } e.2
  have hsame : { h.gateway with responses := [] }.acceptedNonce e.1 e.2 =
      h.gateway.acceptedNonce e.1 e.2 := rfl
  simp only [step, hauthenticate, hsame]
  -- both are needed: a nonce of the table, and the digest that PJSIP has found right
  cases haccepted : h.gateway.acceptedNonce e.1 e.2 with
  | none => simp
  | some accepted =>
    obtain ⟨header, hheader, -⟩ := acceptedNonce_eq_some haccepted
    have hheader : e.2.authorization = some header := hheader
    cases e.1.verdict with
    | none => simp [response, hheader, haccepted]
    | some status => simp

/-! ## Runs -/

/-- What the replay protection is for: no response is accepted twice, the counts of a nonce rise,
and a nonce is accepted from the address it was issued to, less than 60 seconds later. -/
structure ReplayFree (h : History) : Prop where
  once : (h.accepted.map fun a => (a.source, a.nonce, a.nc)).Nodup
  rising : h.accepted.Pairwise fun a b => a.nonce = b.nonce → a.nc < b.nc
  issued : ∀ a ∈ h.accepted, ∃ x ∈ h.issued, x.source = a.source ∧ x.nonce = a.nonce ∧
    x.time.toNat ≤ a.time.toNat ∧ a.time.toNat < x.time.toNat + 60

/-- The slots of the table agree with the history. -/
structure Sound (h : History) : Prop where
  slots : ∀ (i : ℕ) (slot : Nonce), h.gateway.nonces[i]? = some slot → slot = .free ∨
    ⟨slot.address, slot.value, slot.issued⟩ ∈ h.issued ∧
      ∀ a ∈ h.accepted, a.nonce = slot.value → a.nc ≤ slot.lastNc
  distinct : ∀ (i j : ℕ) (a b : Nonce), h.gateway.nonces[i]? = some a →
    h.gateway.nonces[j]? = some b → a.value = b.value → a.value ≠ [] → i = j
  texts : ∀ x ∈ h.issued, x.nonce.length = 32 ∧ cString x.nonce = x.nonce
  replayFree : ReplayFree h

theorem sound_start (g : Consumer) : Sound (start g) where
  slots i slot hslot := .inl (eq_of_mem_replicate (mem_of_getElem? hslot))
  distinct i j a b ha hb hvalue hne := by
    have hfree := eq_of_mem_replicate (mem_of_getElem? ha)
    rw [hfree] at hne
    exact absurd rfl hne
  texts x hx := by cases hx
  replayFree := ⟨nodup_nil, Pairwise.nil, fun a ha => by cases ha⟩

variable {h h' : History}

theorem once_of_rising {accepted : List Acceptance}
    (h : accepted.Pairwise fun a b => a.nonce = b.nonce → a.nc < b.nc) :
    (accepted.map fun a => (a.source, a.nonce, a.nc)).Nodup := by
  refine pairwise_map.mpr (h.imp fun {a b} hab hsame => ?_)
  simp only [Prod.mk.injEq] at hsame
  exact absurd (hab hsame.2.1) (by omega)

/-- Soundness is about the nonces, what was issued and what was accepted. -/
theorem Sound.congr (hs : Sound h) (hnonces : h'.gateway.nonces = h.gateway.nonces)
    (hissued : h'.issued = h.issued) (haccepted : h'.accepted = h.accepted) : Sound h' := by
  obtain ⟨hslots, hdistinct, htexts, ⟨honce, hrising, hbefore⟩⟩ := hs
  refine ⟨?_, ?_, ?_, ⟨?_, ?_, ?_⟩⟩
  · rwa [hnonces, hissued, haccepted]
  · rwa [hnonces]
  · rwa [hissued]
  · rwa [haccepted]
  · rwa [haccepted]
  · rwa [hissued, haccepted]

variable {i : ℕ}

section

variable (hs : Sound h)

include hs

/-- A nonce that has not been issued is in no slot. -/
theorem Sound.value_ne {nonce : Text} (hne : nonce ≠ []) (hfresh : ∀ x ∈ h.issued, x.nonce ≠ nonce)
    {slot : Nonce} (hslot : h.gateway.nonces[i]? = some slot) : slot.value ≠ nonce := by
  rcases hs.slots i slot hslot with rfl | ⟨hissued, -⟩
  · exact hne.symm
  · exact hfresh _ hissued

/-- A new nonce takes a slot.  It was not issued before, so no response names it yet. -/
theorem Sound.issue {x : Issue} (htext : x.nonce.length = 32 ∧ cString x.nonce = x.nonce)
    (hfresh : ∀ y ∈ h.issued, y.nonce ≠ x.nonce)
    (hnonces : h'.gateway.nonces = h.gateway.nonces.set i ⟨x.source, x.time, 0, x.nonce⟩)
    (hissued : h'.issued = h.issued ++ [x]) (haccepted : h'.accepted = h.accepted) : Sound h' := by
  have hne : x.nonce ≠ [] := ne_nil_of_length_pos (by omega)
  -- one slot is new, whichever it was that had to go
  have hslot : ∀ (j : ℕ) (slot : Nonce), h'.gateway.nonces[j]? = some slot →
      j = i ∧ slot = ⟨x.source, x.time, 0, x.nonce⟩ ∨ j ≠ i ∧ h.gateway.nonces[j]? = some slot := by
    intro j slot hget
    rw [hnonces, getElem?_set] at hget
    by_cases hij : i = j
    · subst hij
      simp only [if_true] at hget
      split at hget
      · exact .inl ⟨rfl, by simpa using hget.symm⟩
      · cases hget
    · exact .inr ⟨Ne.symm hij, by simpa [hij] using hget⟩
  refine ⟨fun j slot hget => ?_, fun j k a b ha hb hvalue hnonempty => ?_, fun y hy => ?_, ?_⟩
  · rcases hslot j slot hget with ⟨-, rfl⟩ | ⟨-, hold⟩
    · refine .inr ⟨by simp [hissued], fun a ha hsame => ?_⟩
      -- the nonce of an accepted response had been issued, so this is another one
      rw [haccepted] at ha
      obtain ⟨y, hy, -, hy', -⟩ := hs.replayFree.issued a ha
      exact absurd (hy'.trans hsame) (hfresh y hy)
    · rw [hissued, haccepted]
      exact (hs.slots j slot hold).imp_right fun hrest => ⟨mem_append_left _ hrest.1, hrest.2⟩
  · rcases hslot j a ha with ⟨rfl, rfl⟩ | ⟨-, ha⟩
    · rcases hslot k b hb with ⟨rfl, -⟩ | ⟨-, hb⟩
      · rfl
      · exact absurd hvalue.symm (hs.value_ne hne hfresh hb)
    · rcases hslot k b hb with ⟨-, rfl⟩ | ⟨-, hb⟩
      · exact absurd hvalue (hs.value_ne hne hfresh ha)
      · exact hs.distinct j k a b ha hb hvalue hnonempty
  · rw [hissued, mem_append, mem_singleton] at hy
    rcases hy with hy | rfl
    · exact hs.texts y hy
    · exact htext
  · obtain ⟨honce, hrising, hbefore⟩ := hs.replayFree
    refine ⟨haccepted ▸ honce, haccepted ▸ hrising, fun a ha => ?_⟩
    rw [haccepted] at ha
    obtain ⟨y, hy, hrest⟩ := hbefore a ha
    exact ⟨y, hissued ▸ mem_append_left _ hy, hrest⟩

/-- The slot a response was accepted with. -/
theorem Sound.slot_of_check {source : UInt32} {nonce : Text} {now : UInt64} {nc : ℕ}
    (hlength : nonce.length = 32) (hne : cString nonce ≠ [])
    (hcheck : nonceCheck source (cString nonce) now nc h.gateway.nonces 0 = .ok i) :
    ∃ slot, h.gateway.nonces[i]? = some slot ∧ slot.address = source ∧ slot.value = nonce ∧
      ⟨source, nonce, slot.issued⟩ ∈ h.issued ∧
      slot.issued.toNat ≤ now.toNat ∧ now.toNat < slot.issued.toNat + 60 ∧
      slot.lastNc < nc ∧ ∀ a ∈ h.accepted, a.nonce = nonce → a.nc ≤ slot.lastNc := by
  obtain ⟨k, slot, hk, hget, haddress, hvalue, hle, hlt, hnc⟩ := nonceCheck_eq_ok hcheck
  obtain rfl : i = k := by omega
  -- a free slot has an empty text, which only a blank nonce matches
  rcases hs.slots i slot hget with rfl | ⟨hissued, hcounts⟩
  · exact absurd hvalue.symm hne
  · have hlen := (hs.texts _ hissued).1
    have hnonce : slot.value = nonce := by
      rw [hvalue]
      exact eq_cString_of_length (by rw [← hvalue, hlength]; exact hlen)
    rw [hnonce] at hissued hcounts
    rw [haddress] at hissued
    refine ⟨slot, hget, haddress, hnonce, hissued, UInt64.le_iff_toNat_le.mp hle, ?_, hnc, hcounts⟩
    -- the age is a difference of unsigned numbers; it does not wrap around
    have hdiff := UInt64.lt_iff_toNat_lt.mp hlt
    rw [UInt64.toNat_sub_of_le _ _ hle] at hdiff
    have hsixty : (60 : UInt64).toNat = 60 := rfl
    omega

/-- An accepted response raises the count of its slot. -/
theorem Sound.accept {a : Acceptance} (hlength : a.nonce.length = 32)
    (hspelled : cString a.nonce ≠ [])
    (hcheck : nonceCheck a.source (cString a.nonce) a.time a.nc h.gateway.nonces 0 = .ok i)
    (hnonces : h'.gateway.nonces = nonceCommit h.gateway.nonces i a.nc)
    (hissued : h'.issued = h.issued) (haccepted : h'.accepted = h.accepted ++ [a]) : Sound h' := by
  obtain ⟨slot, hget, haddress, hvalue, hissue, hle, hlt, hnc, hcounts⟩ :=
    hs.slot_of_check hlength hspelled hcheck
  have hne : a.nonce ≠ [] := ne_nil_of_length_pos (by omega)
  have hslot : ∀ (j : ℕ) (b : Nonce), h'.gateway.nonces[j]? = some b →
      j = i ∧ b = { slot with lastNc := a.nc } ∨ j ≠ i ∧ h.gateway.nonces[j]? = some b := by
    intro j b hb
    rw [hnonces, nonceCommit, getElem?_modify] at hb
    by_cases hij : i = j
    · subst hij
      rw [hget] at hb
      simp only [if_true, Option.map_eq_map, Option.map_some, Option.some.injEq, if_pos hnc] at hb
      exact .inl ⟨rfl, hb.symm⟩
    · exact .inr ⟨Ne.symm hij, by simpa [hij] using hb⟩
  -- a commit changes a count and no value
  have hold : ∀ (j : ℕ) (b : Nonce), h'.gateway.nonces[j]? = some b →
      ∃ b', h.gateway.nonces[j]? = some b' ∧ b'.value = b.value := by
    intro j b hb
    rcases hslot j b hb with ⟨rfl, rfl⟩ | ⟨-, hb⟩
    · exact ⟨slot, hget, rfl⟩
    · exact ⟨b, hb, rfl⟩
  refine ⟨fun j b hb => ?_, fun j k b c hb hc hsame hnonempty => ?_, ?_, ?_⟩
  · rw [hissued, haccepted]
    rcases hslot j b hb with ⟨rfl, rfl⟩ | ⟨hj, hb⟩
    · refine .inr ⟨by rw [haddress, hvalue]; exact hissue, fun c hc hsame => ?_⟩
      rcases mem_append.mp hc with hc | hc
      · exact (hcounts c hc (hsame.trans hvalue)).trans hnc.le
      · exact (mem_singleton.mp hc) ▸ le_rfl
    · refine (hs.slots j b hb).imp_right fun ⟨hmem, hcount⟩ => ⟨hmem, fun c hc hsame => ?_⟩
      rcases mem_append.mp hc with hc | hc
      · exact hcount c hc hsame
      · -- the nonce is in one slot only
        obtain rfl := mem_singleton.mp hc
        exact absurd (hs.distinct j i b slot hb hget (hsame.symm.trans hvalue.symm) (hsame ▸ hne)) hj
  · obtain ⟨b', hb', hbvalue⟩ := hold j b hb
    obtain ⟨c', hc', hcvalue⟩ := hold k c hc
    exact hs.distinct j k b' c' hb' hc' (by rw [hbvalue, hcvalue, hsame]) (by rwa [hbvalue])
  · rw [hissued]
    exact hs.texts
  · have hrising : h'.accepted.Pairwise fun b c => b.nonce = c.nonce → b.nc < c.nc := by
      rw [haccepted, pairwise_append]
      refine ⟨hs.replayFree.rising, pairwise_singleton _ _, fun b hb c hc hsame => ?_⟩
      obtain rfl := mem_singleton.mp hc
      exact (hcounts b hb hsame).trans_lt hnc
    refine ⟨once_of_rising hrising, hrising, ?_⟩
    rw [haccepted, hissued]
    exact forall_mem_append.mpr ⟨hs.replayFree.issued,
      forall_mem_singleton.mpr ⟨_, hissue, rfl, rfl, hle, hlt⟩⟩

/-- Only a free slot matches an empty nonce. -/
theorem Sound.of_blank {source : UInt32} {now : UInt64} {nc : ℕ}
    (hcheck : nonceCheck source [] now nc h.gateway.nonces 0 = .ok i) : source = 0 ∧ now < 60 := by
  obtain ⟨k, slot, -, hget, haddress, hvalue, -, hlt, -⟩ := nonceCheck_eq_ok hcheck
  rcases hs.slots k slot hget with rfl | ⟨hissued, -⟩
  · have hnow : now - 0 < 60 := hlt
    rw [UInt64.sub_zero] at hnow
    exact ⟨haddress.symm, hnow⟩
  · have hlength := (hs.texts _ hissued).1
    rw [hvalue] at hlength
    cases hlength

/-- **One request** keeps the table in agreement with the history. -/
theorem Sound.step {e : Outside × Request} (hfresh : Fresh h e) (hspelled : ¬ AcceptsBlank h e) :
    Sound (h.step e) := by
  rcases h.step_cases e with ⟨hnonces, hissued, haccepted⟩ |
    ⟨bytes, hbytes, i, hnonces, hissued, haccepted⟩ |
    ⟨header, hheader, i, nc, hlength, hcheck, hnonces, hissued, haccepted⟩
  · exact hs.congr hnonces hissued haccepted
  · obtain ⟨hsize, hnew⟩ := hfresh bytes hbytes
    exact hs.issue (x := ⟨e.2.source, hexText bytes, e.1.now⟩)
      ⟨by rw [length_hexText, hsize], cString_hexText⟩ hnew hnonces hissued haccepted
  · refine hs.accept (a := ⟨e.2.source, header.nonce, nc, e.1.now⟩) hlength (fun hblank => ?_) hcheck
      hnonces hissued haccepted
    -- an empty nonce can only have met a free slot
    have hempty : nonceCheck e.2.source [] e.1.now nc h.gateway.nonces 0 = .ok i := hblank ▸ hcheck
    obtain ⟨hsource, hearly⟩ := hs.of_blank hempty
    obtain ⟨hmatched, hright⟩ := (h.accepted_grows_iff e).mp (by simp [haccepted])
    exact hspelled ⟨hsource, hearly, ⟨header, hheader, hblank⟩, hmatched, hright⟩

/-- No nonce that was issued begins with a zero byte. -/
theorem Sound.not_acceptsBlank {e : Outside × Request} (hfree : ReplayFree (h.step e)) :
    ¬ AcceptsBlank h e := by
  rintro ⟨-, -, ⟨header, hheader, hblank⟩, hmatched, hright⟩
  have hgrown := (h.accepted_grows_iff e).mpr ⟨hmatched, hright⟩
  rcases h.step_cases e with ⟨-, -, haccepted⟩ | ⟨-, -, -, -, -, haccepted⟩ |
    ⟨header', hheader', i, nc, hlength, -, -, hissued, haccepted⟩
  · exact hgrown haccepted
  · exact hgrown haccepted
  · -- a blank nonce was never issued
    obtain rfl : header = header' := Option.mem_unique hheader hheader'
    obtain ⟨x, hx, -, hnonce, -⟩ := hfree.issued ⟨e.2.source, header.nonce, nc, e.1.now⟩
      (by simp [haccepted])
    have htext := (hs.texts x (hissued ▸ hx)).2
    simp only [hnonce] at htext
    rw [← htext, hblank] at hlength
    cases hlength

end

/-- **Replay protection**: in a run of requests from any addresses, with fresh nonces, no response
is accepted twice, the accepted counts of a nonce rise, and a nonce is accepted only from the
address it was issued to and less than 60 seconds later, exactly if no free slot of the table is
taken for a nonce that was issued. -/
theorem replayFree_iff (g : Consumer) (events : List (Outside × Request))
    (hfresh : Along step Fresh (start g) events) :
    Throughout step ReplayFree (start g) events ↔
      Along step (fun h e => ¬ AcceptsBlank h e) (start g) events := by
  apply throughout_iff_along_of_strong Sound
  · exact fun _ hs => hs.replayFree
  · exact fun _ _ _ hs hfree => hs.not_acceptsBlank hfree
  · exact fun _ _ hnew hs hspelled => hs.step hnew hspelled
  · exact sound_start g
  · exact hfresh

/-- An INVITE of a phone without and with a digest response. -/
def invites : List (Outside × Request) :=
  let request (nc : String) : Request :=
    { Request.invite "10086" "call" with
      overOwnTls := false
      authorization := some ⟨ascii "auth", hexText (.replicate 16 7), ascii nc⟩ }
  [({ Outside.working with random := some (.replicate 16 7) },
      { Request.invite "10086" "call" with overOwnTls := false }),
    (.working, request "00000001"), (.working, request "00000001"), (.working, request "00000002")]

/-- The second response is a replay, and is not accepted. -/
theorem replayFree_iff_invites :
    Throughout step ReplayFree (start Consumer.lan) invites ∧
      (run step (start Consumer.lan) invites).accepted.map (·.nc) = [1, 2] := by
  refine ⟨(replayFree_iff Consumer.lan invites ?_).mpr ?_, by decide +kernel⟩
  · refine ⟨fun bytes hbytes => ?_, ?_⟩
    · cases hbytes
      exact ⟨rfl, fun x hx => by cases hx⟩
    · exact ⟨by simp [Fresh, Outside.working], by simp [Fresh, Outside.working],
        by simp [Fresh, Outside.working], trivial⟩
  · have hsource : ∀ e ∈ invites, e.2.source ≠ 0 := by simp [invites, Request.invite]
    exact (along_of_forall hsource).imp fun _ _ he hblank => he hblank.source

/-- In the first minute of the clock, a response from 0.0.0.0 with a nonce of a zero byte and 31
letters. -/
def blankNonce : List (Outside × Request) :=
  [({ Outside.working with now := 30 },
    { Request.invite "10086" "call" with
      source := 0
      overOwnTls := false
      authorization := some ⟨ascii "auth", 0 :: .replicate 31 0x61, ascii "00000001"⟩ })]

/-- It is accepted, and no nonce has been issued. -/
theorem blankNonce_not_replayFree :
    Along step Fresh (start Consumer.lan) blankNonce ∧
      ¬ Throughout step ReplayFree (start Consumer.lan) blankNonce := by
  refine ⟨⟨by simp [Fresh, Outside.working], trivial⟩, fun hfree => ?_⟩
  have haccepted : (⟨0, 0 :: .replicate 31 0x61, 1, 30⟩ : Acceptance) ∈
      (run step (start Consumer.lan) blankNonce).accepted := by decide +kernel
  have hissued : (run step (start Consumer.lan) blankNonce).issued = [] := by decide +kernel
  obtain ⟨x, hx, -⟩ := hfree.last.issued _ haccepted
  cases hx

end History

end QModem.Sip
