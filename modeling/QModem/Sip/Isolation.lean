import QModem.Sip.Consumer

/-!
# What a Refused Request Leaves

A request that the gateway refuses should leave its call alone.  Most checks come before anything is
changed.  But a new INVITE ends the call in hand before its own number, its names and the voice
daemon are looked at, and a refresh stores the new media before their address is converted.

## Main results

- `Consumer.placeCall_of_active`: what becomes of a call that a new INVITE ends
- `Consumer.inviteCall_of_busy`: while the voice daemon has a call, this INVITE fails
- `Consumer.isolated_iff`: the requests that leave the call as it is when they are refused
-/

namespace QModem.Sip

open Lib List

/-- The call of the gateway with its media, and the voice daemon. -/
structure Session where
  call : CallRecord
  media : Media
  mediaAttached : Bool
  rtpOpen : Bool
  rtpAttached : Bool
  rtpPeer : Peer
  rtpCodec : ℕ
  voice : Voip.Context

namespace Consumer

def session (g : Consumer) : Session :=
  ⟨g.call, g.media, g.mediaAttached, g.rtpOpen, g.rtpAttached, g.rtpPeer, g.rtpCodec, g.voice⟩

/-- The request in hand was answered with a final error. -/
def Refused (g : Consumer) : Prop := ∃ response ∈ g.responses, 300 ≤ response.status

variable {out : Outside} {g : Consumer} {r : Request}

theorem refused_respond {status : ℕ} (h : 300 ≤ status) : (g.respond status).Refused :=
  ⟨_, mem_append_right _ (mem_singleton_self _), h⟩

/-! ## Authentication -/

def admitted (out : Outside) (g : Consumer) (r : Request) : Bool :=
  g.trusted r || ((g.acceptedNonce out r).isSome && out.verdict.isNone)

variable (out r)

/-- A challenge touches the rates, the nonces and the responses only. -/
theorem challenge_eq (g : Consumer) (r : Request) (stale : Bool) :
    ∃ authRates nonces challengeNonce responses, g.challenge out r stale =
      { g with authRates, nonces, challengeNonce, responses } := by
  unfold challenge
  dsimp only
  split
  · exact ⟨_, _, _, _, rfl⟩
  · split
    · exact ⟨_, _, _, _, rfl⟩
    · exact ⟨_, _, _, _, rfl⟩

/-- Authentication changes what it needs itself, and answers the requests that fail. -/
theorem authenticate_eq (g : Consumer) (r : Request) :
    ∃ authRates nonces challengeNonce responses, g.authenticate out r =
      ({ g with authRates, nonces, challengeNonce, responses },
        (g.acceptedNonce out r).isSome && out.verdict.isNone) ∧
      (((g.acceptedNonce out r).isSome && out.verdict.isNone) = true → responses = g.responses) := by
  unfold authenticate
  cases g.acceptedNonce out r with
  | none =>
    obtain ⟨_, _, _, _, h⟩ := challenge_eq out g r r.authorization.isSome
    exact ⟨_, _, _, _, congrArg (·, false) h, nofun⟩
  | some accepted =>
    cases out.verdict with
    | none => exact ⟨_, _, _, _, rfl, fun _ => rfl⟩
    | some status => exact ⟨_, _, _, _, rfl, nofun⟩

theorem admission_eq (g : Consumer) (r : Request) :
    ∃ authRates nonces challengeNonce responses,
      g.admission out r = ({ g with authRates, nonces, challengeNonce, responses }, g.admitted out r) ∧
        (g.admitted out r = true → responses = g.responses) := by
  unfold admission admitted
  cases g.trusted r with
  | true => exact ⟨_, _, _, _, rfl, fun _ => rfl⟩
  | false => exact authenticate_eq out g r

/-- A phone that registers or leaves does not concern the call. -/
theorem session_registerContact (g : Consumer) (r : Request) :
    (g.registerContact out r).session = g.session := by
  have haccept : ∀ g : Consumer, (g.acceptRegister out).session = g.session := by
    intro g
    unfold acceptRegister
    split <;> rfl
  -- neither the authentication nor the contact is part of the session
  obtain ⟨_, _, _, _, hauthenticate, -⟩ := authenticate_eq out g r
  unfold registerContact
  rw [hauthenticate]
  dsimp only
  split
  · rfl
  · split
    · rfl
    · rfl
    · split_ifs
      · exact haccept _
      · rfl
      · exact haccept _

/-! ## New calls -/

/-- Nothing stands in the way of a new call: the request has a number and names, the voice daemon is
idle and carries out what it is asked for, and the answer can be made. -/
structure Placeable (out : Outside) (voice : Voip.Context) (r : Request) (media : Media) : Prop where
  number : r.number.isSome = true
  names : ∃ identity ∈ r.identity,
    identity.callId ≠ [] ∧ identity.remoteTag ≠ [] ∧ identity.branch ≠ []
  enabled : voice.call.enabled = true
  idle : voice.call.state = .idle
  originates : (out.originate.found && out.originate.replied && out.originate.ready &&
    out.originate.env.runs) = true
  answers : (out.created && setLanAnswer out r media.payloadType && out.addressed) = true

/-- What is taken from the request line is a number that may be dialled. -/
theorem validNumber_of_number {number : Text} (h : r.number = some number) :
    Voip.validNumber number = true := by
  have hdigit : ∀ c ∈ ascii "0123456789+*#,p", (isdigit c || c ∈ ascii "+*#,p") = true := by
    decide +kernel
  unfold Request.number at h
  split_ifs at h with hlength hall
  cases h
  simp only [Bool.or_eq_true, decide_eq_true_eq, not_or, Nat.not_le] at hlength
  unfold Voip.validNumber
  rw [Bool.and_eq_true, Bool.and_eq_true, decide_eq_true_eq, decide_eq_true_eq]
  refine ⟨⟨hlength.1, hlength.2⟩, all_eq_true.mpr fun c hc => hdigit c ?_⟩
  exact of_decide_eq_true (all_eq_true.mp hall c hc)

/-- Names that fit the buffers of the request fit those of the call. -/
theorem begun_isSome_iff {identity : Identity} (h : r.identity = some identity) :
    (CallRecord.begun .lan identity.callId identity.remoteTag identity.branch
        identity.cseq).isSome = true ↔
      identity.callId ≠ [] ∧ identity.remoteTag ≠ [] ∧ identity.branch ≠ [] := by
  have hcopy : ∀ {size : ℕ} {value : Option Text} {text : Text},
      copyPjString size value = some text → text.length < size := by
    intro size value text hcopy
    unfold copyPjString at hcopy
    split at hcopy
    · cases hcopy
    · split_ifs at hcopy with hsize
      cases hcopy
      simp only [Bool.or_eq_true, decide_eq_true_eq, not_or, Nat.not_le] at hsize
      exact (List.takeWhile_prefix _).length_le.trans_lt hsize.2
  -- the sizes were checked when the fields were copied, so only empty ones are refused
  have hsizes : identity.callId.length < callIdSize ∧ identity.remoteTag.length < tagSize ∧
      identity.branch.length < branchSize := by
    unfold Request.identity at h
    simp only [Option.bind_eq_bind, Option.bind_eq_some_iff] at h
    obtain ⟨cseq, -, h⟩ := h
    split_ifs at h
    simp only [Option.bind_eq_some_iff] at h
    obtain ⟨callId, hcallId, tag, htag, branch, hbranch, h⟩ := h
    cases h
    exact ⟨hcopy hcallId, hcopy htag, hcopy hbranch⟩
  obtain ⟨hcallId, htag, hbranch⟩ := hsizes
  unfold CallRecord.begun
  simp [hcallId, htag, hbranch, and_assoc]

theorem isSource_endpoint (outbound : Bool) :
    (if outbound then Voip.Endpoint.externalSip else .lanSip).isSource = true := by
  cases outbound <;> rfl

/-- When the call in hand is dropped, the voice daemon becomes idle only later. -/
theorem dropCall_voice (out : Outside) (g : Consumer) :
    (g.dropCall out).voice.call.enabled = g.voice.call.enabled ∧
      ((g.dropCall out).voice.call.state = .idle ↔ g.voice.call.state = .idle) := by
  show (if out.stop.found then _ else g.voice : Voip.Context).call.enabled = _ ∧
    ((if out.stop.found then _ else g.voice : Voip.Context).call.state = _ ↔ _)
  split
  · exact Voip.Context.request_hangup_call _ _ _ (isSource_endpoint g.outbound)
  · exact ⟨rfl, .rfl⟩

/-- Whether the voice daemon makes the new call is settled before the old one is dropped. -/
theorem originated_iff {number : Text} (h : r.number = some number) :
    ((g.dropCall out).ubusAction out.originate (.originate number)).2 = true ↔
      g.voice.call.enabled = true ∧ g.voice.call.state = .idle ∧
        (out.originate.found && out.originate.replied && out.originate.ready &&
          out.originate.env.runs) = true := by
  obtain ⟨henabled, hidle⟩ := dropCall_voice out g
  unfold ubusAction
  rw [Bool.and_eq_true, Voip.Context.granted_originate_iff, henabled, hidle]
  simp [isSource_endpoint, validNumber_of_number r h]
  grind

theorem saveDialogContact_eq (g : Consumer) (r : Request) :
    ∃ dialogContact, g.saveDialogContact r = { g with dialogContact } := by
  unfold saveDialogContact
  split <;> exact ⟨_, rfl⟩

/-- A new dialog leaves the call, the media and the modem alone. -/
theorem openDialog_eq (g : Consumer) (r : Request) :
    ∃ lanAnswer lanAcked lanByePending dialogContact byes, g.openDialog r =
      { g with lanAnswer, lanAcked, lanByePending, dialogContact, byes } := by
  -- a BYE that waits for the old dialog is sent first
  have hflush : ∃ lanAnswer lanAcked lanByePending dialogContact byes,
      (if g.lanByePending then g.lanByeFlush else g) =
        { g with lanAnswer, lanAcked, lanByePending, dialogContact, byes } := by
    unfold lanByeFlush sendLanBye
    split
    · split
      · split <;> exact ⟨_, _, _, _, _, rfl⟩
      · exact ⟨_, _, _, _, _, rfl⟩
    · exact ⟨_, _, _, _, _, rfl⟩
  obtain ⟨_, _, _, _, _, hflush⟩ := hflush
  unfold openDialog
  rw [hflush]
  obtain ⟨_, hsave⟩ := saveDialogContact_eq _ r
  rw [hsave]
  exact ⟨_, _, _, _, _, rfl⟩

/-- The request in hand was answered with provisional responses only. -/
def Rings (g : Consumer) : Prop := g.responses = [⟨100, none⟩, ⟨180, none⟩]

theorem Rings.not_refused (h : g.Rings) : ¬ g.Refused := by
  rintro ⟨response, hmem, herror⟩
  rw [h] at hmem
  simp only [mem_cons, not_mem_nil, or_false] at hmem
  obtain rfl | rfl := hmem
  · exact absurd herror (by decide)
  · exact absurd herror (by decide)

/-- The answer to a new call is prepared, or there is no call. -/
theorem beginCall_cases (out : Outside) (r : Request) (media : Media) (identity : Identity)
    (hactive : g.call.active = false) (hresponses : g.responses = []) :
    let prepared := (CallRecord.begun .lan identity.callId identity.remoteTag identity.branch
      identity.cseq).isSome && out.created && setLanAnswer out r media.payloadType && out.addressed
    (prepared = true → (g.beginCall out r media identity).Rings) ∧
      (prepared = false → (g.beginCall out r media identity).call.active = false ∧
        (g.beginCall out r media identity).Refused) := by
  unfold beginCall
  cases CallRecord.begun .lan identity.callId identity.remoteTag identity.branch identity.cseq with
  | none => exact ⟨nofun, fun _ => ⟨hactive, refused_respond (by decide)⟩⟩
  | some call =>
    obtain ⟨_, _, _, _, _, hopen⟩ := openDialog_eq { g with call, media } r
    dsimp only
    rw [hopen, Option.isSome_some, Bool.true_and]
    -- the record is begun; what fails from here on clears it again
    refine ⟨fun hprepared => ?_, fun hprepared => ?_⟩
    · rw [if_pos hprepared]
      simp [Rings, respond, hresponses]
    · rw [if_neg (hprepared ▸ Bool.false_ne_true)]
      exact ⟨rfl, refused_respond (by decide)⟩

/-- **A new INVITE ends the call in hand**, and is then accepted or not. -/
theorem placeCall_of_active (media : Media) (hactive : g.call.active = true)
    (hresponses : g.responses = []) :
    (Placeable out g.voice r media → (g.placeCall out r media).Rings) ∧
      (¬ Placeable out g.voice r media → (g.placeCall out r media).call.active = false ∧
        (g.placeCall out r media).Refused) := by
  have hgone : (g.dropCall out).call.active = false := rfl
  unfold placeCall
  rw [if_pos hactive]
  cases hnumber : r.number with
  | none =>
    refine ⟨fun h => ?_, fun _ => ⟨hgone, refused_respond (by decide)⟩⟩
    exact absurd h.number (by simp [hnumber])
  | some number =>
    cases hidentity : r.identity with
    | none =>
      refine ⟨fun h => ?_, fun _ => ⟨hgone, refused_respond (by decide)⟩⟩
      obtain ⟨_, hmem, -⟩ := h.names
      exact absurd (hidentity.symm.trans hmem) nofun
    | some identity =>
      -- the voice daemon is asked when the call in hand is gone already
      dsimp only
      cases horiginated : ((g.dropCall out).ubusAction out.originate (.originate number)).2 with
      | false =>
        refine ⟨fun h => ?_, fun _ => ⟨hgone, refused_respond (by decide)⟩⟩
        have htrue := (originated_iff out r hnumber).mpr ⟨h.enabled, h.idle, h.originates⟩
        exact absurd (horiginated.symm.trans htrue) Bool.false_ne_true
      | true =>
        obtain ⟨henabled, hidle, horiginates⟩ := (originated_iff out r hnumber).mp horiginated
        obtain ⟨hrings, hfails⟩ := beginCall_cases
          (g := ((g.dropCall out).ubusAction out.originate (.originate number)).1)
          out r media identity hgone hresponses
        refine ⟨fun h => hrings ?_, fun h => hfails (Bool.eq_false_iff.mpr fun hprepared => h ?_)⟩
        · obtain ⟨_, hmem, hnames⟩ := h.names
          cases hidentity.symm.trans hmem
          rw [(begun_isSome_iff r hidentity).mpr hnames]
          exact h.answers
        · rw [Bool.and_assoc, Bool.and_assoc, Bool.and_eq_true, ← Bool.and_assoc] at hprepared
          exact ⟨by simp [hnumber], ⟨identity, hidentity, (begun_isSome_iff r hidentity).mp hprepared.1⟩,
            henabled, hidle, horiginates, hprepared.2⟩

/-! ## Refreshes -/

/-- The media and the peer are those of the refresh already. -/
def Negotiated (g : Consumer) (media : Media) : Prop :=
  g.media = media ∧ g.rtpCodec = media.payloadType ∧ g.rtpPeer.port = media.port

/-- The media of the refresh are in place before their address is found wrong. -/
theorem refreshMedia_refused {media : Media} (hattached : g.mediaAttached = true)
    (haddress : inetPton media.address = none) :
    (g.refreshMedia out r media).Refused ∧
      ((g.refreshMedia out r media).session = g.session ↔ g.Negotiated media) := by
  unfold refreshMedia
  rw [if_pos hattached, haddress]
  refine ⟨refused_respond (by decide), ⟨fun h => ?_, fun h => ?_⟩⟩
  · have hmedia := congrArg Session.media h
    have hcodec := congrArg Session.rtpCodec h
    have hport := congrArg (·.rtpPeer.port) h
    exact ⟨hmedia.symm, hcodec.symm, hport.symm⟩
  · obtain ⟨hmedia, hcodec, hport⟩ := h
    dsimp only [session, respond]
    rw [← hcodec, ← hport, ← hmedia]

/-- A refresh is refused only because of its address. -/
theorem refreshMedia_accepted {media : Media}
    (h : ¬ (g.mediaAttached = true ∧ inetPton media.address = none))
    (hresponses : g.responses = []) : ¬ (g.refreshMedia out r media).Refused := by
  have haccept : ∀ g : Consumer, g.responses = [] → ¬ (g.acceptRefresh out r).Refused := by
    rintro g hresponses ⟨response, hmem, herror⟩
    unfold acceptRefresh at hmem
    obtain ⟨_, hsave⟩ := saveDialogContact_eq g r
    rw [hsave] at hmem
    split at hmem
    · simp only [respond, hresponses, nil_append, mem_singleton] at hmem
      rw [hmem] at herror
      exact absurd herror (by decide)
    · rw [hresponses] at hmem
      exact absurd hmem not_mem_nil
  unfold refreshMedia
  dsimp only
  split
  · rename_i hattached
    -- the address is converted only if the media are attached
    cases haddress : inetPton media.address with
    | none => exact absurd ⟨hattached, haddress⟩ h
    | some address => exact haccept _ hresponses
  · exact haccept _ hresponses

/-! ## Requests -/

/-- The request is refused only with the call as it was before. -/
def Spares (g g' : Consumer) : Prop := g'.Refused → g'.session = g.session

/-- A refresh with these media gets to the point where they are stored. -/
def Refreshes (out : Outside) (g : Consumer) (r : Request) (media : Media) : Prop :=
  g.admitted out r = true ∧ r.media = some media ∧
    (out.created && setLanAnswer out r media.payloadType) = true

/-- An INVITE with these media passes all checks that do not depend on the call. -/
def Vetted (out : Outside) (g : Consumer) (r : Request) (media : Media) : Prop :=
  (rateAllow g.inviteRates r.source out.now 5).2 = true ∧ g.admitted out r = true ∧
    r.media = some media ∧ g.bindingActive out = true

/-- A refresh leaves the call as it was or is accepted, unless the new media were stored before
their address is refused. -/
theorem spares_refresh_iff (hresponses : g.responses = []) :
    g.Spares (g.inDialogMediaRefresh out r) ↔
      ∀ media, g.Refreshes out r media → g.mediaAttached = true → inetPton media.address = none →
        g.Negotiated media := by
  obtain ⟨authRates, nonces, challengeNonce, responses, hadmission, hsame⟩ := admission_eq out g r
  let h : Consumer := { g with authRates, nonces, challengeNonce, responses }
  unfold inDialogMediaRefresh
  rw [hadmission]
  cases hadmitted : g.admitted out r with
  | false =>
    refine iff_of_true (fun _ => rfl) fun media hmedia => ?_
    exact absurd (hadmitted.symm.trans hmedia.1) Bool.false_ne_true
  | true =>
    cases hoffered : r.media with
    | none =>
      refine iff_of_true (fun _ => rfl) fun media hmedia => ?_
      exact absurd (hoffered.symm.trans hmedia.2.1) nofun
    | some media =>
      dsimp only
      cases hanswer : out.created && setLanAnswer out r media.payloadType with
      | false =>
        refine iff_of_true (fun _ => rfl) fun media' hmedia => ?_
        cases hoffered.symm.trans hmedia.2.1
        exact absurd (hanswer.symm.trans hmedia.2.2) Bool.false_ne_true
      | true =>
        show g.Spares (h.refreshMedia out r media) ↔ _
        have hnone : h.responses = [] := (hsame hadmitted).trans hresponses
        -- here the request is refused only for an address that cannot be converted
        by_cases hwrong : g.mediaAttached = true ∧ inetPton media.address = none
        · obtain ⟨hrefused, hsession⟩ := refreshMedia_refused (g := h) out r hwrong.1 hwrong.2
          constructor
          · intro hspares media' hmedia _ _
            cases hoffered.symm.trans hmedia.2.1
            exact hsession.mp (hspares hrefused)
          · intro hmedia _
            exact hsession.mpr (hmedia media ⟨hadmitted, hoffered, hanswer⟩ hwrong.1 hwrong.2)
        · refine iff_of_true (fun hrefused => ?_) fun media' hmedia hattached haddress => ?_
          · exact absurd hrefused (refreshMedia_accepted out r hwrong hnone)
          · cases hoffered.symm.trans hmedia.2.1
            exact absurd ⟨hattached, haddress⟩ hwrong

/-- An INVITE passes the first checks and becomes a new call, or leaves everything as it was. -/
theorem inviteCall_cases (g : Consumer) (r : Request) :
    (∃ (media : Media) (h : Consumer), g.Vetted out r media ∧ h.session = g.session ∧
      h.outbound = g.outbound ∧ h.responses = g.responses ∧
        g.inviteCall out r = h.placeCall out r media) ∨
    (∀ media, ¬ g.Vetted out r media) ∧ (g.inviteCall out r).session = g.session := by
  let inviteRates := (rateAllow g.inviteRates r.source out.now 5).1
  obtain ⟨authRates, nonces, challengeNonce, responses, hadmission, hsame⟩ :=
    admission_eq out { g with inviteRates } r
  let h : Consumer := { g with inviteRates, authRates, nonces, challengeNonce, responses }
  unfold inviteCall
  dsimp only
  cases hallowed : (rateAllow g.inviteRates r.source out.now 5).2 with
  | false =>
    refine .inr ⟨fun media hmedia => ?_, rfl⟩
    exact absurd (hallowed.symm.trans hmedia.1) Bool.false_ne_true
  | true =>
    -- whether the request is admitted does not depend on the rates of INVITE requests
    have hadmitted' : { g with inviteRates }.admitted out r = g.admitted out r := rfl
    rw [hadmission, hadmitted']
    cases hadmitted : g.admitted out r with
    | false =>
      refine .inr ⟨fun media hmedia => ?_, rfl⟩
      exact absurd (hadmitted.symm.trans hmedia.2.1) Bool.false_ne_true
    | true =>
      cases hoffered : r.media with
      | none =>
        refine .inr ⟨fun media hmedia => ?_, rfl⟩
        exact absurd (hoffered.symm.trans hmedia.2.2.1) nofun
      | some media =>
        rw [show Consumer.bindingActive out h = g.bindingActive out from rfl]
        cases hbinding : g.bindingActive out with
        | false =>
          refine .inr ⟨fun media' hmedia => ?_, rfl⟩
          exact absurd (hbinding.symm.trans hmedia.2.2.2) Bool.false_ne_true
        | true =>
          exact .inl ⟨media, h, ⟨hallowed, hadmitted, hoffered, hbinding⟩, rfl, rfl,
            hsame hadmitted, rfl⟩

/-- An INVITE that passes the checks ends the call in hand, so it must not fail behind this point.
-/
theorem spares_invite_iff (hactive : g.call.active = true) (hresponses : g.responses = []) :
    g.Spares (g.inviteCall out r) ↔
      ∀ media, g.Vetted out r media → Placeable out g.voice r media := by
  obtain ⟨media, h, hvetted, hsession, -, hsame, hinvite⟩ | ⟨hnone, hsession⟩ :=
    inviteCall_cases out g r
  · have hcall : h.call = g.call := congrArg Session.call hsession
    have hvoice : h.voice = g.voice := congrArg Session.voice hsession
    obtain ⟨hrings, hfails⟩ :=
      placeCall_of_active out r media (hcall ▸ hactive) (hsame.trans hresponses)
    rw [hvoice] at hrings hfails
    rw [hinvite]
    -- an INVITE that fails from here on has already cost the call
    by_cases hplaceable : Placeable out g.voice r media
    · refine iff_of_true (fun hrefused => ?_) fun media' hmedia => ?_
      · exact absurd hrefused (hrings hplaceable).not_refused
      · cases hvetted.2.2.1.symm.trans hmedia.2.2.1
        exact hplaceable
    · obtain ⟨hgone, hrefused⟩ := hfails hplaceable
      refine iff_of_false (fun hspares => ?_) fun hall => hplaceable (hall media hvetted)
      have hcall := congrArg (·.call.active) (hspares hrefused)
      exact absurd (hgone.symm.trans (hcall.trans hactive)) Bool.false_ne_true
  · exact iff_of_true (fun _ => hsession) fun media hmedia => absurd hmedia (hnone media)

/-- A busy daemon is asked to dial, and does nothing. -/
theorem placeCall_of_busy (media : Media) (hactive : g.call.active = true)
    (hbusy : (g.dropCall out).voice.call.state ≠ .idle) :
    (g.placeCall out r media).call = .clear ∧ (g.placeCall out r media).Refused ∧
      (g.placeCall out r media).voice.call = (g.dropCall out).voice.call ∧
      (g.placeCall out r media).voice.outputs = (g.dropCall out).voice.outputs := by
  unfold placeCall
  rw [if_pos hactive]
  split
  · rename_i number identity hnumber hidentity
    have hrefused : ((g.dropCall out).ubusAction out.originate (.originate number)).2 = false := by
      simp [ubusAction, Voip.Context.granted, Voip.Action.refused, hbusy]
    dsimp only
    rw [hrefused]
    refine ⟨rfl, refused_respond (by decide), ?_⟩
    show (if out.originate.found then _ else (g.dropCall out).voice : Voip.Context).call = _ ∧
      (if out.originate.found then _ else (g.dropCall out).voice : Voip.Context).outputs = _
    unfold Voip.Context.request
    -- `action_call` looks at the state before anything else
    simp only [Voip.Action.refused, hbusy, ne_eq, not_false_eq_true, decide_true, Bool.true_or,
      if_true]
    split_ifs <;> exact ⟨rfl, rfl⟩
  · exact ⟨rfl, refused_respond (by decide), rfl, rfl⟩

variable {out r} in
/-- **While the voice daemon is busy, no new INVITE is accepted**: the call in hand is dropped, but
the daemon, which has just been told to hang up, is not idle when it is asked to dial, and refuses.
Nothing is sent to the modem after the hang-up. -/
theorem inviteCall_of_busy {media : Media} (hactive : g.call.active = true)
    (hvetted : g.Vetted out r media) (hbusy : g.voice.call.state ≠ .idle) :
    (g.dropCall out).voice.call.state ≠ .idle ∧
      (∀ number, r.number = some number →
        ((g.dropCall out).ubusAction out.originate (.originate number)).2 = false) ∧
      (g.inviteCall out r).call = .clear ∧ (g.inviteCall out r).Refused ∧
      (g.inviteCall out r).voice.call = (g.dropCall out).voice.call ∧
      (g.inviteCall out r).voice.outputs = (g.dropCall out).voice.outputs := by
  have hdropped : (g.dropCall out).voice.call.state ≠ .idle :=
    fun hidle => hbusy ((dropCall_voice out g).2.mp hidle)
  refine ⟨hdropped, fun number hnumber => ?_, ?_⟩
  · by_contra h
    exact hbusy ((originated_iff out r hnumber).mp (Bool.not_eq_false _ ▸ h)).2.1
  · -- what precedes the call leaves the session alone, so the old call ends in the same way
    obtain ⟨media', h, -, hsession, houtbound, -, hinvite⟩ | ⟨hnone, -⟩ := inviteCall_cases out g r
    · have hcall : h.call = g.call := congrArg Session.call hsession
      have hvoice : h.voice = g.voice := congrArg Session.voice hsession
      have hsame : (h.dropCall out).voice = (g.dropCall out).voice := by
        show (if out.stop.found then h.voice.request _ _ (if h.outbound then _ else _) _
          else h.voice) = _
        rw [hvoice, houtbound]
        rfl
      rw [hinvite, ← hsame]
      exact placeCall_of_busy out r media' (hcall ▸ hactive) (hsame ▸ hdropped)
    · exact absurd hvetted (hnone media)

/-- A request that is answered with a final error leaves the call in hand as it was. -/
def Isolated (out : Outside) (g : Consumer) (r : Request) : Prop :=
  g.call.active = true → g.Spares (g.onRequest out r)

/-- Nothing stands in the way of a new INVITE that passes the first checks, and a refresh has an
address that can be converted, or the media are in place already. -/
def Careful (out : Outside) (g : Consumer) (r : Request) : Prop :=
  g.call.active = true → r.length ≤ 4096 → r.method ≠ .register →
    if g.inDialog r then
      ∀ media, g.Refreshes out r media → g.mediaAttached = true → inetPton media.address = none →
        g.Negotiated media
    else
      r.method = .invite → ∀ media, g.Vetted out r media → Placeable out g.voice r media

/-- **A request that is refused leaves the call in hand as it was**, exactly if nothing stands in
the way of a new INVITE that has passed the first checks, and the address of a refresh can be
converted. -/
theorem isolated_iff (out : Outside) (g : Consumer) (r : Request) :
    g.Isolated out r ↔ g.Careful out r := by
  refine imp_congr_right fun hactive => ?_
  let h : Consumer := { g with responses := [] }
  unfold onRequest
  -- the cases of `on_request`: too long, REGISTER, within the dialog, INVITE, anything else
  by_cases hlength : r.length ≤ 4096
  · rw [if_neg (not_lt.mpr hlength), forall_prop_of_true hlength]
    by_cases hregister : r.method = .register
    · rw [if_pos hregister]
      refine iff_of_true ?_ fun h => absurd hregister h
      split
      · exact fun _ => rfl
      · exact fun _ => session_registerContact out h r
    · rw [if_neg hregister, forall_prop_of_true hregister, show h.inDialog r = g.inDialog r from rfl]
      cases hdialog : g.inDialog r with
      | true =>
        exact spares_refresh_iff (g := h) out r rfl
      | false =>
        by_cases hinvite : r.method = .invite
        · rw [if_neg Bool.false_ne_true, if_pos hinvite, if_neg Bool.false_ne_true,
            forall_prop_of_true hinvite]
          exact spares_invite_iff (g := h) out r hactive rfl
        · rw [if_neg Bool.false_ne_true, if_neg hinvite, if_neg Bool.false_ne_true]
          exact iff_of_true (fun _ => rfl) fun h => absurd h hinvite
  · rw [if_pos (not_le.mp hlength)]
    exact iff_of_true (fun _ => rfl) fun h => absurd h hlength

/-- The gateway is registered with a server, and there is no call. -/
def registered : Consumer where
  outbound := true
  challengeNonce := []
  nonces := .replicate 32 ⟨0, 0, 0, []⟩
  binding := ascii "sips:user@example.org"
  bindingUntil := 3600
  authRates := .replicate 32 ⟨0, 0, 0⟩
  inviteRates := .replicate 32 ⟨0, 0, 0⟩
  call := .clear
  media := ⟨[], 0, 0⟩
  mediaAttached := false
  rtpOpen := false
  rtpAttached := false
  rtpPeer := ⟨[0, 0, 0, 0], 0⟩
  rtpCodec := 0
  pendingLanResponse := none
  lanAnswer := none
  lanAcked := false
  lanByePending := false
  dialogContact := []
  byes := []
  voice := (Voip.Context.initial.operate (.working (ascii "/dev/ttyUSB2")) (.setEnabled true)).1
  responses := []

/-- A gateway for the phones of the LAN. -/
def lan : Consumer :=
  { registered with outbound := false, binding := ascii "sip:phone@192.168.1.2" }

end Consumer

def Outside.working : Outside where
  now := 1000
  random := none
  verdict := none
  created := true
  composed := true
  addressed := true
  sent := true
  stop := ⟨true, .working (ascii "/dev/ttyUSB2"), true, true⟩
  originate := ⟨true, .working (ascii "/dev/ttyUSB2"), true, true⟩
  undo := ⟨true, .working (ascii "/dev/ttyUSB2"), true, true⟩

/-- An INVITE of the server for the user. -/
def Request.invite (user callId : String) : Request where
  method := .invite
  length := 800
  source := 1
  overOwnTls := true
  user := ascii user
  host := ascii "192.168.1.1"
  callId := some (ascii callId)
  fromTag := some (ascii "tag")
  branch := some (ascii "z9hG4bK1")
  cseq := some 1
  contact := none
  expires := none
  body := some (ascii "c=IN IP4 192.168.1.2\r\nm=audio 4000 RTP/AVP 8\r\n")
  authorization := none

namespace Consumer

/-- While the first call is being dialled, a second one is not placed. -/
theorem inviteCall_second :
    let g := registered.onRequest .working (.invite "10086" "first")
    g.call.active = true ∧ ((g.inviteCall .working (.invite "10010" "second")).call = .clear) := by
  have hvetted : Vetted .working (registered.onRequest .working (.invite "10086" "first"))
      (.invite "10010" "second") ⟨ascii "192.168.1.2", 4000, 8⟩ :=
    ⟨by decide +kernel, by decide +kernel, by decide +kernel, by decide +kernel⟩
  have hactive : (registered.onRequest .working (.invite "10086" "first")).call.active = true := by
    decide +kernel
  exact ⟨hactive, (inviteCall_of_busy hactive hvetted (by decide +kernel)).2.2.1⟩

/-- While a call is being made, an INVITE for a user that is no number is answered with 488.  The
call is lost, and the voice daemon hangs up. -/
theorem invite_not_isolated : ¬ Isolated .working
    (registered.onRequest .working (.invite "10086" "first")) (.invite "alice" "second") := by
  intro h
  have hactive : (registered.onRequest .working (.invite "10086" "first")).call.active = true := by
    decide +kernel
  have hrefused : ((registered.onRequest .working (.invite "10086" "first")).onRequest .working
      (.invite "alice" "second")).Refused := by
    unfold Refused
    decide +kernel
  have hcall := congrArg (·.call.active) (h hactive hrefused)
  exact absurd hcall (by decide +kernel)

end Consumer

end QModem.Sip
