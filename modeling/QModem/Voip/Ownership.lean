import QModem.Lib.Run
import QModem.Voip.Media

/-!
# Who Has the Media Engine

At most one client should be attached to the media engine, and the engine should have a session
exactly while there is one.  Two things break this.

- When the connection of the browser is closed, its flag is cleared and the engine is not
  detached.  The session stays until the call has ended, and nobody else can attach.
- The engine takes a client with the number of the session that it has.  Two peers with the same
  session are both attached, and when one of them leaves, the other one has no session any more.

## Main results

- `VoiceMedia.owned_step`: everything else leaves the engine to one client or to nobody
- `VoiceMedia.exclusive_iff`: the runs in which the engine has one owner at most
-/

namespace QModem.Voip

open Lib Bool
open At (Text)

namespace VoiceMedia

variable {s s' : VoiceMedia} {a : MediaClient}

/-- At most one client is attached, and there is a session exactly while one is. -/
structure Exclusive (s : VoiceMedia) : Prop where
  unique : ∀ a b, s.holds a → s.holds b → a = b
  session : s.engine.sessionId ≠ 0 ↔ ∃ a, s.holds a

/-- The session has no other client, and the connection that is closed is not the one that is
attached. -/
def Careful (s : VoiceMedia) : MediaEvent → Prop
  | .established client => s.establishes client = true → s.engine.sessionId = 0
  | .closed client => s.browser.client ≠ some client
  | .rtpAttach r =>
    s.rtpPasses r = true → s.rtpRelease.rtpAdmits r = true → s.engine.sessionId = 0 ∨ s.rtp = true
  | .peerAttach i revision session authorized =>
    s.peerAdmits i revision session authorized = true → s.engine.sessionId = 0
  | _ => True

/-! ## The owner -/

/-- The engine has one owner at most, and knows when this is the browser. -/
structure Owned (s : VoiceMedia) : Prop extends s.Sound, s.Exclusive where
  attachment : s.engine.attachment = .browser ↔ s.holds .browser

/-- Nobody is attached. -/
theorem Owned.of_free (hsound : s.Sound) (hsession : s.engine.sessionId = 0)
    (hattachment : s.engine.attachment = .none) (hfree : ∀ a, ¬ s.holds a) : s.Owned where
  toSound := hsound
  unique a _ ha := absurd ha (hfree a)
  session := iff_of_false (not_not.mpr hsession) fun ⟨a, ha⟩ => hfree a ha
  attachment := iff_of_false (by rw [hattachment]; decide) (hfree .browser)

/-- The owner is the one before. -/
theorem Owned.of_kept (h : s.Owned) (hsound : s'.Sound) (hholds : ∀ a, s'.holds a ↔ s.holds a)
    (hsession : s'.engine.sessionId = s.engine.sessionId)
    (hattachment : s'.engine.attachment = s.engine.attachment) : s'.Owned where
  toSound := hsound
  unique a b ha hb := h.unique a b ((hholds a).mp ha) ((hholds b).mp hb)
  session := by
    rw [hsession, h.session]
    exact exists_congr fun a => (hholds a).symm
  attachment := by rw [hattachment, h.attachment, hholds]

/-- The owner leaves, and the engine is detached. -/
theorem Owned.of_left (h : s.Owned) (hsubsides : s.Subsides s')
    (hengine : s'.engine = s.engine.detach) (ha : s.holds a) (ha' : ¬ s'.holds a) : s'.Owned := by
  refine .of_free (h.toSound.of_subsides hsubsides) ?_ ?_ fun b hb => ?_
  · rw [hengine]
    rfl
  · rw [hengine]
    rfl
  · -- the one who is still there would have been the owner
    have hsame := h.unique a b ha (hsubsides.holds b hb)
    exact ha' (hsame ▸ hb)

/-- Nobody leaves. -/
theorem Owned.of_stayed (h : s.Owned) (hsubsides : s.Subsides s') (hengine : s'.engine = s.engine)
    (hstays : ∀ a, s.holds a → s'.holds a) : s'.Owned :=
  h.of_kept (h.toSound.of_subsides hsubsides) (fun a => ⟨hsubsides.holds a, hstays a⟩)
    (by rw [hengine]) (by rw [hengine])

/-- A new client attaches. -/
structure Takes (a : MediaClient) (s s' : VoiceMedia) : Prop where
  sound : s'.Sound
  vacant : ¬ s.holds a
  holds : ∀ b, s'.holds b ↔ s.holds b ∨ b = a
  session : s'.engine.sessionId ≠ 0
  attachment : s'.engine.attachment = .browser ↔ a = .browser

/-- A client may attach if the engine has no session. -/
theorem Owned.of_takes (h : s.Owned) (htakes : Takes a s s') (hfree : s.engine.sessionId = 0) :
    s'.Owned := by
  have hnobody : ∀ b, ¬ s.holds b := fun b hb => h.session.mpr ⟨b, hb⟩ hfree
  have honly : ∀ b, s'.holds b ↔ b = a := fun b =>
    (htakes.holds b).trans (or_iff_right (hnobody b))
  refine ⟨htakes.sound, ⟨fun b c hb hc => ?_, ?_⟩, ?_⟩
  · exact ((honly b).mp hb).trans ((honly c).mp hc).symm
  · exact iff_of_true htakes.session ⟨a, (honly a).mpr rfl⟩
  · rw [htakes.attachment, honly]
    exact eq_comm

/-- While the engine has a session, a new client is a second one. -/
theorem Exclusive.free_of_takes (hex : s.Exclusive) (htakes : Takes a s s') (hex' : s'.Exclusive) :
    s.engine.sessionId = 0 := by
  by_contra hne
  -- the owner and the new client are both attached then
  obtain ⟨b, hb⟩ := hex.session.mp hne
  have hsame := hex'.unique b a ((htakes.holds b).mpr (.inl hb)) ((htakes.holds a).mpr (.inr rfl))
  exact htakes.vacant (hsame ▸ hb)

/-! ## Releasing -/

section

variable (h : s.Owned)

include h

theorem owned_resetCall : s.resetCall.Owned := by
  -- the engine says whether the browser is the owner, and is detached only then
  by_cases hbrowser : s.engine.attachment = .browser
  · exact h.of_left (subsides_resetCall s) (if_pos hbrowser) (h.attachment.mp hbrowser)
      false_ne_true
  · exact h.of_stayed (subsides_resetCall s) (if_neg hbrowser) <|
      holds_mono (fun ha => absurd (h.attachment.mpr ha) hbrowser) id fun _ => id

theorem owned_browserStop : s.browserStop.Owned :=
  (owned_resetCall h).of_kept (h.toSound.of_subsides (subsides_browserStop s))
    (holds_congr rfl rfl rfl) rfl rfl

theorem owned_rtpRelease : s.rtpRelease.Owned := by
  have hsubsides := subsides_rtpRelease s
  unfold rtpRelease at *
  split
  · rename_i hrtp
    rw [if_pos hrtp] at hsubsides
    exact h.of_left (a := .rtp) hsubsides rfl hrtp false_ne_true
  · exact h

/-- Releasing the socket frees the engine only if a peer has it. -/
theorem owned_socketRelease : s.socketRelease.Owned := by
  by_cases hattached : ∃ i, s.peers i = .attached
  · obtain ⟨i, hi⟩ := hattached
    refine h.of_left (subsides_socketRelease s) (if_pos (decide_eq_true ⟨i, hi⟩)) (a := .peer i) hi ?_
    show ¬ (if s.peers i = .attached then Peer.connected else s.peers i) = .attached
    rw [if_pos hi]
    decide
  · exact h.of_stayed (subsides_socketRelease s)
      (if_neg (by simpa [socketAttached] using hattached)) <|
      holds_mono id id fun i hi => absurd ⟨i, hi⟩ hattached

theorem owned_followCall (c : Call) : (s.followCall c).Owned := by
  have hsound := h.toSound.of_subsides (subsides_followCall s c)
  unfold followCall at *
  split_ifs at *
  · exact h.of_kept hsound (holds_congr rfl rfl rfl) rfl rfl
  · exact owned_resetCall h
  · exact h

/-- Following the call detaches nobody but the browser. -/
theorem owned_mediaSync (listens : Bool) (c : Call) : (s.mediaSync listens c).Owned := by
  unfold mediaSync
  split_ifs with hready hlistener hlistens
  · exact owned_browserStop h
  · exact h
  · exact owned_followCall h c
  · have hstart := subsides_browserStart (s := s) (by simpa using hready)
    have hstarted := h.of_kept (h.toSound.of_subsides hstart) (holds_congr rfl rfl rfl) rfl rfl
    exact owned_followCall hstarted c
  · exact h

theorem owned_publish (listens : Bool) (c : Call) : (s.publish listens c).Owned := by
  unfold publish
  split
  · exact owned_mediaSync (owned_socketRelease (owned_rtpRelease h)) listens c
  · exact owned_mediaSync h listens c

end

theorem owned_announce (listens : Bool) (calls : List Call) (h : s.Owned) :
    (calls.foldl (fun s c => s.publish listens c) s).Owned := by
  induction calls generalizing s with
  | nil => exact h
  | cons c calls ih => exact ih (owned_publish h listens c)

/-- A peer that leaves gives up its session. -/
theorem owned_peerLeave (h : s.Owned) (i : Fin 8) {p : Peer} (hp : p ≠ .attached)
    (hclosed : s.peers i = .closed → p = .closed) : (s.peerLeave i p).Owned := by
  have hsubsides := subsides_peerLeave s i hp hclosed
  by_cases hattached : s.peers i = .attached
  · refine h.of_left hsubsides (if_pos hattached) (a := .peer i) hattached ?_
    show ¬ Function.update s.peers i p i = .attached
    rw [Function.update_self]
    exact hp
  · refine h.of_stayed hsubsides (if_neg hattached) (holds_mono id id fun j hj => ?_)
    have hne : j ≠ i := fun hji => hattached (hji ▸ hj)
    exact (Function.update_of_ne hne p s.peers).trans hj

theorem owned_peerDetach (h : s.Owned) (i : Fin 8) : (s.peerDetach i).Owned := by
  unfold peerDetach
  split
  · rename_i hi
    exact owned_peerLeave h i (by decide) fun hclosed => absurd (hi.symm.trans hclosed) (by decide)
  · exact h

theorem Silent.owned (h : s.Silent) : s.Owned :=
  .of_free h.sound (by rw [h.engine]; rfl) (by rw [h.engine]; rfl) h.holds

/-- Switching on finds the engine without a client, and switching off leaves it so. -/
theorem owned_runtime (h : s.Owned) (e : DaemonEvent) :
    ((s.runtime e).setDaemon (s.daemon.step e)).Owned := by
  have hsound := sound_runtime h.toSound e
  unfold runtime at *
  split at *
  · split_ifs at * with hon henabled
    · exact h.of_kept hsound (holds_congr rfl rfl rfl) rfl rfl
    · -- switched on: before, the engine was not started and so had no client
      have hnot := h.toSound.not_started (by simpa using hon)
      refine .of_free hsound rfl rfl fun a ha => ?_
      have hholds : s.holds a := (holds_congr rfl rfl rfl a).mp ha
      exact false_ne_true (hnot.symm.trans (h.holder a hholds))
    · exact (silent_releaseRuntime s _).owned
  · exact (silent_releaseRuntime s _).owned
  · exact h.of_kept hsound (holds_congr rfl rfl rfl) rfl rfl

/-! ## Attaching -/

variable {client : ℕ}

/-- The browser attaches when its connection is established. -/
theorem takes_established (hs : s.Sound) (h : s.establishes client = true) :
    Takes .browser s (s.established client) := by
  have hsound := sound_established hs client
  unfold established at *
  rw [if_pos h] at *
  simp only [establishes, MediaEngine.admits, and_eq_true, decide_eq_true_eq,
    not_eq_true'] at h
  -- it was not attached before
  obtain ⟨⟨-, hattached⟩, ⟨-, hsession⟩, -⟩ := h
  refine ⟨hsound, ?_, fun b => ?_, hsession, iff_of_true rfl rfl⟩
  · unfold holds
    rw [hattached]
    exact false_ne_true
  · cases b with
    | browser => exact iff_of_true rfl (.inr rfl)
    | rtp => exact ⟨.inl, fun h => h.resolve_right (by decide)⟩
    | peer i => exact ⟨.inl, fun h => h.resolve_right (by simp)⟩

/-- A peer attaches with the session it names. -/
theorem takes_peerAttach (hs : s.Sound) {i : Fin 8} {revision : ℕ} {session : Text}
    {authorized : Bool} (h : s.peerAdmits i revision session authorized = true) :
    Takes (.peer i) s (s.peerAttach i revision session authorized) := by
  have hsound := sound_peerAttach hs i revision session authorized
  unfold peerAttach at *
  rw [if_pos h] at *
  simp only [peerAdmits, and_eq_true, decide_eq_true_eq] at h
  obtain ⟨⟨⟨hconnected, -⟩, -⟩, -⟩ := h
  refine ⟨hsound, ?_, fun b => ?_, sessionHash_ne_zero session,
    iff_of_false (fun h => by cases h) fun h => by cases h⟩
  · exact fun hi => absurd (hconnected.symm.trans hi) (by decide)
  · cases b with
    | browser => exact ⟨.inl, fun h => h.resolve_right (by simp)⟩
    | rtp => exact ⟨.inl, fun h => h.resolve_right (by simp)⟩
    | peer j =>
      simp only [holds, setPeer, Function.update_apply, MediaClient.peer.injEq]
      split
      · -- only this slot changes
        rename_i hji
        exact iff_of_true rfl (.inr hji)
      · rename_i hji
        exact (or_iff_left hji).symm

/-- RTP attaches after its old session was released. -/
theorem takes_rtpAttach (hs : s.Sound) {r : RtpRequest} (h : s.rtpPasses r = true)
    (hadmits : s.rtpRelease.rtpAdmits r = true) : Takes .rtp s.rtpRelease (s.rtpAttach r) := by
  have hsound := sound_rtpAttach hs r
  unfold rtpAttach at *
  rw [if_pos h, if_pos hadmits] at *
  simp only [rtpPasses, and_eq_true, decide_eq_true_eq] at h
  obtain ⟨⟨⟨⟨⟨⟨⟨-, -⟩, hsession⟩, -⟩, -⟩, -⟩, -⟩, -⟩ := h
  refine ⟨hsound, ?_, fun b => ?_, hsession, iff_of_false (fun h => by cases h) fun h => by cases h⟩
  · -- the release came first
    unfold holds
    rw [rtp_rtpRelease]
    exact false_ne_true
  · cases b with
    | browser => exact ⟨.inl, fun h => h.resolve_right (by decide)⟩
    | rtp => exact iff_of_true rfl (.inr rfl)
    | peer i => exact ⟨.inl, fun h => h.resolve_right (by simp)⟩

theorem session_rtpRelease :
    s.rtpRelease.engine.sessionId = 0 ↔ s.engine.sessionId = 0 ∨ s.rtp = true := by
  unfold rtpRelease
  split
  · rename_i h
    exact iff_of_true rfl (.inr h)
  · rename_i h
    exact (or_iff_left h).symm

section

variable (h : s.Owned)

include h

theorem owned_established (hcareful : s.establishes client = true → s.engine.sessionId = 0) :
    (s.established client).Owned := by
  by_cases hestablishes : s.establishes client = true
  · exact h.of_takes (takes_established h.toSound hestablishes) (hcareful hestablishes)
  · unfold established
    rw [if_neg hestablishes]
    exact h

theorem owned_peerAttach {i : Fin 8} {revision : ℕ} {session : Text} {authorized : Bool}
    (hcareful : s.peerAdmits i revision session authorized = true → s.engine.sessionId = 0) :
    (s.peerAttach i revision session authorized).Owned := by
  by_cases hadmits : s.peerAdmits i revision session authorized = true
  · exact h.of_takes (takes_peerAttach h.toSound hadmits) (hcareful hadmits)
  · unfold peerAttach
    rw [if_neg hadmits]
    exact h

/-- RTP must find a free engine, or be its owner. -/
theorem owned_rtpAttach {r : RtpRequest}
    (hcareful : s.rtpPasses r = true → s.rtpRelease.rtpAdmits r = true →
      s.engine.sessionId = 0 ∨ s.rtp = true) : (s.rtpAttach r).Owned := by
  have hrelease := owned_rtpRelease h
  by_cases hpasses : s.rtpPasses r = true
  · by_cases hadmits : s.rtpRelease.rtpAdmits r = true
    · exact hrelease.of_takes (takes_rtpAttach h.toSound hpasses hadmits)
        (session_rtpRelease.mpr (hcareful hpasses hadmits))
    · unfold rtpAttach
      rw [if_pos hpasses, if_neg hadmits]
      exact hrelease
  · unfold rtpAttach
    rw [if_neg hpasses]
    exact h

/-! ## Connections -/

/-- The peers that are forgotten were closed before. -/
theorem owned_socketStart (ok : Bool) : (s.socketStart ok).Owned := by
  have hsound := sound_socketStart h.toSound ok
  unfold socketStart at *
  split_ifs at * with hstart
  · simp only [and_eq_true, not_eq_true'] at hstart
    have hpeers : (fun _ => .closed) = s.peers := funext fun i => (h.peers hstart.2 i).symm
    exact h.of_kept hsound (holds_congr rfl rfl hpeers) rfl rfl
  · exact h

/-- A connection that was accepted is not attached yet. -/
theorem owned_accept : s.accept.Owned := by
  have hsound := sound_accept h.toSound
  unfold accept at *
  split_ifs at *
  · cases hfind : (List.finRange 8).find? fun i => s.peers i = .closed with
    | none => exact h
    | some i =>
      have hclosed : s.peers i = .closed := by simpa using List.find?_some hfind
      rw [hfind] at hsound
      refine h.of_kept hsound (fun a => ?_) rfl rfl
      cases a with
      | browser => exact Iff.rfl
      | rtp => exact Iff.rfl
      | peer j =>
        simp only [holds, setPeer, Function.update_apply]
        split
        · -- the slot was closed, so it held nothing
          rename_i hji
          rw [hji, hclosed]
          exact iff_of_false (by decide) (by decide)
        · exact Iff.rfl
  · exact h

theorem owned_issue (r : TokenRequest) : (s.issue r).Owned := by
  have hsync := owned_mediaSync h r.listens s.call
  have hsound := sound_issue h.toSound r
  unfold issue at *
  dsimp only at *
  split_ifs at *
  · exact hsync.of_kept hsound (holds_congr rfl rfl rfl) rfl rfl
  · exact hsync

theorem owned_filter (client : ℕ) (attempt : Slots.Attempt) : (s.filter client attempt).Owned := by
  have hsound := sound_filter h.toSound client attempt
  unfold filter at *
  by_cases hvacant : s.vacant = true
  · rw [if_pos hvacant] at *
    exact h.of_kept hsound (holds_congr rfl rfl rfl) rfl rfl
  · rw [if_neg hvacant]
    exact h

/-- Another connection is closed than the one that is attached. -/
theorem owned_closed (hother : s.browser.client ≠ some client) : (s.closed client).Owned := by
  have hattached : (s.closed client).browser.attached = s.browser.attached := by
    simp [closed, hother]
  exact h.of_kept (sound_closed h.toSound client) (holds_congr hattached rfl rfl) rfl rfl

/-! ## Steps and runs -/

/-- **Every careful step leaves the engine to one client or to nobody.** -/
theorem owned_step {event : MediaEvent} (hcareful : s.Careful event) : (s.step event).Owned := by
  -- only those that attach or close need care
  cases event with
  | daemon e listens => exact owned_announce listens _ (owned_runtime h e)
  | sync listens => exact owned_mediaSync h listens s.call
  | ready ready =>
    exact h.of_kept (sound_step h.toSound (.ready ready)) (holds_congr rfl rfl rfl) rfl rfl
  | socketStart ok => exact owned_socketStart h ok
  | issue r => exact owned_issue h r
  | filter client attempt => exact owned_filter h client attempt
  | established client => exact owned_established h hcareful
  | closed client => exact owned_closed h hcareful
  | rtpAttach r => exact owned_rtpAttach h hcareful
  | rtpRelease => exact owned_rtpRelease h
  | accept => exact owned_accept h
  | peerAttach i revision session authorized => exact owned_peerAttach h hcareful
  | peerDetach i => exact owned_peerDetach h i
  | peerClose i => exact owned_peerLeave h i (by decide) fun _ => rfl

/-- When the connection of the browser is closed, the session stays. -/
theorem careful_of_closed (hex : (s.closed client).Exclusive) : s.browser.client ≠ some client := by
  intro hclient
  have hattached : s.holds .browser := by
    have hsome := h.client
    rw [hclient] at hsome
    exact hsome.symm
  -- the session is the one before, so somebody else must be attached to it
  obtain ⟨a, ha⟩ := hex.session.mp (h.session.mpr ⟨_, hattached⟩)
  cases a with
  | browser => simp [holds, closed, hclient] at ha
  | rtp => cases h.unique .browser .rtp hattached ha
  | peer i => cases h.unique .browser (.peer i) hattached ha

/-- A step that is not careful leaves two clients, or a session without a client. -/
theorem careful_of_exclusive {event : MediaEvent} (hex : (s.step event).Exclusive) :
    s.Careful event := by
  cases event with
  | established client =>
    exact fun hestablishes =>
      h.toExclusive.free_of_takes (takes_established h.toSound hestablishes) hex
  | closed client => exact careful_of_closed h hex
  | rtpAttach r =>
    exact fun hpasses hadmits => session_rtpRelease.mp <|
      (owned_rtpRelease h).toExclusive.free_of_takes (takes_rtpAttach h.toSound hpasses hadmits) hex
  | peerAttach i revision session authorized =>
    exact fun hadmits => h.toExclusive.free_of_takes (takes_peerAttach h.toSound hadmits) hex
  | _ => trivial

end

/-- **The engine has one owner at most, and a session exactly while it has one**, in the runs in
which the browser does not lose its connection and nobody comes with the session of another client.
-/
theorem exclusive_iff (events : List MediaEvent) :
    Throughout step Exclusive initial events ↔ Along step Careful initial events := by
  apply throughout_iff_along_of_strong Owned
  · exact fun _ h => h.toExclusive
  · exact fun _ _ _ h hex => careful_of_exclusive h hex
  · exact fun _ _ _ h hcareful => owned_step h hcareful
  · exact .of_free sound_initial rfl rfl fun a ha => by cases a <;> cases ha
  · exact along_of_forall fun _ _ => trivial

/-- A browser makes a call, attaches, and loses its connection. -/
def lostBrowser : List MediaEvent :=
  browserCall ++ [.issue browserToken, .filter 1 browserAttempt, .established 1, .closed 1]

/-- The call goes on, and its session has no client. -/
theorem lostBrowser_not_exclusive : ¬ Throughout step Exclusive initial lostBrowser := by
  intro h
  obtain ⟨a, ha⟩ := h.last.session.mp (by decide +kernel)
  cases a with
  | browser => exact absurd ha (by decide +kernel)
  | rtp => exact absurd ha (by decide +kernel)
  | peer i =>
    have hpeers : ∀ i, ¬ (run step initial lostBrowser).holds (.peer i) := by decide +kernel
    exact hpeers i ha

end VoiceMedia

end QModem.Voip
