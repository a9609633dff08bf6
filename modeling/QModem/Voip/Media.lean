import QModem.Voip.Announcements
import QModem.Voip.BrowserTokens

/-!
# The Media Path of the Voice Daemon

The audio of a call goes through one media engine.  A browser, an RTP transport or a peer of the
local socket attaches to it.  Each of them has its own flag that says so (`browser_media.c`,
`rtp_transport.c`, `media_socket.c`), and the engine has the number of a session (`media_core.c`).
`media_manager.c` and `daemon_core.c` release them when the call has ended.

Left out are the audio itself and the sessions of the local socket; whether a session is authorized
comes with the event.  Callbacks of `libwebsockets` do not interrupt each other.

## Main results

- `VoiceMedia.step`: what an event does
- `VoiceMedia.sound_step`: what the parts always agree on
- `VoiceMedia.disabled_nobody`: who is there while voice is off
-/

namespace QModem.Voip

open Lib Bool
open At (Text Message)

/-! ## The state -/

/-- `enum qmodem_voip_media_attachment` -/
inductive Attachment where
  | none
  | browser
  | lanSip
  | cellular
  | socket
  deriving DecidableEq

/-- `struct qmodem_voip_media_engine`: it is started when the daemon is switched on, and then it can
lose its device and get it back. -/
structure MediaEngine where
  started : Bool
  ready : Bool
  sessionId : ℕ
  attachment : Attachment
  deriving DecidableEq

namespace MediaEngine

/-- `qmodem_voip_media_release` -/
def released : MediaEngine := ⟨false, false, 0, .none⟩

/-- `qmodem_voip_media_engine_start` -/
def running : MediaEngine := ⟨true, true, 0, .none⟩

/-- `qmodem_voip_media_attach` would succeed. -/
def admits (m : MediaEngine) (sessionId : ℕ) : Bool :=
  m.ready && sessionId ≠ 0 && (m.sessionId = 0 || m.sessionId = sessionId)

/-- `qmodem_voip_media_attach` -/
def attach (m : MediaEngine) (attachment : Attachment) (sessionId : ℕ) : MediaEngine :=
  { m with sessionId, attachment }

/-- `qmodem_voip_media_detach` -/
def detach (m : MediaEngine) : MediaEngine := { m with sessionId := 0, attachment := .none }

theorem started_detach_ite (m : MediaEngine) {p : Prop} [Decidable p] :
    (if p then m.detach else m).started = m.started := by
  split <;> rfl

theorem ready_detach_ite (m : MediaEngine) {p : Prop} [Decidable p] :
    (if p then m.detach else m).ready = m.ready := by
  split <;> rfl

end MediaEngine

open MediaEngine

/-- `struct qmodem_voip_browser_media`; connections have numbers. -/
structure BrowserMedia where
  ready : Bool
  attached : Bool
  client : Option ℕ
  pending : Option ℕ
  callRevision : ℕ
  tokens : Slots

/-- `struct qmodem_voip_media_socket_peer` -/
inductive Peer where
  | closed
  | connected
  | attached
  deriving DecidableEq

/-- The daemon with its media path.  `rtp` is `active` of the RTP transport, and `listening` is
`ready` of the local socket. -/
structure VoiceMedia where
  daemon : VoiceDaemon
  engine : MediaEngine
  browser : BrowserMedia
  rtp : Bool
  listening : Bool
  peers : Fin 8 → Peer

/-- `call_media_state` -/
def CallState.carries : CallState → Bool
  | outgoingSetup | earlyMedia | active => true
  | _ => false

/-- The states in which `qmodem_voip_publish_event` releases the media path. -/
def CallState.releases : CallState → Bool
  | idle | terminating | disabled | fault => true
  | _ => false

/-- The browser has the call: `call_should_run`. -/
def Call.shouldRun (c : Call) : Bool :=
  c.state.carries && (c.origin = .browser || c.answerOwner = .browser)

/-- `session_hash` -/
def sessionHash (session : Text) : ℕ :=
  let hash : UInt64 := session.foldl (fun hash c => (hash ^^^ c.toUInt64) * 1099511628211)
    1469598103934665603
  if hash ≠ 0 then hash.toNat else 1

theorem sessionHash_ne_zero (session : Text) : sessionHash session ≠ 0 := by
  unfold sessionHash
  dsimp only
  split
  · rename_i h
    exact fun hzero => h (UInt64.toNat_inj.mp hzero)
  · exact Nat.one_ne_zero

namespace VoiceMedia

/-- The daemon starts. -/
def initial : VoiceMedia where
  daemon := .initial
  engine := .released
  browser := ⟨false, false, none, none, 0, .empty⟩
  rtp := false
  listening := false
  peers _ := .closed

variable (s : VoiceMedia)

def call : Call := s.daemon.context.call

/-! ## Releasing -/

/-- `qmodem_voip_browser_media_reset_call` -/
def resetCall : VoiceMedia :=
  { s with
    browser :=
      { s.browser with
        client := none, pending := none, attached := false, callRevision := 0, tokens := .empty }
    engine := if s.engine.attachment = .browser then s.engine.detach else s.engine }

/-- `qmodem_voip_browser_media_stop` -/
def browserStop : VoiceMedia :=
  { s.resetCall with browser := { s.resetCall.browser with ready := false } }

/-- `qmodem_voip_rtp_release` -/
def rtpRelease : VoiceMedia := if s.rtp then { s with rtp := false, engine := s.engine.detach } else s

/-- `qmodem_voip_media_socket_attached` -/
def socketAttached : Bool := decide (∃ i, s.peers i = .attached)

/-- `qmodem_voip_media_socket_release` -/
def socketRelease : VoiceMedia :=
  { s with
    peers := fun i => if s.peers i = .attached then .connected else s.peers i
    engine := if s.socketAttached then s.engine.detach else s.engine }

/-- `qmodem_voip_media_socket_stop` -/
def socketStop : VoiceMedia :=
  { s with
    listening := false
    peers := fun _ => .closed
    engine := if s.socketAttached then s.engine.detach else s.engine }

/-- `release_runtime` -/
def releaseRuntime : VoiceMedia :=
  { s.browserStop.rtpRelease.socketStop with engine := .released }

/-! ## The call and the media path -/

/-- `qmodem_voip_browser_media_start` -/
def browserStart : VoiceMedia :=
  { s with browser := { s.browser with ready := true, callRevision := 0 } }

/-- What `qmodem_voip_media_sync` does when the browser can connect. -/
def followCall (c : Call) : VoiceMedia :=
  if c.shouldRun then { s with browser := { s.browser with callRevision := c.revision } }
  else if s.browser.callRevision ≠ 0 || s.browser.attached || s.browser.client.isSome then s.resetCall
  else s

/-- `qmodem_voip_media_sync`; `listens` says that the browser could be started. -/
def mediaSync (listens : Bool) (c : Call) : VoiceMedia :=
  if !s.engine.ready then if s.browser.ready then s.browserStop else s
  else if s.browser.ready then s.followCall c
  else if listens then s.browserStart.followCall c
  else s

/-- `qmodem_voip_publish_event`, as far as it concerns the media path. -/
def publish (listens : Bool) (c : Call) : VoiceMedia :=
  (if c.state.releases then s.rtpRelease.socketRelease else s).mediaSync listens c

end VoiceMedia

/-- The calls that are announced before an event is over: the one that recovers since there is a gap
before a line, and the one that the line has left if its commands have failed. -/
def Context.interim (x : Context) : DaemonEvent → List Call
  | .message env m =>
    match lineOf m with
    | none => []
    | some l =>
      let y := ({ x with commandFailed := false }.line env l).1
      (if x.call.takes l && x.call.gap l then [x.call.recover.touch] else []) ++
        if y.commandFailed && x.events < y.events then [y.call] else []
  | _ => []

/-- The calls with which an event calls `qmodem_voip_publish_event`.  A line can announce the same
state twice; the media path then has nothing more to do. -/
def VoiceDaemon.announced (d : VoiceDaemon) (e : DaemonEvent) : List Call :=
  d.context.interim e ++
    if d.context.events < (d.step e).context.events then [(d.step e).context.call] else []

/-! ## Events -/

/-- The arguments of `qmodem_voip_media_token_method` with what it meets: whether the session is
authorized, the time, and 16 random bytes unless they cannot be read. -/
structure TokenRequest where
  sessionId : Bytes
  revision : ℕ
  origin : Bytes
  authorized : Bool
  now : ℕ
  secret : Option Bytes
  listens : Bool

/-- The arguments of `qmodem_voip_rtp_attach_method`, and whether the port can be bound. -/
structure RtpRequest where
  address : ℕ
  port : ℕ
  payloadType : ℕ
  sessionId : ℕ
  bound : Bool

inductive MediaEvent where
  /-- Something happens to the call. -/
  | daemon (e : DaemonEvent) (listens : Bool)
  /-- The timer, or a request for the status. -/
  | sync (listens : Bool)
  /-- The engine loses its device or gets it back. -/
  | ready (ready : Bool)
  | socketStart (ok : Bool)
  | issue (r : TokenRequest)
  /-- `LWS_CALLBACK_FILTER_PROTOCOL_CONNECTION`, with a header that is in order -/
  | filter (client : ℕ) (a : Slots.Attempt)
  /-- `LWS_CALLBACK_ESTABLISHED` -/
  | established (client : ℕ)
  /-- `LWS_CALLBACK_CLOSED` -/
  | closed (client : ℕ)
  | rtpAttach (r : RtpRequest)
  | rtpRelease
  | accept
  | peerAttach (i : Fin 8) (revision : ℕ) (session : Text) (authorized : Bool)
  | peerDetach (i : Fin 8)
  /-- The peer has closed its connection or sent something else. -/
  | peerClose (i : Fin 8)

namespace VoiceMedia

variable (s : VoiceMedia)

/-- What switching on and off does to the media path. -/
def runtime (e : DaemonEvent) : VoiceMedia :=
  match e with
  | .enable _ .ready =>
    if s.call.enabled then s
    else if (s.daemon.step e).context.call.enabled then { s with engine := .running }
    else s.releaseRuntime
  | .disable _ => s.releaseRuntime
  | _ => s

def setDaemon (d : VoiceDaemon) : VoiceMedia := { s with daemon := d }

/-- An event of the daemon, with what it announces. -/
def daemonStep (listens : Bool) (e : DaemonEvent) : VoiceMedia :=
  (s.daemon.announced e).foldl (fun s c => s.publish listens c)
    ((s.runtime e).setDaemon (s.daemon.step e))

/-- The loop of `qmodem_voip_browser_timer` starts the local socket. -/
def socketStart (ok : Bool) : VoiceMedia :=
  if s.engine.ready && !s.listening then { s with peers := fun _ => .closed, listening := ok } else s

/-- The revision is the current one or the one before. -/
def knowsRevision (revision : ℕ) : Bool :=
  revision = s.call.revision || (s.call.revision ≠ 0 && revision = s.call.revision - 1)

/-- `qmodem_voip_media_token_method` asks for a token. -/
def grants (r : TokenRequest) : Bool :=
  s.call.shouldRun && s.engine.ready && s.browser.ready && s.knowsRevision r.revision && r.authorized

/-- What the token is asked for: the address of the peer is not known. -/
def issueArgs (r : TokenRequest) : Slots.IssueArgs :=
  ⟨r.sessionId, s.call.revision, r.origin, none, r.now⟩

def withTokens (tokens : Slots) : VoiceMedia := { s with browser := { s.browser with tokens } }

/-- `qmodem_voip_media_token_method` -/
def issue (r : TokenRequest) : VoiceMedia :=
  let s := s.mediaSync r.listens s.call
  if s.grants r then s.withTokens (s.browser.tokens.issueToken (s.issueArgs r) r.secret).1 else s

/-- The token that `qmodem_voip_media_token_method` returns -/
def reply (r : TokenRequest) : Option Bytes :=
  let s := s.mediaSync r.listens s.call
  if s.grants r then (s.browser.tokens.issueToken (s.issueArgs r) r.secret).2 else none

/-- The browser has no connection yet, so that a token is looked at. -/
def vacant : Bool := s.browser.ready && s.browser.client.isNone && s.browser.pending.isNone

/-- The connection is let in, if it asks for one. -/
def accepts (a : Slots.Attempt) : Bool :=
  s.vacant && (s.browser.tokens.consume s.browser.callRevision a).2

/-- The branch of `browser_callback` for a new connection -/
def filter (client : ℕ) (a : Slots.Attempt) : VoiceMedia :=
  if s.vacant then
    let (tokens, ok) := s.browser.tokens.consume s.browser.callRevision a
    { s with browser := { s.browser with tokens, pending := if ok then some client else none } }
  else s

/-- `qmodem_voip_browser_media_attach` succeeds for the connection. -/
def establishes (client : ℕ) : Bool :=
  s.browser.client.isNone && s.browser.pending = some client && s.browser.ready &&
    !s.browser.attached && s.engine.admits s.browser.callRevision

/-- The branch of `browser_callback` for an established connection -/
def established (client : ℕ) : VoiceMedia :=
  if s.establishes client then
    { s with
      browser := { s.browser with client := some client, pending := none, attached := true }
      engine := s.engine.attach .browser s.browser.callRevision }
  else s

/-- The branch of `browser_callback` for a closed connection: the engine is not detached. -/
def closed (client : ℕ) : VoiceMedia :=
  let b := s.browser
  { s with
    browser :=
      { b with
        pending := if b.pending = some client then none else b.pending
        client := if b.client = some client then none else b.client
        attached := b.attached && b.client ≠ some client } }

/-- The method passes the request on. -/
def rtpPasses (r : RtpRequest) : Bool :=
  s.call.state.carries && s.engine.ready && r.sessionId ≠ 0 && r.port ≠ 0 && r.port ≤ 65535 &&
    (r.payloadType = 8 || r.payloadType = 0) && !s.browser.attached && r.address ≠ 0

/-- The transport attaches, once the last attachment of it is released. -/
def rtpAdmits (r : RtpRequest) : Bool := r.bound && s.engine.admits r.sessionId

/-- `qmodem_voip_rtp_attach_method` and `qmodem_voip_rtp_attach` -/
def rtpAttach (r : RtpRequest) : VoiceMedia :=
  if s.rtpPasses r then
    let s := s.rtpRelease
    if s.rtpAdmits r then { s with rtp := true, engine := s.engine.attach .lanSip r.sessionId } else s
  else s

def setPeer (i : Fin 8) (p : Peer) : VoiceMedia := { s with peers := Function.update s.peers i p }

/-- `channel_accept` -/
def accept : VoiceMedia :=
  if s.listening then
    match (List.finRange 8).find? fun i => s.peers i = .closed with
    | none => s
    | some i => s.setPeer i .connected
  else s

def peerAdmits (i : Fin 8) (revision : ℕ) (session : Text) (authorized : Bool) : Bool :=
  s.peers i = .connected && revision = s.call.revision && authorized &&
    s.engine.admits (sessionHash session)

/-- The branch of `channel_peer` for `QMODEM_VOIP_MEDIA_SOCKET_ATTACH` -/
def peerAttach (i : Fin 8) (revision : ℕ) (session : Text) (authorized : Bool) : VoiceMedia :=
  if s.peerAdmits i revision session authorized then
    { s.setPeer i .attached with engine := s.engine.attach .socket (sessionHash session) }
  else s

/-- A peer is no longer attached, and its connection is as given. -/
def peerLeave (i : Fin 8) (p : Peer) : VoiceMedia :=
  { s.setPeer i p with
    engine := if s.peers i = .attached then s.engine.detach else s.engine }

/-- The branch of `channel_peer` for `QMODEM_VOIP_MEDIA_SOCKET_DETACH` -/
def peerDetach (i : Fin 8) : VoiceMedia :=
  if s.peers i = .attached then s.peerLeave i .connected else s

def step : MediaEvent → VoiceMedia
  | .daemon e listens => s.daemonStep listens e
  | .sync listens => s.mediaSync listens s.call
  | .ready ready => { s with engine := { s.engine with ready := s.engine.started && ready } }
  | .socketStart ok => s.socketStart ok
  | .issue r => s.issue r
  | .filter client a => s.filter client a
  | .established client => s.established client
  | .closed client => s.closed client
  | .rtpAttach r => s.rtpAttach r
  | .rtpRelease => s.rtpRelease
  | .accept => s.accept
  | .peerAttach i revision session authorized => s.peerAttach i revision session authorized
  | .peerDetach i => s.peerDetach i
  | .peerClose i => s.peerLeave i .closed

end VoiceMedia

/-! ## What the parts agree on -/

inductive MediaClient where
  | browser
  | rtp
  | peer (i : Fin 8)
  deriving DecidableEq

namespace VoiceMedia

/-- The client is attached, by its own flag. -/
def holds (s : VoiceMedia) : MediaClient → Prop
  | .browser => s.browser.attached = true
  | .rtp => s.rtp = true
  | .peer i => s.peers i = .attached

instance (s : VoiceMedia) : DecidablePred s.holds
  | .browser => inferInstanceAs (Decidable (s.browser.attached = true))
  | .rtp => inferInstanceAs (Decidable (s.rtp = true))
  | .peer i => inferInstanceAs (Decidable (s.peers i = .attached))

variable {s s' s'' : VoiceMedia}

/-- Who is attached is told by three fields. -/
theorem holds_congr (hbrowser : s'.browser.attached = s.browser.attached) (hrtp : s'.rtp = s.rtp)
    (hpeers : s'.peers = s.peers) (a : MediaClient) : s'.holds a ↔ s.holds a := by
  cases a with
  | browser => simp only [holds, hbrowser]
  | rtp => simp only [holds, hrtp]
  | peer i => simp only [holds, hpeers]

/-- Who is attached was attached before, if this is so for each flag. -/
theorem holds_mono (hbrowser : s'.browser.attached = true → s.browser.attached = true)
    (hrtp : s'.rtp = true → s.rtp = true)
    (hpeers : ∀ i, s'.peers i = .attached → s.peers i = .attached) (a : MediaClient) :
    s'.holds a → s.holds a := by
  cases a with
  | browser => exact hbrowser
  | rtp => exact hrtp
  | peer i => exact hpeers i

/-- What holds between the parts whatever happens. -/
structure Sound (s : VoiceMedia) : Prop where
  enabled : s.engine.started = true → s.call.enabled = true
  ready : s.engine.ready = true → s.engine.started = true
  listener : s.browser.ready = true → s.engine.started = true
  holder : ∀ a, s.holds a → s.engine.started = true
  client : s.browser.client.isSome = s.browser.attached
  peers : s.listening = false → ∀ i, s.peers i = .closed

/-- Nobody attaches, connects or gets a token.  The browser can be started. -/
structure Subsides (s s' : VoiceMedia) : Prop where
  daemon : s'.daemon = s.daemon
  started : s'.engine.started = s.engine.started
  ready : s'.engine.ready = s.engine.ready
  listener : s'.browser.ready = true → s.browser.ready = true ∨ s.engine.ready = true
  holds : ∀ a, s'.holds a → s.holds a
  client : s'.browser.client = s.browser.client ∧ s'.browser.attached = s.browser.attached ∨
    s'.browser.client = none ∧ s'.browser.attached = false
  listening : s'.listening = s.listening
  peers : ∀ i, s.peers i = .closed → s'.peers i = .closed
  tokens : s'.browser.tokens = s.browser.tokens ∨ s'.browser.tokens = .empty

theorem Subsides.refl (s : VoiceMedia) : s.Subsides s :=
  ⟨rfl, rfl, rfl, .inl, fun _ => id, .inl ⟨rfl, rfl⟩, rfl, fun _ => id, .inl rfl⟩

/-- What subsides twice subsides. -/
theorem Subsides.trans (h : s.Subsides s') (h' : s'.Subsides s'') : s.Subsides s'' where
  daemon := h'.daemon.trans h.daemon
  started := h'.started.trans h.started
  ready := h'.ready.trans h.ready
  listener hready := (h'.listener hready).elim h.listener fun hengine => .inr (h.ready ▸ hengine)
  holds a ha := h.holds a (h'.holds a ha)
  -- the client is the same through both steps, or gone
  client := by
    obtain ⟨hclient, hattached⟩ | hnone := h'.client
    · rw [hclient, hattached]
      exact h.client
    · exact .inr hnone
  listening := h'.listening.trans h.listening
  peers i hi := h'.peers i (h.peers i hi)
  tokens := by
    obtain hsame | hempty := h'.tokens
    · exact hsame.symm ▸ h.tokens
    · exact .inr hempty

/-- Nothing that holds between the parts can be lost when somebody leaves. -/
theorem Sound.of_subsides (hs : s.Sound) (h : s.Subsides s') : s'.Sound where
  enabled hstarted := by
    unfold call
    rw [h.daemon]
    exact hs.enabled (h.started ▸ hstarted)
  ready hready := h.started.trans (hs.ready (h.ready ▸ hready))
  listener hready := h.started.trans ((h.listener hready).elim hs.listener hs.ready)
  holder a ha := h.started.trans (hs.holder a (h.holds a ha))
  -- the attached client is the one that is connected, or there is none
  client := by
    obtain ⟨hclient, hattached⟩ | ⟨hclient, hattached⟩ := h.client
    · rw [hclient, hattached]
      exact hs.client
    · rw [hclient, hattached]
      rfl
  peers hlistening i := h.peers i (hs.peers (h.listening ▸ hlistening) i)

/-- The browser is disconnected, and its tokens are dropped. -/
theorem subsides_resetCall (s : VoiceMedia) : s.Subsides s.resetCall where
  daemon := rfl
  started := started_detach_ite _
  ready := ready_detach_ite _
  listener := .inl
  holds := holds_mono nofun id fun _ => id
  client := .inr ⟨rfl, rfl⟩
  listening := rfl
  peers _ := id
  tokens := .inr rfl

theorem subsides_browserStop (s : VoiceMedia) : s.Subsides s.browserStop :=
  have h := subsides_resetCall s
  ⟨h.daemon, h.started, h.ready, fun hready => (by cases hready),
    fun a ha => h.holds a ((holds_congr rfl rfl rfl a).mp ha), h.client, h.listening, h.peers,
    h.tokens⟩

theorem subsides_browserStart (h : s.engine.ready = true) : s.Subsides s.browserStart :=
  ⟨rfl, rfl, rfl, fun _ => .inr h, fun a => (holds_congr rfl rfl rfl a).mp, .inl ⟨rfl, rfl⟩, rfl,
    fun _ => id, .inl rfl⟩

variable (s)

theorem subsides_rtpRelease : s.Subsides s.rtpRelease := by
  unfold rtpRelease
  split
  · exact ⟨rfl, rfl, rfl, .inl, holds_mono id nofun fun _ => id, .inl ⟨rfl, rfl⟩, rfl, fun _ => id,
      .inl rfl⟩
  · exact .refl s

/-- Peers are detached and stay connected. -/
theorem subsides_socketRelease : s.Subsides s.socketRelease where
  daemon := rfl
  started := started_detach_ite _
  ready := ready_detach_ite _
  listener := .inl
  holds := holds_mono id id fun i ha => by
    -- whoever was attached is only connected now
    have hpeer : (if s.peers i = .attached then Peer.connected else s.peers i) = .attached := ha
    split at hpeer
    · cases hpeer
    · exact hpeer
  client := .inl ⟨rfl, rfl⟩
  listening := rfl
  peers i hi := (if_neg (by rw [hi]; decide)).trans hi
  tokens := .inl rfl

theorem subsides_followCall (c : Call) : s.Subsides (s.followCall c) := by
  unfold followCall
  split_ifs
  · -- the tokens stay while the call goes on
    exact ⟨rfl, rfl, rfl, .inl, fun a => (holds_congr rfl rfl rfl a).mp, .inl ⟨rfl, rfl⟩, rfl,
      fun _ => id, .inl rfl⟩
  · exact subsides_resetCall s
  · exact .refl s

theorem subsides_mediaSync (listens : Bool) (c : Call) : s.Subsides (s.mediaSync listens c) := by
  unfold mediaSync
  split_ifs with hready hlistener
  · exact subsides_browserStop s
  · exact .refl s
  · exact subsides_followCall s c
  · exact (subsides_browserStart (by simpa using hready)).trans (subsides_followCall _ c)
  · exact .refl s

theorem subsides_publish (listens : Bool) (c : Call) : s.Subsides (s.publish listens c) := by
  unfold publish
  split
  · exact ((subsides_rtpRelease s).trans (subsides_socketRelease _)).trans (subsides_mediaSync _ _ c)
  · exact subsides_mediaSync s listens c

variable {s}

/-- **Announcements** attach nobody. -/
theorem subsides_announce (listens : Bool) (calls : List Call) (s : VoiceMedia) :
    s.Subsides (calls.foldl (fun s c => s.publish listens c) s) := by
  induction calls generalizing s with
  | nil => exact .refl s
  | cons c calls ih => exact (subsides_publish s listens c).trans (ih _)

structure Silent (s : VoiceMedia) : Prop where
  engine : s.engine = .released
  listener : s.browser.ready = false
  holds : ∀ a, ¬ s.holds a
  client : s.browser.client = none
  peers : ∀ i, s.peers i = .closed
  tokens : s.browser.tokens = .empty

/-- Where everything is released there is nothing to check. -/
theorem Silent.sound (h : s.Silent) : s.Sound where
  enabled hstarted := by
    rw [h.engine] at hstarted
    cases hstarted
  ready hready := by
    rw [h.engine] at hready
    cases hready
  listener hready := absurd (h.listener.symm.trans hready) false_ne_true
  holder a ha := absurd ha (h.holds a)
  client := by
    rw [h.client]
    exact (eq_false_iff.mpr (h.holds .browser)).symm
  peers _ := h.peers

theorem browser_rtpRelease : s.rtpRelease.browser = s.browser := by
  unfold rtpRelease
  split <;> rfl

theorem rtp_rtpRelease : s.rtpRelease.rtp = false := by
  unfold rtpRelease
  split
  · rfl
  · rename_i h
    simpa using h

/-- Releasing the runtime releases everything. -/
theorem silent_releaseRuntime (s : VoiceMedia) (d : VoiceDaemon) :
    (s.releaseRuntime.setDaemon d).Silent := by
  -- what is released after the browser does not touch it
  have hbrowser : (s.releaseRuntime.setDaemon d).browser = s.browserStop.browser :=
    browser_rtpRelease
  have hrtp : (s.releaseRuntime.setDaemon d).rtp = false := rtp_rtpRelease
  refine ⟨rfl, ?_, fun a ha => ?_, ?_, fun i => rfl, ?_⟩
  · rw [hbrowser]
    rfl
  · cases a with
    | browser =>
      unfold holds at ha
      rw [hbrowser] at ha
      cases ha
    | rtp => exact absurd (hrtp.symm.trans ha) false_ne_true
    | peer i => cases ha
  · rw [hbrowser]
    rfl
  · rw [hbrowser]
    rfl

variable {e : DaemonEvent}

theorem runtime_of_not_switches (h : e.switches s.call = false) : s.runtime e = s := by
  unfold runtime
  split
  · exact if_pos (by simpa [DaemonEvent.switches] using h)
  · cases h
  · rfl

section

variable (hs : s.Sound)

include hs

/-- While the daemon is switched off, the engine is not started. -/
theorem Sound.not_started (h : s.call.enabled = false) : s.engine.started = false :=
  eq_false_iff.mpr fun hstarted => false_ne_true (h.symm.trans (hs.enabled hstarted))

/-- The runtime is released before the daemon is off. -/
theorem sound_runtime (e : DaemonEvent) : ((s.runtime e).setDaemon (s.daemon.step e)).Sound := by
  cases hswitches : e.switches s.call with
  | false =>
    -- the daemon stays on or off, and the media path is left alone
    have henabled : (s.daemon.step e).context.call.enabled = s.call.enabled :=
      (VoiceDaemon.proceeds_step hswitches).enabled
    rw [runtime_of_not_switches hswitches]
    exact { hs with enabled := fun h => henabled.trans (hs.enabled h) }
  | true =>
    cases e with
    | disable env => exact (silent_releaseRuntime s _).sound
    | enable env preparation =>
      -- the daemon was off, so nobody can have attached to an engine that was not started
      have hdisabled : s.call.enabled = false := by simpa [DaemonEvent.switches] using hswitches
      have hkept : (s.setDaemon (s.daemon.step (.enable env preparation))).Sound :=
        { hs with
          enabled := fun h => absurd ((hs.not_started hdisabled).symm.trans h) false_ne_true }
      cases preparation with
      | failed => exact hkept
      | restart => exact hkept
      | ready =>
        dsimp only [runtime]
        rw [if_neg (by simp [hdisabled])]
        split
        · rename_i henabled
          exact ⟨fun _ => henabled, fun _ => rfl, fun _ => rfl, fun _ _ => rfl, hs.client, hs.peers⟩
        · exact (silent_releaseRuntime s _).sound
    | _ => cases hswitches

theorem sound_daemonStep (listens : Bool) (e : DaemonEvent) : (s.daemonStep listens e).Sound :=
  (sound_runtime hs e).of_subsides (subsides_announce listens _ _)

/-- Somebody who attaches finds the engine started. -/
theorem Sound.started_of_admits {sessionId : ℕ} (h : s.engine.admits sessionId = true) :
    s.engine.started = true := by
  unfold admits at h
  simp only [and_eq_true] at h
  exact hs.ready h.1.1

theorem sound_issue (r : TokenRequest) : (s.issue r).Sound := by
  have hsync := hs.of_subsides (subsides_mediaSync s r.listens s.call)
  unfold issue
  dsimp only
  split
  · exact { hsync with holder := fun a ha => hsync.holder a ((holds_congr rfl rfl rfl a).mp ha) }
  · exact hsync

theorem sound_filter (client : ℕ) (a : Slots.Attempt) : (s.filter client a).Sound := by
  unfold filter
  split
  · exact { hs with holder := fun a ha => hs.holder a ((holds_congr rfl rfl rfl a).mp ha) }
  · exact hs

theorem sound_established (client : ℕ) : (s.established client).Sound := by
  unfold established
  split
  · rename_i h
    have hadmits : s.engine.admits s.browser.callRevision = true := by
      simp only [establishes, and_eq_true] at h
      exact h.2
    exact { hs with holder := fun _ _ => hs.started_of_admits hadmits, client := rfl }
  · exact hs

/-- A client that was attached is detached when it closes. -/
theorem sound_closed (client : ℕ) : (s.closed client).Sound := by
  have hholds : ∀ a, (s.closed client).holds a → s.holds a :=
    holds_mono (fun hattached => (and_eq_true_iff.mp hattached).1) id fun _ => id
  refine { hs with holder := fun a ha => hs.holder a (hholds a ha), client := ?_ }
  · -- the connection and the flag are cleared together
    show (if s.browser.client = some client then none else s.browser.client).isSome =
      (s.browser.attached && decide (s.browser.client ≠ some client))
    split
    · rename_i h
      simp [h]
    · rename_i h
      simp [h, hs.client]

/-- RTP attaches only to an engine that was started. -/
theorem sound_rtpAttach (r : RtpRequest) : (s.rtpAttach r).Sound := by
  have hrelease := hs.of_subsides (subsides_rtpRelease s)
  unfold rtpAttach
  dsimp only
  split_ifs with hpasses hadmits
  · have hadmits' : s.rtpRelease.engine.admits r.sessionId = true := by
      simp only [rtpAdmits, and_eq_true] at hadmits
      exact hadmits.2
    exact { hrelease with holder := fun _ _ => hrelease.started_of_admits hadmits' }
  · exact hrelease
  · exact hs

/-- A slot is taken only while the socket listens. -/
theorem sound_accept : s.accept.Sound := by
  unfold accept
  split
  · rename_i hlistening
    split
    · exact hs
    · rename_i i hfind
      have hholds : ∀ a, (s.setPeer i .connected).holds a → s.holds a := by
        refine holds_mono id id fun j ha => ?_
        -- a peer that is accepted has not attached yet
        simp only [setPeer, Function.update_apply] at ha
        split at ha
        · cases ha
        · exact ha
      exact { hs with
        holder := fun a ha => hs.holder a (hholds a ha)
        peers := fun hnot => absurd (hnot.symm.trans hlistening) false_ne_true }
  · exact hs

/-- A peer attaches only to an engine that was started. -/
theorem sound_peerAttach (i : Fin 8) (revision : ℕ) (session : Text) (authorized : Bool) :
    (s.peerAttach i revision session authorized).Sound := by
  unfold peerAttach
  split
  · rename_i h
    simp only [peerAdmits, and_eq_true, decide_eq_true_eq] at h
    obtain ⟨⟨⟨hconnected, -⟩, -⟩, hadmits⟩ := h
    refine { hs with holder := fun _ _ => hs.started_of_admits hadmits, peers := fun hnot => ?_ }
    exact absurd (hconnected.symm.trans (hs.peers hnot i)) (by decide)
  · exact hs

end

/-- A peer that leaves does not attach. -/
theorem subsides_peerLeave (s : VoiceMedia) (i : Fin 8) {p : Peer} (hp : p ≠ .attached)
    (hclosed : s.peers i = .closed → p = .closed) : s.Subsides (s.peerLeave i p) where
  daemon := rfl
  started := started_detach_ite _
  ready := ready_detach_ite _
  listener := .inl
  -- the peer itself is no longer attached, the others are as before
  holds := holds_mono id id fun j ha => by
    simp only [peerLeave, setPeer, Function.update_apply] at ha
    split at ha
    · exact absurd ha hp
    · exact ha
  client := .inl ⟨rfl, rfl⟩
  listening := rfl
  peers j hj := by
    simp only [peerLeave, setPeer, Function.update_apply]
    split
    · rename_i h
      exact hclosed (h ▸ hj)
    · exact hj
  tokens := .inl rfl

theorem subsides_peerDetach (s : VoiceMedia) (i : Fin 8) : s.Subsides (s.peerDetach i) := by
  unfold peerDetach
  split
  · rename_i h
    exact subsides_peerLeave s i (by decide) fun hclosed => absurd (h.symm.trans hclosed) (by decide)
  · exact .refl s

theorem sound_socketStart (hs : s.Sound) (ok : Bool) : (s.socketStart ok).Sound := by
  unfold socketStart
  split
  · have hholds : ∀ a, { s with peers := fun _ => .closed, listening := ok }.holds a → s.holds a :=
      holds_mono id id fun _ => nofun
    exact { hs with holder := fun a ha => hs.holder a (hholds a ha), peers := fun _ _ => rfl }
  · exact hs

/-- **Whatever happens, the parts agree** on who can be there at all. -/
theorem sound_step (hs : s.Sound) (event : MediaEvent) : (s.step event).Sound := by
  cases event with
  | daemon e listens => exact sound_daemonStep hs listens e
  | sync listens => exact hs.of_subsides (subsides_mediaSync s listens s.call)
  -- readiness is set together with the engine
  | ready ready =>
    exact { hs with
      ready := fun h => (and_eq_true_iff.mp h).1
      holder := fun a ha => hs.holder a ((holds_congr rfl rfl rfl a).mp ha) }
  | socketStart ok => exact sound_socketStart hs ok
  | issue r => exact sound_issue hs r
  | filter client a => exact sound_filter hs client a
  | established client => exact sound_established hs client
  | closed client => exact sound_closed hs client
  | rtpAttach r => exact sound_rtpAttach hs r
  | rtpRelease => exact hs.of_subsides (subsides_rtpRelease s)
  | accept => exact sound_accept hs
  | peerAttach i revision session authorized =>
    exact sound_peerAttach hs i revision session authorized
  | peerDetach i => exact hs.of_subsides (subsides_peerDetach s i)
  | peerClose i => exact hs.of_subsides (subsides_peerLeave s i (by decide) fun _ => rfl)

theorem sound_initial : initial.Sound :=
  Silent.sound ⟨rfl, rfl, fun a ha => (by cases a <;> cases ha), rfl, fun _ => rfl, rfl⟩

/-- **While voice is switched off, nobody is there**: the engine is not started, no browser can
connect, and no client is attached. -/
theorem disabled_nobody (events : List MediaEvent) :
    Throughout step (fun s => s.call.enabled = false →
      s.engine.started = false ∧ s.browser.ready = false ∧ ∀ a, ¬ s.holds a) initial events := by
  have hsound : Throughout step Sound initial events :=
    throughout_of_step sound_initial fun s event _ hs => sound_step hs event
  refine hsound.imp fun s hs hoff => ?_
  have hnot := eq_false_iff.mp (hs.not_started hoff)
  exact ⟨hs.not_started hoff, eq_false_iff.mpr (mt hs.listener hnot), fun a => mt (hs.holder a) hnot⟩

/-! ## A call of a browser -/

/-- The daemon is switched on, the modem has no call, and a browser makes one. -/
def browserCall : List MediaEvent :=
  [.daemon (.enable (.working (ascii "/dev/ttyUSB2")) .ready) true,
    .daemon (.message (.working (ascii "/dev/ttyUSB2"))
      (.line ⟨⟨ascii "/dev/ttyUSB2", 1, 1, 0, ascii "OK", 1, .terminal⟩, 0⟩)) true,
    .daemon (.request (.working (ascii "/dev/ttyUSB2")) true .browser (.originate (ascii "10086")))
      true]

/-- The browser asks for a token. -/
def browserToken : TokenRequest where
  sessionId := ascii "4f2c"
  revision := 5
  origin := ascii "https://192.168.1.1"
  authorized := true
  now := 1000
  secret := some (List.replicate 16 7)
  listens := true

/-- The browser presents the token. -/
def browserAttempt : Slots.Attempt where
  token := encodeToken (List.replicate 16 7)
  sessionId := ascii "4f2c"
  origin := ascii "https://192.168.1.1"
  peerAddress := ascii "uhttpd-unix"
  now := 1010

end VoiceMedia

end QModem.Voip
