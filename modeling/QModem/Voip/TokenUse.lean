import QModem.Voip.Media

/-!
# What Tokens Are Good For

A token lets a browser have the audio of the call for which it was issued.  The slots do not know
the call, only a revision, and an older revision is accepted.  What makes a token useless in a later
call is that all slots are emptied as soon as it is announced that the call does not carry media any
more, and that every change of state is announced.

## Main results

- `VoiceMedia.mem_step`: how a token can be in a slot after a step
- `VoiceMedia.redeems_of_accepts`: what is known of a token that is accepted
-/

namespace QModem.Voip

open Lib List Slots
open At (Text Message)

namespace Call

variable {c c' : Call}

/-- A call that was ever switched on has a revision. -/
def Numbered (c : Call) : Prop := c.revision = 0 → c.state = .disabled

theorem Raises.numbered (h : c.Raises c') (hc : c.Numbered) : c'.Numbered := by
  intro hzero
  have hrevision : c.revision = 0 := Nat.le_zero.mp (hzero ▸ h.revision)
  by_cases hsame : c'.state = c.state
  · exact hsame.trans (hc hrevision)
  · exact absurd (h.moved hsame) (by rw [hzero]; exact Nat.not_lt_zero _)

theorem Numbered.revision_ne (hc : c.Numbered) (h : c.state.carries = true) : c.revision ≠ 0 := by
  intro hzero
  rw [hc hzero] at h
  cases h

end Call

/-- A call that is announced has a revision. -/
theorem VoiceDaemon.numbered_announced {d : VoiceDaemon} {c : Call} (h : d.context.call.Numbered)
    (e : DaemonEvent) (hc : c ∈ d.announced e) : c.Numbered := by
  obtain hinterim | hlast := mem_append.mp hc
  · cases e with
    | message env m =>
      dsimp only [Context.interim] at hinterim
      split at hinterim
      · cases hinterim
      · rename_i l hline
        -- in between a gap or a failed command may be announced
        obtain hgap | hfailed := mem_append.mp hinterim
        · split_ifs at hgap
          · obtain rfl := mem_singleton.mp hgap
            exact nofun
          · cases hgap
        · split_ifs at hfailed
          · obtain rfl := mem_singleton.mp hfailed
            let y : Context := { d.context with commandFailed := false }
            exact (Context.proceeds_line env y l).raises.numbered h
          · cases hfailed
    | _ => cases hinterim
  · split_ifs at hlast
    · obtain rfl := mem_singleton.mp hlast
      exact (d.raises_step e).numbered h
    · cases hlast

namespace VoiceMedia

variable {s s' : VoiceMedia} {t : Token}

/-! ## Slots are emptied with the call -/

/-- The browser can connect, and it has a call. -/
structure Serves (s : VoiceMedia) : Prop where
  ready : s.browser.ready = true
  revision : s.browser.callRevision ≠ 0

theorem Subsides.mem_tokens (h : s.Subsides s') (ht : some t ∈ s'.browser.tokens) :
    some t ∈ s.browser.tokens := by
  obtain hsame | hempty := h.tokens
  · exact hsame ▸ ht
  · rw [hempty] at ht
    exact absurd ht not_mem_empty

/-- Synchronizing empties the slots unless the browser has a call that carries media. -/
theorem serves_mediaSync {c : Call} (hc : c.Numbered) (h : some t ∈ s.browser.tokens → s.Serves)
    (listens : Bool) (ht : some t ∈ (s.mediaSync listens c).browser.tokens) :
    c.state.carries = true ∧ (s.mediaSync listens c).Serves := by
  have hserves := h ((subsides_mediaSync s listens c).mem_tokens ht)
  unfold mediaSync followCall at *
  rw [if_pos hserves.ready, if_pos hserves.ready] at *
  split_ifs at * with hready hrun
  · exact absurd ht not_mem_empty
  · have hcarries := (Bool.and_eq_true_iff.mp hrun).1
    exact ⟨hcarries, hserves.ready, hc.revision_ne hcarries⟩
  · exact absurd ht not_mem_empty
  · -- a browser with tokens has a revision, so it is not passed over
    rename_i hnone
    simp [hserves.revision] at hnone

/-- A call that carries no media takes the tokens with it. -/
theorem serves_publish {c : Call} (hc : c.Numbered) (h : some t ∈ s.browser.tokens → s.Serves)
    (listens : Bool) (ht : some t ∈ (s.publish listens c).browser.tokens) :
    c.state.carries = true ∧ (s.publish listens c).Serves := by
  unfold publish at *
  split_ifs at *
  · have hbrowser : s.rtpRelease.socketRelease.browser = s.browser := browser_rtpRelease
    refine serves_mediaSync hc (fun hmem => ?_) listens ht
    rw [hbrowser] at hmem
    exact ⟨hbrowser ▸ (h hmem).ready, hbrowser ▸ (h hmem).revision⟩
  · exact serves_mediaSync hc h listens ht

/-- A token survives announcements only if all of them are of a call that carries media. -/
theorem serves_announce {calls : List Call} (hcalls : ∀ c ∈ calls, c.Numbered)
    (h : some t ∈ s.browser.tokens → s.Serves) (listens : Bool)
    (ht : some t ∈ (calls.foldl (fun s c => s.publish listens c) s).browser.tokens) :
    (∀ c ∈ calls, c.state.carries = true) ∧
      (calls.foldl (fun s c => s.publish listens c) s).Serves := by
  induction calls generalizing s with
  | nil => exact ⟨fun c hc => absurd hc not_mem_nil, h ht⟩
  | cons c calls ih =>
    have hhere := serves_publish (hcalls c mem_cons_self) h listens
    have hmem := (subsides_announce listens calls (s.publish listens c)).mem_tokens ht
    obtain ⟨hrest, hserves⟩ := ih (fun c hc => hcalls c (mem_cons_of_mem _ hc))
      (fun hmem => (hhere hmem).2) ht
    exact ⟨forall_mem_cons.mpr ⟨(hhere hmem).1, hrest⟩, hserves⟩

/-! ## Steps -/

/-- While there are tokens, there is a call that carries media. -/
structure Alive (s : VoiceMedia) : Prop extends s.Sound where
  numbered : s.call.Numbered
  serves : ∀ t, some t ∈ s.browser.tokens → s.Serves
  carries : ∀ t, some t ∈ s.browser.tokens → s.call.state.carries = true

/-- Without an engine there are no tokens. -/
theorem Alive.not_mem (h : s.Alive) (hdisabled : s.call.enabled = false) :
    some t ∉ s.browser.tokens := by
  intro ht
  have hstarted := h.listener (h.serves t ht).ready
  exact Bool.false_ne_true (hdisabled.symm.trans (h.enabled hstarted))

/-- A token in a slot was there before the event, unless the daemon is switched on or off. -/
theorem mem_runtime (h : s.Alive) {e : DaemonEvent}
    (ht : some t ∈ ((s.runtime e).setDaemon (s.daemon.step e)).browser.tokens) :
    some t ∈ s.browser.tokens ∧ e.switches s.call = false := by
  cases hswitches : e.switches s.call with
  | false =>
    rw [runtime_of_not_switches hswitches] at ht
    exact ⟨ht, rfl⟩
  | true =>
    -- switching off empties the slots, and before switching on they are empty
    exfalso
    have hsilent : some t ∉ (s.releaseRuntime.setDaemon (s.daemon.step e)).browser.tokens := by
      rw [(silent_releaseRuntime s _).tokens]
      exact not_mem_empty
    cases e with
    | disable env => exact hsilent ht
    | enable env preparation =>
      have hdisabled : s.call.enabled = false := by simpa [DaemonEvent.switches] using hswitches
      have hnone : some t ∉ s.browser.tokens := h.not_mem hdisabled
      cases preparation with
      | failed => exact hnone ht
      | restart => exact hnone ht
      | ready =>
        dsimp only [runtime] at ht
        rw [if_neg (by simp [hdisabled])] at ht
        split at ht
        · exact hnone ht
        · exact hsilent ht
    | _ => cases hswitches

def announced (s : VoiceMedia) : MediaEvent → List Call
  | .daemon e _ => s.daemon.announced e
  | _ => []

/-- The call carries media after the event, and whenever it was announced in between. -/
structure Carries (s : VoiceMedia) (event : MediaEvent) : Prop where
  state : (s.step event).call.state.carries = true
  announced : ∀ c ∈ s.announced event, c.state.carries = true

/-- The daemon gives out no token, and keeps one only for a call that carries media. -/
theorem mem_daemonStep (h : s.Alive) (listens : Bool) (e : DaemonEvent)
    (ht : some t ∈ (s.daemonStep listens e).browser.tokens) :
    some t ∈ s.browser.tokens ∧ (s.daemonStep listens e).Serves ∧ s.Carries (.daemon e listens) := by
  have hannounce := subsides_announce listens (s.daemon.announced e)
    ((s.runtime e).setDaemon (s.daemon.step e))
  obtain ⟨hmem, hswitches⟩ := mem_runtime h (hannounce.mem_tokens ht)
  have hserves : ((s.runtime e).setDaemon (s.daemon.step e)).Serves := by
    rw [runtime_of_not_switches hswitches]
    exact ⟨(h.serves t hmem).ready, (h.serves t hmem).revision⟩
  obtain ⟨hall, hserves'⟩ :=
    serves_announce (fun c hc => VoiceDaemon.numbered_announced h.numbered e hc)
    (fun _ => hserves) listens ht
  refine ⟨hmem, hserves', ?_, hall⟩
  -- a state that is new was announced
  have hcall : (s.daemonStep listens e).call = (s.daemon.step e).context.call :=
    congrArg (fun d => d.context.call) hannounce.daemon
  have hproceeds := VoiceDaemon.proceeds_step (d := s.daemon) hswitches
  show (s.daemonStep listens e).call.state.carries = true
  rw [hcall]
  by_cases hsame : (s.daemon.step e).context.call.state = s.call.state
  · rw [hsame]
    exact h.carries t hmem
  · refine hall _ (mem_append_right _ ?_)
    rw [if_pos (hproceeds.moved hsame)]
    exact mem_singleton_self _

structure Gives (s : VoiceMedia) (r : TokenRequest) (t : Token) : Prop where
  granted : (s.mediaSync r.listens s.call).grants r = true
  issues : (s.mediaSync r.listens s.call).browser.tokens.Issues
    ((s.mediaSync r.listens s.call).issueArgs r) r.secret t

/-- When a token is asked for, the browser has the revision of the call. -/
theorem callRevision_mediaSync {c : Call} {listens : Bool} (hrun : c.shouldRun = true)
    (hengine : (s.mediaSync listens c).engine.ready = true)
    (hready : (s.mediaSync listens c).browser.ready = true) :
    (s.mediaSync listens c).browser.callRevision = c.revision := by
  have hsubsides := (subsides_mediaSync s listens c).ready
  rw [hengine] at hsubsides
  unfold mediaSync followCall at *
  simp only [← hsubsides, hrun, Bool.not_true, Bool.false_eq_true, if_false, if_true] at *
  split_ifs at * with hlistener
  · rfl
  · rfl
  · exact absurd hready hlistener

theorem daemon_issue (s : VoiceMedia) (r : TokenRequest) : (s.issue r).daemon = s.daemon := by
  have hsync := (subsides_mediaSync s r.listens s.call).daemon
  unfold issue
  dsimp only
  split <;> exact hsync

/-- A token is an old one, or that of this request. -/
theorem mem_issue (h : s.Alive) (r : TokenRequest) (ht : some t ∈ (s.issue r).browser.tokens) :
    (some t ∈ s.browser.tokens ∨ s.Gives r t) ∧ (s.issue r).Serves ∧ s.Carries (.issue r) := by
  -- `media_sync` comes first and leaves the call alone
  have hsync := subsides_mediaSync s r.listens s.call
  have hcall : (s.mediaSync r.listens s.call).call = s.call :=
    congrArg (fun d => d.context.call) hsync.daemon
  have hissue : (s.issue r).call = s.call := congrArg (fun d => d.context.call) (daemon_issue s r)
  have hserves := serves_mediaSync (t := t) h.numbered (fun hmem => h.serves t hmem) r.listens
  suffices hnew : (some t ∈ s.browser.tokens ∨ s.Gives r t) ∧ (s.issue r).Serves ∧
      s.call.state.carries = true from
    ⟨hnew.1, hnew.2.1, (congrArg (fun c => c.state.carries) hissue).trans hnew.2.2,
      fun c hc => absurd hc not_mem_nil⟩
  unfold issue at *
  dsimp only at *
  split_ifs at * with hgrants
  · obtain hold | hissued := mem_issueToken ht
    · obtain ⟨hcarries, hserves⟩ := hserves hold
      exact ⟨.inl (hsync.mem_tokens hold), ⟨hserves.ready, hserves.revision⟩, hcarries⟩
    · -- a new token: the call carries media, or it would not have been granted
      have hgrants' := hgrants
      simp only [grants, Bool.and_eq_true, hcall] at hgrants'
      obtain ⟨⟨⟨⟨hrun, hengine⟩, hready⟩, -⟩, -⟩ := hgrants'
      have hcarries := (Bool.and_eq_true_iff.mp hrun).1
      refine ⟨.inr ⟨hgrants, hissued⟩, ⟨hready, ?_⟩, hcarries⟩
      exact (callRevision_mediaSync hrun hengine hready).trans_ne (h.numbered.revision_ne hcarries)
  · obtain ⟨hcarries, hserves⟩ := hserves ht
    exact ⟨.inl (hsync.mem_tokens ht), hserves, hcarries⟩

/-- The event concerns neither the call nor what the browser may do, and adds no token. -/
structure Quiet (s s' : VoiceMedia) : Prop where
  daemon : s'.daemon = s.daemon
  ready : s'.browser.ready = s.browser.ready
  revision : s'.browser.callRevision = s.browser.callRevision
  tokens : ∀ (i : ℕ) (t : Token), s'.browser.tokens[i]? = some (some t) →
    s.browser.tokens[i]? = some (some t)

theorem Quiet.of_browser (hdaemon : s'.daemon = s.daemon) (hbrowser : s'.browser = s.browser) :
    s.Quiet s' :=
  ⟨hdaemon, by rw [hbrowser], by rw [hbrowser], fun _ _ h => hbrowser ▸ h⟩

theorem Quiet.mem_tokens (h : s.Quiet s') (ht : some t ∈ s'.browser.tokens) :
    some t ∈ s.browser.tokens := by
  obtain ⟨i, hi⟩ := mem_iff_getElem?.mp ht
  exact mem_of_getElem? (h.tokens i t hi)

end VoiceMedia

/-- The event is about one of the connections. -/
def MediaEvent.connects : MediaEvent → Bool
  | daemon _ _ | sync _ | issue _ => false
  | _ => true

namespace VoiceMedia

variable {s s' : VoiceMedia} {t : Token}

theorem quiet_rtpRelease (s : VoiceMedia) : s.Quiet s.rtpRelease :=
  .of_browser (subsides_rtpRelease s).daemon browser_rtpRelease

theorem quiet_rtpAttach (s : VoiceMedia) (r : RtpRequest) : s.Quiet (s.rtpAttach r) := by
  have hrelease := quiet_rtpRelease s
  unfold rtpAttach
  dsimp only
  split_ifs
  · exact ⟨hrelease.daemon, hrelease.ready, hrelease.revision, hrelease.tokens⟩
  · exact hrelease
  · exact .of_browser rfl rfl

theorem quiet_accept (s : VoiceMedia) : s.Quiet s.accept := by
  unfold accept
  split
  · split
    · exact .of_browser rfl rfl
    · exact .of_browser rfl rfl
  · exact .of_browser rfl rfl

/-- Connecting, attaching and leaving give out no token. -/
theorem quiet_step {event : MediaEvent} (hevent : event.connects = true) : s.Quiet (s.step event) := by
  cases event with
  | daemon e listens => cases hevent
  | sync listens => cases hevent
  | issue r => cases hevent
  | ready ready => exact .of_browser rfl rfl
  | socketStart ok =>
    dsimp only [step, socketStart]
    split <;> exact .of_browser rfl rfl
  -- the token that is used is removed
  | filter client a =>
    dsimp only [step, filter]
    split
    · exact ⟨rfl, rfl, rfl, fun i t hi => getElem?_consume hi⟩
    · exact .of_browser rfl rfl
  | established client =>
    dsimp only [step, established]
    split
    · exact ⟨rfl, rfl, rfl, fun _ _ => id⟩
    · exact .of_browser rfl rfl
  | closed client => exact ⟨rfl, rfl, rfl, fun _ _ => id⟩
  | rtpAttach r => exact quiet_rtpAttach s r
  | rtpRelease => exact quiet_rtpRelease s
  | accept => exact quiet_accept s
  | peerAttach i revision session authorized =>
    dsimp only [step, peerAttach]
    split <;> exact .of_browser rfl rfl
  | peerDetach i =>
    dsimp only [step, peerDetach]
    split <;> exact .of_browser rfl rfl
  | peerClose i => exact .of_browser rfl rfl

/-- **How a token can be in a slot after a step**: it was there, or it is given out.  In any case
the call carries media. -/
theorem mem_step (h : s.Alive) (event : MediaEvent) (ht : some t ∈ (s.step event).browser.tokens) :
    (some t ∈ s.browser.tokens ∨ ∃ r, event = .issue r ∧ s.Gives r t) ∧ (s.step event).Serves ∧
      s.Carries event := by
  cases hevent : event.connects with
  | true =>
    -- nothing but the daemon, a sync or a request concerns the tokens
    have hquiet := quiet_step (s := s) hevent
    have hmem := hquiet.mem_tokens ht
    have hserves := h.serves t hmem
    have hcall : (s.step event).call = s.call := congrArg (fun d => d.context.call) hquiet.daemon
    have hannounced : s.announced event = [] := by
      cases event with
      | daemon e listens => cases hevent
      | _ => rfl
    refine ⟨.inl hmem, ⟨hquiet.ready.trans hserves.ready, hquiet.revision.trans_ne hserves.revision⟩,
      ?_, fun c hc => ?_⟩
    · rw [hcall]
      exact h.carries t hmem
    · rw [hannounced] at hc
      exact absurd hc not_mem_nil
  | false =>
    cases event with
    | daemon e listens =>
      obtain ⟨hmem, hserves, hcarries⟩ := mem_daemonStep h listens e ht
      exact ⟨.inl hmem, hserves, hcarries⟩
    | sync listens =>
      have hsync := subsides_mediaSync s listens s.call
      have hcall : (s.step (.sync listens)).call = s.call :=
        congrArg (fun d => d.context.call) hsync.daemon
      obtain ⟨hcarries, hserves⟩ :=
        serves_mediaSync (t := t) h.numbered (fun hmem => h.serves t hmem) listens ht
      refine ⟨.inl (hsync.mem_tokens ht), hserves, ?_, fun c hc => absurd hc not_mem_nil⟩
      rw [hcall]
      exact hcarries
    | issue r =>
      obtain ⟨hmem | hgives, hrest⟩ := mem_issue h r ht
      · exact ⟨.inl hmem, hrest⟩
      · exact ⟨.inr ⟨r, rfl, hgives⟩, hrest⟩
    | _ => cases hevent

/-- The call is the one that the daemon has made of it. -/
theorem daemon_step (s : VoiceMedia) (event : MediaEvent) :
    (s.step event).daemon = match event with
      | .daemon e _ => s.daemon.step e
      | _ => s.daemon := by
  cases event with
  | daemon e listens => exact (subsides_announce listens _ _).daemon
  | sync listens => exact (subsides_mediaSync s listens s.call).daemon
  | issue r => exact daemon_issue s r
  | _ => exact (quiet_step rfl).daemon

theorem numbered_step (h : s.call.Numbered) (event : MediaEvent) : (s.step event).call.Numbered := by
  unfold call
  rw [daemon_step]
  cases event with
  | daemon e listens => exact (s.daemon.raises_step e).numbered h
  | _ => exact h

theorem alive_step (h : s.Alive) (event : MediaEvent) : (s.step event).Alive where
  toSound := sound_step h.toSound event
  numbered := numbered_step h.numbered event
  serves _ ht := (mem_step h event ht).2.1
  carries _ ht := (mem_step h event ht).2.2.state

theorem alive_initial : initial.Alive where
  toSound := sound_initial
  numbered _ := rfl
  serves _ ht := absurd ht not_mem_empty
  carries _ ht := absurd ht not_mem_empty

/-! ## Secrets -/

/-- The random bytes that an event gives out -/
def drawn (s : VoiceMedia) : MediaEvent → List Bytes
  | .issue r => if (s.mediaSync r.listens s.call).grants r then r.secret.toList else []
  | _ => []

/-- The event presents the secret, and the slots are searched for it. -/
def Presents (secret : Bytes) (s : VoiceMedia) : MediaEvent → Prop
  | .filter _ a => s.vacant = true ∧ decodeToken a.token = some secret
  | _ => False

theorem Gives.mem_drawn {r : TokenRequest} (h : s.Gives r t) : t.secret ∈ s.drawn (.issue r) := by
  dsimp only [drawn]
  rw [if_pos h.granted, h.issues.known]
  exact mem_singleton_self _

theorem Gives.reply {r : TokenRequest} (h : s.Gives r t) :
    s.reply r = some (encodeToken t.secret) :=
  (if_pos h.granted).trans h.issues.text

/-- The runtime keeps the tokens or drops them all. -/
theorem tokens_runtime (s : VoiceMedia) (e : DaemonEvent) :
    (s.runtime e).browser.tokens = s.browser.tokens ∨ (s.runtime e).browser.tokens = .empty := by
  have hreleased := (silent_releaseRuntime s s.daemon).tokens
  unfold runtime
  split
  · split_ifs
    · exact .inl rfl
    · exact .inl rfl
    · exact .inr hreleased
  · exact .inr hreleased
  · exact .inl rfl

/-- Tokens stay distinct if the random bytes are new. -/
theorem distinct_issue (h : s.browser.tokens.Distinct) (r : TokenRequest)
    (hfresh : ∀ t, some t ∈ s.browser.tokens → t.secret ∉ s.drawn (.issue r)) :
    (s.issue r).browser.tokens.Distinct := by
  have hsync := subsides_mediaSync s r.listens s.call
  have hdistinct := h.of_kept hsync.tokens
  unfold issue
  dsimp only [drawn] at hfresh ⊢
  split_ifs at * with hgrants
  · refine distinct_issueToken hdistinct fun t ht hsecret => ?_
    rw [hsecret] at hfresh
    exact hfresh t (hsync.mem_tokens ht) (mem_singleton_self _)
  · exact hdistinct

/-- Fresh secrets keep the slots apart. -/
theorem distinct_step (h : s.browser.tokens.Distinct) (event : MediaEvent)
    (hfresh : ∀ t, some t ∈ s.browser.tokens → t.secret ∉ s.drawn event) :
    (s.step event).browser.tokens.Distinct := by
  cases hevent : event.connects with
  | true =>
    have hquiet := quiet_step (s := s) hevent
    exact fun i j t t' hi hj => h i j t t' (hquiet.tokens i t hi) (hquiet.tokens j t' hj)
  | false =>
    cases event with
    | daemon e listens =>
      exact (h.of_kept (tokens_runtime s e)).of_kept (subsides_announce listens _ _).tokens
    | sync listens => exact h.of_kept (subsides_mediaSync s listens s.call).tokens
    | issue r => exact distinct_issue h r hfresh
    | _ => cases hevent

/-- A secret that was presented is in no slot any more. -/
theorem not_presents_of_mem (h : s.browser.tokens.Distinct) {event : MediaEvent}
    (ht : some t ∈ (s.step event).browser.tokens) : ¬ s.Presents t.secret event := by
  cases event with
  | filter client a =>
    rintro ⟨hvacant, hdecode⟩
    dsimp only [step, filter] at ht
    rw [if_pos hvacant] at ht
    exact not_mem_consume h hdecode ht
  | _ => exact id

/-! ## Runs -/

/-- The token has come from the request, and since then the call carries media and nobody has
presented the secret. -/
structure Unspent (t : Token) (before : List MediaEvent) (r : TokenRequest) (after : List MediaEvent) :
    Prop where
  gives : (run step initial before).Gives r t
  sameCall : Along step Carries (run step initial before) (.issue r :: after)
  unspent : Along step (fun s event => ¬ s.Presents t.secret event) (run step initial before)
    (.issue r :: after)

/-- Where the tokens in the slots have come from. -/
structure Accounted (events : List MediaEvent) : Prop where
  distinct : (run step initial events).browser.tokens.Distinct
  source : ∀ t, some t ∈ (run step initial events).browser.tokens →
    ∃ before r after, events = before ++ .issue r :: after ∧ Unspent t before r after

theorem Accounted.mem_emitted {events : List MediaEvent} (h : Accounted events)
    (ht : some t ∈ (run step initial events).browser.tokens) :
    t.secret ∈ emitted step drawn initial events := by
  obtain ⟨before, r, after, rfl, hunspent⟩ := h.source t ht
  rw [emitted_append]
  exact mem_append_right _ (mem_append_left _ hunspent.gives.mem_drawn)

/-- **Every token in a slot is accounted for**, if no secret is drawn twice. -/
theorem accounted (events : List MediaEvent) (hfresh : (emitted step drawn initial events).Nodup) :
    Accounted events := by
  induction events using reverseRecOn with
  | nil => exact ⟨distinct_empty, fun t ht => absurd ht not_mem_empty⟩
  | append_singleton events event ih =>
    rw [emitted_append, nodup_append] at hfresh
    obtain ⟨hbefore, -, hnew⟩ := hfresh
    -- the run grows at its end, since a token is traced back to an event before
    have hs := ih hbefore
    have halive : (run step initial events).Alive :=
      run_invariant_of_step alive_initial fun _ event h => alive_step h event
    have hrun : run step initial (events ++ [event]) = (run step initial events).step event :=
      run_append events [event]
    refine ⟨?_, fun t ht => ?_⟩
    · rw [hrun]
      refine distinct_step hs.distinct event fun t ht hdrawn => ?_
      exact hnew _ (hs.mem_emitted ht) _ (mem_append_left _ hdrawn) rfl
    · rw [hrun] at ht
      obtain ⟨hsource, -, hcarries⟩ := mem_step halive event ht
      have hpresents := not_presents_of_mem hs.distinct ht
      obtain hold | ⟨r, rfl, hgives⟩ := hsource
      · obtain ⟨before, r, after, rfl, hunspent⟩ := hs.source t hold
        -- the run since the request is longer by this event
        rw [run_append] at hcarries hpresents
        refine ⟨before, r, after ++ [event], by simp, hunspent.gives, ?_, ?_⟩
        · exact (along_append (.issue r :: after) [event]).mpr
            ⟨hunspent.sameCall, hcarries, trivial⟩
        · exact (along_append (.issue r :: after) [event]).mpr
            ⟨hunspent.unspent, hpresents, trivial⟩
      · exact ⟨events, r, [], rfl, hgives, ⟨hcarries, trivial⟩, id, trivial⟩

/-- The attempt presents what the request has got: the secret, for the same session and origin, and
in time.  Between them the call carries media, and nobody presents the secret. -/
structure Redeems (before : List MediaEvent) (r : TokenRequest) (after : List MediaEvent)
    (secret : Bytes) (a : Slots.Attempt) : Prop where
  issued : (run step initial before).reply r = some (encodeToken secret)
  drawn : r.secret = some secret
  presented : decodeToken a.token = some secret
  sessionId : a.sessionId = r.sessionId
  origin : a.origin = r.origin
  unexpired : a.now < r.now + 30
  sameCall : Along step Carries (run step initial before) (.issue r :: after)
  unspent : Along step (fun s event => ¬ s.Presents secret event) (run step initial before)
    (.issue r :: after)

/-- **A token is accepted only for the request that has got it, in the same call and for the first
time**, if no secret is drawn twice. -/
theorem redeems_of_accepts (events : List MediaEvent) (a : Slots.Attempt)
    (hfresh : (emitted step drawn initial events).Nodup)
    (haccepts : (run step initial events).accepts a = true) :
    ∃ before r after secret, events = before ++ .issue r :: after ∧
      Redeems before r after secret a := by
  obtain ⟨-, haccepted⟩ := Bool.and_eq_true_iff.mp haccepts
  obtain ⟨t, ht, hdecode, hexpires, -, hsession, horigin⟩ := consume_accepted haccepted
  -- the token in the slot comes from one request, and was not used since
  obtain ⟨before, r, after, hevents, hunspent⟩ := (accounted events hfresh).source t ht
  have htoken := hunspent.gives.issues.token
  refine ⟨before, r, after, t.secret, hevents, hunspent.gives.reply, hunspent.gives.issues.known,
    hdecode, ?_, ?_, ?_, hunspent.sameCall, hunspent.unspent⟩
  · rw [hsession, htoken]
    rfl
  · rw [horigin, htoken]
    rfl
  · rw [htoken] at hexpires
    exact hexpires

/-- A browser makes a call, gets a token, and presents it. -/
theorem redeems_browserAttempt : ∃ before r after secret,
    browserCall ++ [.issue browserToken] = before ++ .issue r :: after ∧
      Redeems before r after secret browserAttempt :=
  redeems_of_accepts (browserCall ++ [.issue browserToken]) browserAttempt (by decide +kernel)
    (by decide +kernel)

end VoiceMedia

end QModem.Voip
