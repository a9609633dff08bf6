import QModem.Lib.Run
import QModem.Voip.CallState

/-!
# What Operations Do to a Call

The call as its users see it: the state, who takes part, when it began, and the records of the calls
before it.  Left out is how the daemon learns of it: the port, the numbers of the lines, and the
list of calls that is asked for.

Every operation does one thing to this call, its `Act`, and announces it.  A line that is behind a
gap makes the daemon recover before that.

## Main results

- `Context.operate_phone`: an operation performs its act and announces it
- `Context.before_phone`: what a gap before a line does
-/

namespace QModem.Voip

open Lib Call
open At (Text)

/-! ## Acts -/

/-- What an operation does to a call. -/
inductive Act where
  | rest
  | touch
  | enable
  | disable
  | dial (origin : Endpoint) (number : Text)
  | answer (endpoint : Endpoint)
  | hangUp
  | recover
  | fail
  | restart
  /-- A line names the caller. -/
  | name (line : Text)
  | ring
  /-- A record of the list of calls is believed. -/
  | report (line : Text) (r : Clcc)
  | clear

namespace Call

/-- The call without the port and without what is outstanding there. -/
def bare (c : Call) : Call :=
  { c with
    atPort := []
    restartEpoch := 0
    sequence := 0
    dropCount := 0
    reconcileCommandId := 0
    reconcilePending := false
    reconcileSawData := false
    reconcileVoiceMisses := 0
    idlePoll := false }

variable (env : Surroundings) (c : Call)

/-- The caller as a record names it. -/
def named (line : Text) (r : Clcc) : Call :=
  if (r.status = 4 || r.status = 5) && !r.emptyNumber then c.clipNumber line else c

/-- The call takes the state of a record, unless it is being hung up. -/
def moved (r : Clcc) : Call :=
  if c.state = .terminating then c.touch
  else if (c.reported env r.status).state ≠ c.state then (c.reported env r.status).touch
  else c.reported env r.status

def ringing : Call :=
  { c with
    origin := .cellular
    endpoint := .cellular
    state := .incomingRinging
    answerOwner := .none
    activeSinceMsec := 0
    wasActive := false }.beginCall env

def dialed (origin : Endpoint) (number : Text) : Call :=
  { c with
    origin
    endpoint := .cellular
    number
    callerIdWithheld := false
    activeSinceMsec := 0
    startedAt := env.time
    wasActive := false
    answerOwner := .none
    state := .outgoingSetup }

def act : Act → Call
  | .rest => c
  | .touch => c.touch
  | .enable => c.setEnabled env true
  | .disable => c.setEnabled env false
  | .dial origin number => (c.dialed env origin number).touch
  | .answer endpoint => ({ c with answerOwner := endpoint }.markActive env).touch
  | .hangUp => { c with state := .terminating }.touch
  | .recover => { c with state := .recovering }.touch
  | .fail => { c with state := .fault }.touch
  | .restart => { c.setEnabled env true with state := .recovering }.touch
  | .name line => (c.clipNumber line).touch
  | .ring => (if c.state = .idle then c.ringing env else c).touch
  | .report line r => ((c.beginIncoming env r).named line r).moved env r
  | .clear => c.clear env

/-! ## The act of an operation -/

/-- What `OK` at the end of the list of calls means. -/
def okAct : Act :=
  if c.idlePoll && c.state = .idle then .rest
  else if c.missed.state.live && c.missed.reconcileVoiceMisses < 2 then .touch
  else .clear

/-- A record is believed, quarantined or ignored. -/
def recordAct (l : Line) (r : Clcc) : Act :=
  if c.believes l r then .report l.raw r
  else if r.mode ≠ 1 && c.reconcilePending && l.correlated then .touch
  else .rest

def clccAct (l : Line) : Act :=
  match clccStatus l.raw with
  | none => .rest
  | some r => c.recordAct l r

/-- What a line means that is taken. -/
def handleAct (l : Line) : Act :=
  if hasPrefix (ascii "+CLIP:") l.raw then .name l.raw
  else if c.endsReconcile l &&
      (hasPrefix (ascii "ERROR") l.raw || hasPrefix (ascii "+CME ERROR") l.raw) then .rest
  else if c.endsReconcile l && l.raw = ascii "OK" then c.okAct
  else if hasPrefix (ascii "+CLCC:") l.raw then c.clccAct l
  else if hasPrefix (ascii "RING") l.raw then .ring
  else if Context.isRelease l.raw then .clear
  else .rest

def originateAct (origin : Endpoint) (number : Text) : Act :=
  if !c.enabled || !origin.isSource || !validNumber number then .rest
  else if c.state ≠ .idle then .rest
  else .dial origin number

def answerAct (endpoint : Endpoint) : Act :=
  if !c.enabled || !endpoint.isSource then .rest
  else if c.answerOwner ≠ .none then .rest
  else if c.state ≠ .incomingRinging && c.state ≠ .earlyMedia then .rest
  else .answer endpoint

def terminateAct (endpoint : Endpoint) : Act :=
  if !c.enabled || !endpoint.isSource then .rest
  else if c.state = .idle || c.state = .disabled then .rest
  else if c.state = .terminating then .rest
  else .hangUp

/-- What an operation does, after what a gap before the line does. -/
def actOf : Operation → Act
  | .setEnabled enabled => if enabled then .enable else .disable
  | .originate origin number => c.originateAct origin number
  | .answer endpoint => c.answerAct endpoint
  | .reject endpoint =>
    if c.state = .incomingRinging || c.state = .earlyMedia then c.terminateAct endpoint else .rest
  | .hangup endpoint => c.terminateAct endpoint
  | .startRecovery => if !c.enabled then .rest else .recover
  | .line l => if c.takes l then (c.gapped l).handleAct l else .rest
  | .fault => .fail
  | .reenumerate => .restart
  | .selectAtPort _ | .sendDtmf _ _ | .pollActive | .pollIdle | .abandonPoll | .abandonIdlePoll =>
    .rest

end Call

/-! ## Announcements -/

/-- The call and the records of the calls that have ended. -/
structure Phone where
  call : Call
  history : List CompletedCall

/-- What follows an act: the revision is raised, or an event is published, with which the record of
the last call may go to the history. -/
inductive Note where
  | touch
  | publish (appends : Bool)

namespace Phone

variable (env : Surroundings) (p : Phone)

def act (a : Act) : Phone := { p with call := p.call.act env a }

def note : Note → Phone
  | .touch => { p with call := p.call.touch }
  | .publish appends =>
    match p.call.completed with
    | none => p
    | some record =>
      if appends then ⟨{ p.call with completed := none }, p.history ++ [record]⟩ else p

/-- The records of all calls, of which the last one may be waiting. -/
def records : List CompletedCall := p.history ++ p.call.completed.toList

end Phone

namespace Call

variable {env : Surroundings} {c : Call} {l : Line}

/-! ## The bare call -/

theorem bare_resolve : (c.resolve env).bare = c.bare := by
  obtain h | ⟨port, -, -, h⟩ := resolve_cases env c <;> rw [h]
  rfl

theorem bare_correlate : (c.correlate l).bare = c.bare := by
  unfold correlate
  split <;> rfl

theorem bare_complete : (c.complete env).bare = c.bare.complete env := by
  unfold complete
  split <;> rename_i h
  · exact (if_pos h).symm
  · exact (if_neg h).symm

theorem bare_clear : (c.clear env).bare = c.bare.clear env := by
  unfold clear
  rw [← bare_complete]
  rfl

theorem bare_setEnabled (enabled : Bool) :
    (c.setEnabled env enabled).bare = c.bare.setEnabled env enabled := by
  unfold setEnabled
  rw [← bare_complete]
  split <;> rfl

theorem bare_beginCall : (c.beginCall env).bare = c.bare.beginCall env := by
  unfold beginCall
  split <;> rename_i h
  · exact (if_pos h).symm
  · exact (if_neg h).symm

theorem bare_markActive : (c.markActive env).bare = c.bare.markActive env := by
  unfold markActive
  split <;> rename_i h
  · rw [if_pos (show c.bare.activeSinceMsec = 0 from h)]
    exact congrArg (fun c' : Call => { c' with wasActive := true, state := .active }) bare_beginCall
  · rw [if_neg (show ¬ c.bare.activeSinceMsec = 0 from h)]
    exact congrArg (fun c' : Call => { c' with wasActive := true, state := .active }) bare_beginCall

theorem bare_beginIncoming (r : Clcc) :
    (c.beginIncoming env r).bare = c.bare.beginIncoming env r := by
  unfold beginIncoming
  split <;> rename_i h
  · exact bare_beginCall.trans (if_pos h).symm
  · exact (if_neg h).symm

theorem bare_clipNumber (line : Text) : (c.clipNumber line).bare = c.bare.clipNumber line := by
  unfold clipNumber
  split
  · rfl
  · split_ifs <;> rfl

theorem bare_named (line : Text) (r : Clcc) : (c.named line r).bare = c.bare.named line r := by
  unfold named
  split
  · exact bare_clipNumber line
  · rfl

theorem bare_reported (status : ℤ) : (c.reported env status).bare = c.bare.reported env status := by
  unfold reported
  split_ifs <;> first | rfl | exact bare_markActive | contradiction

/-- What is left out of the bare call does not matter for a report. -/
theorem bare_moved (r : Clcc) : (c.moved env r).bare = c.bare.moved env r := by
  have hstate : (c.bare.reported env r.status).state = (c.reported env r.status).state := by
    rw [← bare_reported]
    rfl
  unfold moved
  rw [hstate, ← bare_reported]
  split
  · rename_i h
    exact (if_pos h).symm
  · rename_i h
    rw [if_neg (show ¬ c.bare.state = .terminating from h)]
    show (if _ then _ else _ : Call).bare = if _ ≠ c.state then _ else _
    split <;> rfl

theorem bare_ringing : (c.ringing env).bare = c.bare.ringing env := bare_beginCall

/-- Acts do not look at what the bare call leaves out. -/
theorem bare_act (a : Act) : (c.act env a).bare = c.bare.act env a := by
  -- no act looks at what is left out
  cases a with
  | rest => rfl
  | touch => rfl
  | enable => exact bare_setEnabled true
  | disable => exact bare_setEnabled false
  | dial origin number => rfl
  | answer endpoint => exact congrArg touch bare_markActive
  | hangUp => rfl
  | recover => rfl
  | fail => rfl
  | restart =>
    exact congrArg (fun c' : Call => { c' with state := .recovering }.touch) (bare_setEnabled true)
  | name line => exact congrArg touch (bare_clipNumber line)
  | ring =>
    refine congrArg touch (?_ : (if c.state = .idle then c.ringing env else c).bare =
      if c.state = .idle then c.bare.ringing env else c.bare)
    split
    · exact bare_ringing
    · rfl
  | report line r =>
    show (((c.beginIncoming env r).named line r).moved env r).bare =
      ((c.bare.beginIncoming env r).named line r).moved env r
    rw [bare_moved, bare_named, bare_beginIncoming]
  | clear => exact bare_clear

end Call

namespace Context

variable {env : Surroundings} {x : Context} {l : Line}

/-! ## Operations perform their acts -/

def phone (x : Context) : Phone := ⟨x.call.bare, x.history⟩

/-- The daemon when a line is handled: a gap before the line has had its effect. -/
def before (env : Surroundings) (x : Context) : Operation → Context
  | .line l =>
    if x.call.takes l then ({ x with commandFailed := false }.checkGap env l).accept l else x
  | _ => x

/-- A command leaves the call as its users see it. -/
@[simp] theorem issueAt_phone (command : AtCommand) : (x.issueAt env command).phone = x.phone := by
  have hhistory : (x.issueAt env command).history = x.history := by
    unfold issueAt runAt
    cases env.resolved.bind x.call.selectAtPort with
    | none => rfl
    | some call =>
      dsimp only
      split <;> rfl
  unfold phone
  rw [issueAt_call, bare_resolve, hhistory]

@[simp] theorem issueIdleAt_phone (command : AtCommand) :
    (x.issueIdleAt env command).phone = x.phone := by
  unfold issueIdleAt
  split_ifs
  · rfl
  · rfl
  · exact issueAt_phone command

variable (env x)

theorem publishEvent_phone (event : CallEvent) :
    ∃ appends, (x.publishEvent env event).phone = x.phone.note (.publish appends) := by
  refine ⟨env.appends (x.outputs ++ [Output.event event]).length, ?_⟩
  cases hcompleted : x.call.completed with
  | none => simp only [publishEvent, Phone.note, phone, bare, hcompleted]
  | some record =>
    simp only [publishEvent, Phone.note, phone, bare, hcompleted]
    split <;> simp only [hcompleted]

/-- An event is announced with a new revision. -/
theorem notify_phone (event : CallEvent) :
    ∃ appends, (x.notify env event).phone = (x.phone.note .touch).note (.publish appends) :=
  publishEvent_phone env (x.withCall x.call.touch) event

theorem notify_phone_run (event : CallEvent) :
    ∃ notes, (x.notify env event).phone = run Phone.note x.phone notes := by
  obtain ⟨appends, h⟩ := notify_phone env x event
  exact ⟨[.touch, .publish appends], h⟩

variable {env x}

theorem phone_act (a : Act) : x.phone.act env a = (x.withCall (x.call.act env a)).phone :=
  congrArg (Phone.mk · x.history) (bare_act a).symm

variable (env x)

/-- A report is the act, with announcements behind it. -/
theorem report_phone (l : Line) (r : Clcc) :
    ∃ notes, (x.report env l r).phone =
      run Phone.note (x.phone.act env (.report l.raw r)) notes := by
  rw [phone_act]
  unfold report
  extract_lets call₁ call₂ call₃ before call₄ y₁ y₂
  show ∃ notes, _ = run Phone.note (x.withCall (call₂.moved env r)).phone notes
  by_cases hterminating : call₂.state = .terminating
  · obtain ⟨appends, h⟩ :=
      notify_phone env ((x.withCall call₃).issueAt env .hangUp) .releasePending
    refine ⟨[.publish appends], ?_⟩
    rw [if_pos hterminating, moved, if_pos hterminating, h, issueAt_phone]
    rfl
  · have hreported : (call₄.reported env r.status).bare = (call₂.reported env r.status).bare := by
      rw [bare_reported, bare_reported]
      rfl
    have hstate : y₁.call.state = (call₂.reported env r.status).state := by
      show (call₄.reported env r.status).bare.state = (call₂.reported env r.status).bare.state
      rw [hreported]
    have hphone : y₁.phone = (x.withCall (call₂.reported env r.status)).phone :=
      congrArg (Phone.mk · x.history) hreported
    -- the change of state is announced first, then the ringing
    obtain ⟨notes, hnotes⟩ : ∃ notes,
        y₂.phone = run Phone.note (x.withCall (call₂.moved env r)).phone notes := by
      unfold y₂
      rw [hstate, moved, if_neg hterminating]
      split
      · obtain ⟨appends, h⟩ := notify_phone env y₁ .callState
        refine ⟨[.publish appends], ?_⟩
        rw [h, hphone]
        rfl
      · exact ⟨[], hphone⟩
    rw [if_neg hterminating]
    split
    · obtain ⟨more, h⟩ := notify_phone_run env y₂ .ring
      exact ⟨notes ++ more, by rw [h, hnotes, run_append]⟩
    · exact ⟨notes, hnotes⟩

/-- A record of the list is believed and reported, or it does nothing. -/
theorem record_phone (l : Line) (r : Clcc) :
    ∃ notes, (x.record env l r).phone =
      run Phone.note (x.phone.act env (x.call.recordAct l r)) notes := by
  have hcorrelate : (x.withCall (x.call.correlate l)).phone = x.phone :=
    congrArg (Phone.mk · x.history) bare_correlate
  have hquarantines : (x.withCall (x.call.correlate l)).call.reconcileCommandId =
      (x.call.correlate l).reconcileCommandId := rfl
  unfold record
  dsimp only
  rw [hquarantines, correlate_quarantines]
  -- not voice, quarantined, believed, or from elsewhere while an answer is pending
  split_ifs with hmode hresponse hpending hcorrelated hphantom
  · have hact : x.call.recordAct l r = .rest := by
      simp [recordAct, believes, hmode]
    exact ⟨[], hact ▸ hcorrelate⟩
  · have hact : x.call.recordAct l r = .rest := by
      simp [recordAct, believes, hmode]
    exact ⟨[], hact ▸ rfl⟩
  · have hact : x.call.recordAct l r = .touch := by
      simp [recordAct, believes, hmode, hpending, hcorrelated, hphantom]
    obtain ⟨appends, h⟩ :=
      notify_phone env (x.withCall (x.call.correlate l)) .phantomClccQuarantined
    refine ⟨[.publish appends], ?_⟩
    rw [h, hcorrelate, hact]
    rfl
  · have hact : x.call.recordAct l r = .report l.raw r := by
      simp [recordAct, believes, hmode, hcorrelated, hphantom]
    rw [hact, ← hcorrelate]
    exact report_phone env _ l r
  · have hact : x.call.recordAct l r = .rest := by
      simp [recordAct, believes, hpending, hcorrelated]
    exact ⟨[], hact ▸ rfl⟩
  · have hact : x.call.recordAct l r = .report l.raw r := by
      simp [recordAct, believes, hmode, hpending]
    rw [hact]
    exact report_phone env x l r

/-- The end of the list clears a call that is missing from it, at the second time. -/
theorem reconcileOk_phone :
    ∃ notes, (x.reconcileOk env).phone = run Phone.note (x.phone.act env x.call.okAct) notes := by
  rw [phone_act]
  unfold reconcileOk okAct
  dsimp only
  split_ifs
  · exact ⟨[], rfl⟩
  · obtain ⟨appends, h⟩ := notify_phone env (x.withCall x.call.missed.settled) .reconcileInconclusive
    exact ⟨[.publish appends], h⟩
  -- the call is cleared, by an idle poll or by a second miss
  all_goals
    have hclear : (x.call.missed.clear env).settled.bare = (x.call.clear env).bare := by
      rw [bare_clear]
      exact bare_clear
    have hphone : (x.withCall (x.call.act env .clear)).phone =
        (x.withCall (x.call.missed.clear env).settled).phone :=
      congrArg (Phone.mk · x.history) hclear.symm
    rw [hphone]
    exact notify_phone_run env _ _

/-- A RING begins a call only in the idle state. -/
theorem ring_phone :
    ∃ notes, (x.ring env).phone = run Phone.note (x.phone.act env .ring) notes := by
  rw [phone_act]
  unfold ring
  obtain ⟨appends, h⟩ := notify_phone env
    (if x.call.state = .idle then x.withCall (x.call.ringing env) else x) .ring
  refine ⟨[.publish appends], h.trans ?_⟩
  -- with a call in hand it is announced only
  split <;> rename_i hidle
  · have hact : x.call.act env .ring = (x.call.ringing env).touch :=
      congrArg touch (if_pos hidle)
    rw [hact]
    rfl
  · have hact : x.call.act env .ring = x.call.touch := congrArg touch (if_neg hidle)
    rw [hact]
    rfl

/-- Handling a line performs its act. -/
theorem handle_phone (l : Line) :
    ∃ notes, (x.handle env l).phone =
      run Phone.note (x.phone.act env (x.call.handleAct l)) notes := by
  unfold handle handleAct
  -- in the order in which the source compares the line
  split_ifs
  · rw [phone_act]
    obtain ⟨appends, h⟩ := notify_phone env (x.withCall (x.call.clipNumber l.raw)) .callerId
    exact ⟨[.publish appends], h⟩
  · exact ⟨[], rfl⟩
  · exact reconcileOk_phone env x
  · unfold clcc clccAct
    cases clccStatus l.raw with
    | none => exact ⟨[], rfl⟩
    | some r => exact record_phone env x l r
  · exact ring_phone env x
  · rw [phone_act]
    exact notify_phone_run env _ _
  · exact ⟨[], rfl⟩

/-- A gap sends a command and is announced; the rest of it is in `gapped`. -/
theorem checkGap_call (l : Line) :
    ∃ port epoch sequence drops revision completed, (x.checkGap env l).call =
      { x.call.gapped l with
        atPort := port
        restartEpoch := epoch
        sequence := sequence
        dropCount := drops
        revision := revision
        completed := completed } := by
  unfold checkGap gapped
  split
  · -- after a gap the list of calls is asked for, which may select another port
    obtain ⟨completed, h⟩ :=
      notify_call env ((x.withCall x.call.recover).issueAt env .listCalls) .eventGap
    rw [h, issueAt_call]
    obtain hresolve | ⟨port, -, -, hresolve⟩ := resolve_cases env (x.withCall x.call.recover).call
    · rw [hresolve]
      exact ⟨_, _, _, _, _, _, rfl⟩
    · rw [hresolve]
      exact ⟨_, _, _, _, _, _, rfl⟩
  · exact ⟨_, _, _, _, _, _, rfl⟩

/-- What a gap before a line does. -/
theorem before_phone (operation : Operation) :
    (x.before env operation).phone = x.phone ∨
      ∃ appends, (x.before env operation).phone =
        (x.phone.act env .recover).note (.publish appends) := by
  cases operation with
  | line l =>
    dsimp only [before, checkGap]
    -- only a line can come with a gap
    split_ifs
    · let y : Context := { x with commandFailed := false }
      obtain ⟨appends, h⟩ :=
        notify_phone env ((y.withCall x.call.recover).issueAt env .listCalls) .eventGap
      rw [issueAt_phone] at h
      exact .inr ⟨appends, h⟩
    · exact .inl rfl
    · exact .inl rfl
  | _ => exact .inl rfl

theorem originate_phone (origin : Endpoint) (number : Text) :
    (x.originate env origin number).1.phone =
      x.phone.act env (x.call.originateAct origin number) := by
  unfold originate originateAct
  split_ifs
  · rfl
  · rfl
  · exact issueAt_phone _

theorem answer_phone (endpoint : Endpoint) :
    (x.answer env endpoint).1.phone = x.phone.act env (x.call.answerAct endpoint) := by
  unfold answer answerAct
  split_ifs
  · rfl
  · rfl
  · rfl
  · rw [phone_act]
    exact issueAt_phone _

theorem terminate_phone (endpoint : Endpoint) :
    (x.terminate env endpoint).1.phone = x.phone.act env (x.call.terminateAct endpoint) := by
  unfold terminate terminateAct
  split_ifs
  · rfl
  · rfl
  · rfl
  · exact issueAt_phone _

theorem reject_phone (endpoint : Endpoint) :
    (x.reject env endpoint).1.phone = x.phone.act env (x.call.actOf (.reject endpoint)) := by
  unfold reject
  dsimp only [actOf]
  split
  · exact terminate_phone env x endpoint
  · rfl

/-- A line is checked for a gap first and then handled. -/
theorem line_phone (l : Line) :
    ∃ notes, (x.operate env (.line l)).1.phone = run Phone.note
      ((x.before env (.line l)).phone.act env (x.call.actOf (.line l))) notes := by
  let y : Context := { x with commandFailed := false }
  dsimp only [operate, before, actOf]
  cases htaken : x.call.takes l with
  | false =>
    refine ⟨[], ?_⟩
    rw [line_of_not_taken (x := y) htaken]
    rfl
  | true =>
    obtain ⟨_, _, _, _, _, _, hcall⟩ := checkGap_call env y l
    -- the line is handled by the call that the gap check has left
    have hact : (x.call.gapped l).handleAct l = ((y.checkGap env l).accept l).call.handleAct l := by
      dsimp only [accept, withCall]
      rw [hcall]
      rfl
    rw [if_pos rfl, if_pos rfl, hact, line_of_taken (x := y) htaken]
    exact handle_phone env ((y.checkGap env l).accept l) l

theorem sendDtmf_phone (endpoint : Endpoint) (digit : UInt8) :
    (x.sendDtmf env endpoint digit).1.phone = x.phone := by
  unfold sendDtmf
  split_ifs
  all_goals first | rfl | exact issueAt_phone _

theorem startRecovery_phone :
    (x.startRecovery env).1.phone = x.phone.act env (x.call.actOf .startRecovery) := by
  unfold startRecovery
  dsimp only [actOf]
  split
  · rfl
  · exact issueAt_phone _

theorem pollActive_phone : (x.pollActive env).1.phone = x.phone := by
  unfold pollActive
  split
  · rfl
  · exact issueAt_phone _

theorem pollIdle_phone : (x.pollIdle env).1.phone = x.phone := by
  unfold pollIdle
  split
  · rfl
  · exact issueIdleAt_phone _

theorem selectAtPort_phone (port : Text) :
    (x.operate env (.selectAtPort port)).1.phone = x.phone := by
  simp only [operate, selectAtPort]
  split_ifs <;> rfl

/-- **An operation performs its act and announces it.** -/
theorem operate_phone (operation : Operation) :
    ∃ notes, (x.operate env operation).1.phone = run Phone.note
      ((x.before env operation).phone.act env (x.call.actOf operation)) notes := by
  -- clearing the flag leaves the call as it is
  let y : Context := { x with commandFailed := false }
  cases operation with
  | setEnabled enabled =>
    cases enabled with
    | false => exact ⟨[], (phone_act (x := y) .disable).symm⟩
    | true => exact ⟨[], (phone_act (x := y) .enable).symm⟩
  | selectAtPort port => exact ⟨[], selectAtPort_phone env x port⟩
  | originate origin number => exact ⟨[], originate_phone env y origin number⟩
  | answer endpoint => exact ⟨[], answer_phone env y endpoint⟩
  | reject endpoint => exact ⟨[], reject_phone env y endpoint⟩
  | hangup endpoint => exact ⟨[], terminate_phone env y endpoint⟩
  | sendDtmf endpoint digit => exact ⟨[], sendDtmf_phone env y endpoint digit⟩
  | startRecovery => exact ⟨[], startRecovery_phone env y⟩
  | pollActive => exact ⟨[], pollActive_phone env y⟩
  | pollIdle => exact ⟨[], pollIdle_phone env y⟩
  | line l => exact line_phone env x l
  | fault =>
    obtain ⟨appends, h⟩ := notify_phone env (y.withCall { y.call with state := .fault }) .fault
    exact ⟨[.publish appends], h⟩
  | reenumerate => exact ⟨[], (phone_act (x := y) .restart).symm⟩
  | abandonPoll => exact ⟨[], rfl⟩
  | abandonIdlePoll => exact ⟨[], rfl⟩

end Context

/-! ## What announcements leave unchanged -/

/-- The call with another revision and another record that waits. -/
def Call.announced (c : Call) (revision : ℕ) (completed : Option CompletedCall) : Call :=
  { c with revision, completed }

namespace Phone

/-- Announcements change the revision and where the last record is, and keep all records. -/
structure Announced (p q : Phone) : Prop where
  call : ∃ revision completed, q.call = p.call.announced revision completed
  revision : p.call.revision ≤ q.call.revision
  records : q.records = p.records

/-- A note changes no call. -/
theorem announced_note (p : Phone) (n : Note) : p.Announced (p.note n) := by
  cases n with
  | touch => exact ⟨⟨_, _, rfl⟩, Nat.le_succ _, rfl⟩
  | publish appends =>
    unfold note
    cases hcompleted : p.call.completed with
    | none => exact ⟨⟨_, _, rfl⟩, le_rfl, rfl⟩
    | some record =>
      dsimp only
      split
      · exact ⟨⟨_, _, rfl⟩, le_rfl, by simp [records, hcompleted]⟩
      · exact ⟨⟨_, _, rfl⟩, le_rfl, rfl⟩

theorem Announced.trans {p q r : Phone} (h : p.Announced q) (h' : q.Announced r) :
    p.Announced r := by
  obtain ⟨_, _, hcall⟩ := h.call
  obtain ⟨revision, completed, hcall'⟩ := h'.call
  refine ⟨⟨revision, completed, ?_⟩, h.revision.trans h'.revision, h'.records.trans h.records⟩
  rw [hcall', hcall]
  rfl

theorem announced_run (p : Phone) (notes : List Note) : p.Announced (run note p notes) := by
  induction notes generalizing p with
  | nil => exact ⟨⟨_, _, rfl⟩, le_rfl, rfl⟩
  | cons n notes ih => exact (announced_note p n).trans (ih (p.note n))

end Phone

namespace Context

variable {env : Surroundings} {x : Context}

variable (env x)

/-- An operation performs its act, and what it announces changes nothing else. -/
theorem announced_operate (operation : Operation) :
    ((x.before env operation).phone.act env (x.call.actOf operation)).Announced
      (x.operate env operation).1.phone := by
  obtain ⟨notes, h⟩ := operate_phone env x operation
  rw [h]
  exact Phone.announced_run _ notes

theorem announced_before (operation : Operation) :
    x.phone.Announced (x.before env operation).phone ∨
      (x.phone.act env .recover).Announced (x.before env operation).phone := by
  obtain h | ⟨appends, h⟩ := before_phone env x operation
  · rw [h]
    exact .inl (Phone.announced_run _ [])
  · rw [h]
    exact .inr (Phone.announced_note _ _)

/-- Before a line is handled, only the state may have changed, with a new revision. -/
theorem before_call (operation : Operation) :
    ∃ state revision completed,
      (x.before env operation).phone.call =
          { x.call.bare with state := state }.announced revision completed ∧
        (state = x.call.state ∨ state = .recovering) ∧ x.call.revision ≤ revision ∧
        (state ≠ x.call.state → x.call.revision < revision) ∧
        (x.before env operation).phone.records = x.phone.records := by
  -- no gap, or a recovery that was announced
  obtain h | h := announced_before env x operation
  · obtain ⟨revision, completed, hcall⟩ := h.call
    have hrevision := h.revision
    rw [hcall] at hrevision
    exact ⟨_, revision, completed, hcall, .inl rfl, hrevision, fun hne => absurd rfl hne, h.records⟩
  · obtain ⟨revision, completed, hcall⟩ := h.call
    have hrevision := h.revision
    rw [hcall] at hrevision
    exact ⟨_, revision, completed, hcall, .inr rfl, (Nat.le_succ _).trans hrevision,
      fun _ => Nat.lt_of_succ_le hrevision, h.records⟩

variable {env x}

/-- **Invariant rule**: what every act keeps, and what does not depend on the revision, on the
records and on what the bare call leaves out, is kept by every operation. -/
theorem operate_invariant {p : Call → Prop} (hbare : ∀ c : Call, p c.bare ↔ p c)
    (hannounced : ∀ (c : Call) revision completed, p c → p (c.announced revision completed))
    (hact : ∀ (c : Call) a, p c → p (c.act env a)) {operation : Operation} (h : p x.call) :
    p (x.operate env operation).1.call := by
  have hkept : ∀ {q r : Phone}, q.Announced r → p q.call → p r.call := by
    intro q r hqr hq
    obtain ⟨revision, completed, hcall⟩ := hqr.call
    exact hcall ▸ hannounced _ _ _ hq
  have hphone : p x.phone.call := (hbare _).mpr h
  have hbefore : p (x.before env operation).phone.call := by
    obtain hsame | hrecovers := announced_before env x operation
    · exact hkept hsame hphone
    · exact hkept hrecovers (hact _ .recover hphone)
  exact (hbare _).mp (hkept (announced_operate env x operation) (hact _ (x.call.actOf operation) hbefore))

end Context

/-! ## What a call keeps while it goes on -/

namespace Call

variable {env : Surroundings} {c c' c'' : Call}

variable (env c)

/-- A report begins an incoming call without touching its state. -/
theorem beginIncoming_eq (r : Clcc) :
    ∃ origin endpoint startedAt,
      c.beginIncoming env r = { c with origin, endpoint, startedAt } ∧
        (origin = c.origin ∨ origin = .cellular) ∧
        (c.startedAt ≠ 0 → origin = c.origin ∧ startedAt = c.startedAt) := by
  unfold beginIncoming beginCall
  split_ifs with hbegins hstart
  · exact ⟨_, _, _, rfl, .inr rfl, fun h => absurd hstart h⟩
  · simp only [Bool.and_eq_true, decide_eq_true_eq] at hbegins
    exact absurd hbegins.1.1 hstart
  · exact ⟨_, _, _, rfl, .inl rfl, fun _ => ⟨rfl, rfl⟩⟩

theorem clipNumber_eq (line : Text) :
    ∃ number callerIdWithheld, c.clipNumber line = { c with number, callerIdWithheld } := by
  unfold clipNumber
  split
  · exact ⟨_, _, rfl⟩
  · split_ifs <;> exact ⟨_, _, rfl⟩

theorem named_eq (line : Text) (r : Clcc) :
    ∃ number callerIdWithheld, c.named line r = { c with number, callerIdWithheld } := by
  unfold named
  split
  · exact clipNumber_eq c line
  · exact ⟨_, _, rfl⟩

/-- The status of a record sets the state, and a call that was ever active stays so. -/
theorem reported_eq (status : ℤ) :
    ∃ state activeSinceMsec startedAt wasActive,
      c.reported env status = { c with state, activeSinceMsec, startedAt, wasActive } ∧
        (c.startedAt ≠ 0 → startedAt = c.startedAt) ∧
        (wasActive = c.wasActive ∧ (state = .active → c.state = .active) ∨
          state = .active ∧ wasActive = true) := by
  unfold reported
  split_ifs
  · unfold markActive beginCall
    dsimp only
    -- active: the start is noted unless it is known
    split_ifs with hactive hstart hstart
    · exact ⟨_, _, _, _, rfl, fun h => absurd hstart h, .inr ⟨rfl, rfl⟩⟩
    · exact ⟨_, _, _, _, rfl, fun _ => rfl, .inr ⟨rfl, rfl⟩⟩
    · exact ⟨_, _, _, _, rfl, fun h => absurd hstart h, .inr ⟨rfl, rfl⟩⟩
    · exact ⟨_, _, _, _, rfl, fun _ => rfl, .inr ⟨rfl, rfl⟩⟩
  · exact ⟨_, _, _, _, rfl, fun _ => rfl, .inl ⟨rfl, nofun⟩⟩
  · exact ⟨_, _, _, _, rfl, fun _ => rfl, .inl ⟨rfl, nofun⟩⟩
  · exact ⟨_, _, _, _, rfl, fun _ => rfl, .inl ⟨rfl, nofun⟩⟩
  · exact ⟨_, _, _, _, rfl, fun _ => rfl, .inl ⟨rfl, id⟩⟩
  · exact ⟨_, _, _, _, rfl, fun _ => rfl, .inl ⟨rfl, id⟩⟩

/-- The call goes on, or begins: its start is kept once it was noted. -/
structure GoesOn (c c' : Call) : Prop where
  origin : c'.origin = c.origin ∨ c'.origin = .cellular
  start : c.startedAt ≠ 0 → c'.origin = c.origin ∧ c'.startedAt = c.startedAt
  wasActive : c'.wasActive = c.wasActive ∧ (c'.state = .active → c.state = .active) ∨
    c'.state = .active ∧ c'.wasActive = true

/-- The call goes on, and there is no record of it yet. -/
structure Continues (c c' : Call) : Prop extends c.GoesOn c' where
  completed : c'.completed = c.completed

theorem GoesOn.refl : c.GoesOn c :=
  ⟨.inl rfl, fun _ => ⟨rfl, rfl⟩, .inl ⟨rfl, id⟩⟩

variable {env c}

/-- One step after the other, if the first one does not connect the call. -/
theorem GoesOn.trans (h : c.GoesOn c') (hactive : c'.wasActive = c.wasActive)
    (hstate : c'.state = .active → c.state = .active) (h' : c'.GoesOn c'') : c.GoesOn c'' where
  origin := by
    obtain hsame | hcellular := h'.origin
    · exact hsame ▸ h.origin
    · exact .inr hcellular
  start hne := by
    obtain ⟨horigin, hstart⟩ := h.start hne
    obtain ⟨horigin', hstart'⟩ := h'.start (hstart ▸ hne)
    exact ⟨horigin'.trans horigin, hstart'.trans hstart⟩
  wasActive := by
    obtain ⟨hsame, hwas⟩ | hnow := h'.wasActive
    · exact .inl ⟨hsame.trans hactive, fun h => hstate (hwas h)⟩
    · exact .inr hnow

theorem Continues.refl (c : Call) : c.Continues c := ⟨.refl c, rfl⟩

theorem Continues.trans (h : c.Continues c') (hactive : c'.wasActive = c.wasActive)
    (hstate : c'.state = .active → c.state = .active) (h' : c'.Continues c'') : c.Continues c'' :=
  ⟨h.toGoesOn.trans hactive hstate h'.toGoesOn, h'.completed.trans h.completed⟩

variable (env c)

theorem continues_touch : c.Continues c.touch :=
  ⟨⟨.inl rfl, fun _ => ⟨rfl, rfl⟩, .inl ⟨rfl, id⟩⟩, rfl⟩

theorem continues_moved (r : Clcc) : c.Continues (c.moved env r) := by
  obtain ⟨_, _, _, _, hreported, hstart, hactive⟩ := reported_eq env c r.status
  unfold moved
  rw [hreported]
  split_ifs
  · exact continues_touch c
  · exact ⟨⟨.inl rfl, fun h => ⟨rfl, hstart h⟩, hactive⟩, rfl⟩
  · exact ⟨⟨.inl rfl, fun h => ⟨rfl, hstart h⟩, hactive⟩, rfl⟩

/-- A record that is believed lets the call go on. -/
theorem continues_report (line : Text) (r : Clcc) : c.Continues (c.act env (.report line r)) := by
  obtain ⟨_, _, _, hbegin, horigin, hstart⟩ := beginIncoming_eq env c r
  obtain ⟨_, _, hnamed⟩ := named_eq (c.beginIncoming env r) line r
  -- begin, name, move: only the last one can connect the call
  have hbegins : c.Continues (c.beginIncoming env r) := by
    rw [hbegin]
    exact ⟨⟨horigin, hstart, .inl ⟨rfl, id⟩⟩, rfl⟩
  have hnames : (c.beginIncoming env r).Continues ((c.beginIncoming env r).named line r) := by
    rw [hnamed]
    exact ⟨⟨.inl rfl, fun _ => ⟨rfl, rfl⟩, .inl ⟨rfl, id⟩⟩, rfl⟩
  apply hbegins.trans
  · rw [hbegin]
  · rw [hbegin]
    exact id
  · apply hnames.trans
    · rw [hnamed]
    · rw [hnamed]
      exact id
    · exact continues_moved env _ r

end Call

end QModem.Voip
