import QModem.Lib.Run
import QModem.Sip.Credentials

/-!
# Messages to SIP

`send_message` of `sip_consumer.c`: a short message goes to the SIP side as a MESSAGE request, and
the request on the bus is answered later, with the final response or after 30 seconds.  There is
room for one request.  PJSIP calls `message_response` for every transaction, and does not say for
which one.

`Outbox` is `pending_message` together with what was sent and answered: every deferred request has a
number, every transaction belongs to one of them, and every answer has its cause.  Time passes in
milliseconds, and a timer fires as soon as it is due.  Left out are the URIs and headers of the
MESSAGE request.

## Main results

- `Outbox.accounted_step`: every deferred request is answered once, or is the one that waits
- `Outbox.timed_step`: no request waits for more than 30 seconds
- `Outbox.matched_iff`: the runs in which every answer is that of its own message
-/

namespace QModem.Sip

open Lib List

/-! ## Answers -/

/-- The `status` of an answer -/
inductive Outcome where
  | success
  | error
  deriving DecidableEq

/-- Why a deferred request is answered. -/
inductive Cause where
  /-- A transaction of the message has ended with the status. -/
  | response (message status : ℕ)
  /-- A transaction of the message wants authentication, and this failed. -/
  | unauthenticated (message : ℕ)
  /-- The timer has fired when the request had waited for so long. -/
  | timeout (waited : ℕ)
  | unsent
  deriving DecidableEq

structure Answer where
  request : ℕ
  outcome : Outcome
  sipStatus : ℕ
  error : Option Text
  cause : Cause
  deriving DecidableEq

/-- `UBUS_ACTION_TIMEOUT_MS` -/
def ubusActionTimeoutMs : ℕ := 30000

/-- What the sender is told of a final status. -/
def Outcome.ofStatus (status : ℕ) : Outcome := if status < 300 then .success else .error

/-- The answer tells the final response to a transaction of its own message, or its timeout. -/
def Answer.Own (a : Answer) : Prop :=
  match a.cause with
  | .response message status =>
    message = a.request ∧ 200 ≤ status ∧ a.sipStatus = status ∧ a.outcome = .ofStatus status
  | .timeout waited => ubusActionTimeoutMs ≤ waited ∧ a.sipStatus = 408 ∧ a.outcome = .error
  | .unauthenticated _ | .unsent => False

/-- `pending_message`, with the clock and the time since which the request waits, the messages of
the transactions that were started, the answers that were given and the number of the requests that
were deferred. -/
structure Outbox where
  outbound : Bool
  active : Option ℕ
  authRetried : Bool
  /-- When the timer fires, if it is set. -/
  timer : Option ℕ
  clock : ℕ
  since : ℕ
  transactions : List ℕ
  answers : List Answer
  deferred : ℕ

namespace Outbox

variable (s : Outbox)

/-- The gateway starts. -/
def start (outbound : Bool) : Outbox := ⟨outbound, none, false, none, 0, 0, [], [], 0⟩

/-- `complete_message` -/
def completeMessage (outcome : Outcome) (sipStatus : ℕ) (error : Option Text) (cause : Cause) :
    Outbox :=
  match s.active with
  | none => s
  | some request =>
    { s with
      active := none
      authRetried := false
      timer := none
      answers := s.answers ++ [⟨request, outcome, sipStatus, error, cause⟩] }

/-! ## Requests -/

/-- The arguments of `send_message` that it checks. -/
structure Arguments where
  recipient : Option Text
  content : Option Text
  messageId : Option Text

/-- What `send_message` meets: whether there is a binding, whether the target is a URI, and whether
PJSIP makes the request and sends it. -/
structure Sending where
  bound : Bool
  parsed : Bool
  created : Bool
  sent : Bool

/-- A `UBUS_STATUS` -/
inductive UbusStatus where
  | ok
  | invalidArgument
  | notFound
  | unknownError
  deriving DecidableEq

/-- The request of the caller is deferred, and has to wait. -/
def await : Outbox :=
  { s with
    active := some s.deferred
    authRetried := false
    timer := some (s.clock + ubusActionTimeoutMs)
    since := s.clock
    deferred := s.deferred + 1 }

/-- The last part of `send_message_method`: the request waits before its message is sent. -/
def deferRequest (sent : Bool) : Outbox :=
  if sent then { s.await with transactions := s.transactions ++ [s.deferred] }
  else s.await.completeMessage .error 503 (ascii "SIP MESSAGE could not be sent") .unsent

/-- `send_message_method` -/
def sendMessageMethod (env : Sending) (arguments : Arguments) : Outbox × UbusStatus :=
  match arguments.recipient, arguments.content, arguments.messageId with
  | some recipient, some content, some _ =>
    if s.active.isSome then (s, .invalidArgument)
    else if content = [] || 2048 < content.length || 384 ≤ recipient.length then
      (s, .invalidArgument)
    else if !env.bound then (s, .notFound)
    else if !env.parsed then (s, .invalidArgument)
    else if !env.created then (s, .unknownError)
    else (s.deferRequest env.sent, .ok)
  | _, _, _ => (s, .invalidArgument)

/-- `message_timeout` -/
def messageTimeout : Outbox :=
  s.completeMessage .error 408 (ascii "SIP MESSAGE timed out") (.timeout (s.clock - s.since))

/-- Time passes, and the timer fires if it is due. -/
def elapse (ms : ℕ) : Outbox :=
  let s : Outbox := { s with clock := s.clock + ms }
  if s.timer.any (· ≤ s.clock) then { s with timer := none }.messageTimeout else s

/-! ## Responses -/

/-- An event of a transaction: its status, whether a response has brought it, and whether PJSIP
makes and sends the request with authentication. -/
structure Event where
  status : ℕ
  received : Bool
  reinitialized : Bool
  sent : Bool

/-- The response wants authentication, which is tried once. -/
def retries (event : Event) : Bool :=
  s.outbound && !s.authRetried && event.received && (event.status = 401 || event.status = 407)

/-- `message_response` for a transaction of the message -/
def messageResponse (message : ℕ) (event : Event) : Outbox :=
  if event.status < 200 then s
  else if s.retries event then
    let s : Outbox := { s with authRetried := true }
    -- the retry is a new transaction of the same message
    if event.reinitialized && event.sent then
      { s with transactions := s.transactions ++ [message] }
    else
      s.completeMessage .error 503 (ascii "SIP MESSAGE authentication failed")
        (.unauthenticated message)
  else if event.status < 300 then
    s.completeMessage .success event.status none (.response message event.status)
  else
    s.completeMessage .error event.status (ascii "remote SIP endpoint rejected MESSAGE")
      (.response message event.status)

end Outbox

/-- What may happen: a request, some time that passes, or an event of a transaction, in any order and
any number. -/
inductive OutboxEvent where
  | send (env : Outbox.Sending) (arguments : Outbox.Arguments)
  | elapse (ms : ℕ)
  | response (transaction : ℕ) (event : Outbox.Event)

namespace Outbox

def step (s : Outbox) : OutboxEvent → Outbox
  | .send env arguments => (s.sendMessageMethod env arguments).1
  | .elapse ms => s.elapse ms
  | .response transaction event =>
    match s.transactions[transaction]? with
    | none => s
    | some message => s.messageResponse message event

/-! ## Every request is answered once -/

/-- The requests that were answered and the one that waits are those that were deferred, in their
order. -/
def Accounted (s : Outbox) : Prop :=
  s.answers.map (·.request) ++ s.active.toList = List.range s.deferred

variable {s : Outbox}

/-- The request that waited is answered and no longer waits. -/
theorem accounted_complete (h : s.Accounted) (outcome : Outcome) (sipStatus : ℕ)
    (error : Option Text) (cause : Cause) :
    (s.completeMessage outcome sipStatus error cause).Accounted := by
  unfold completeMessage
  cases hactive : s.active with
  | none => exact h
  | some request =>
    unfold Accounted at h ⊢
    rw [hactive] at h
    simpa using h

/-- A new request takes the next number. -/
theorem accounted_defer (h : s.Accounted) (hactive : s.active = none) (sent : Bool) :
    (s.deferRequest sent).Accounted := by
  have hwaits : s.await.Accounted := by
    unfold Accounted at h ⊢
    rw [hactive, Option.toList_none, append_nil] at h
    show s.answers.map (·.request) ++ [s.deferred] = range (s.deferred + 1)
    rw [h, range_succ]
  unfold deferRequest
  split
  · exact hwaits
  · exact accounted_complete hwaits _ _ _ _

/-- A request is deferred when its arguments are right, there is a binding and PJSIP has made the
message; then there was none that waits. -/
theorem sendMessageMethod_cases (s : Outbox) (env : Sending) (arguments : Arguments) :
    ((s.sendMessageMethod env arguments).2 ≠ .ok ∧ (s.sendMessageMethod env arguments).1 = s) ∨
      ((s.sendMessageMethod env arguments).2 = .ok ∧ s.active = none ∧
        (s.sendMessageMethod env arguments).1 = s.deferRequest env.sent) := by
  unfold sendMessageMethod
  split
  · split_ifs with hactive
    · exact .inl ⟨nofun, rfl⟩
    · exact .inl ⟨nofun, rfl⟩
    · exact .inl ⟨nofun, rfl⟩
    · exact .inl ⟨nofun, rfl⟩
    · exact .inl ⟨nofun, rfl⟩
    · exact .inr ⟨rfl, Option.not_isSome_iff_eq_none.mp hactive, rfl⟩
  · exact .inl ⟨nofun, rfl⟩

theorem accounted_response (h : s.Accounted) (message : ℕ) (event : Event) :
    (s.messageResponse message event).Accounted := by
  unfold messageResponse
  split_ifs
  · exact h
  · exact h
  · exact accounted_complete (s := { s with authRetried := true }) h _ _ _ _
  · exact accounted_complete h _ _ _ _
  · exact accounted_complete h _ _ _ _

/-- **Every deferred request is answered once, or is the one that waits.** -/
theorem accounted_step (h : s.Accounted) (event : OutboxEvent) : (s.step event).Accounted := by
  cases event with
  | send env arguments =>
    dsimp only [step]
    obtain ⟨-, hsame⟩ | ⟨-, hactive, hdeferred⟩ := sendMessageMethod_cases s env arguments
    · rw [hsame]
      exact h
    · rw [hdeferred]
      exact accounted_defer h hactive env.sent
  -- the timer answers for the request that waits
  | elapse ms =>
    dsimp only [step, elapse]
    split
    · exact accounted_complete (s := { s with clock := s.clock + ms, timer := none }) h _ _ _ _
    · exact h
  | response transaction event =>
    dsimp only [step]
    cases s.transactions[transaction]? with
    | none => exact h
    | some message => exact accounted_response h message event

/-! ## No request waits for ever -/

/-- The timer runs as long as a request waits, and has not fired yet. -/
def Timed (s : Outbox) : Prop :=
  s.active ≠ none → s.timer = some (s.since + ubusActionTimeoutMs) ∧
    s.clock < s.since + ubusActionTimeoutMs

theorem timed_complete (s : Outbox) (outcome : Outcome) (sipStatus : ℕ) (error : Option Text)
    (cause : Cause) : (s.completeMessage outcome sipStatus error cause).Timed := by
  unfold completeMessage
  cases hactive : s.active with
  | none => exact fun h => absurd hactive h
  | some request => exact fun h => absurd rfl h

/-- **No request waits for more than 30 seconds.** -/
theorem timed_step (h : s.Timed) (event : OutboxEvent) : (s.step event).Timed := by
  cases event with
  -- a deferred request sets the timer, or is answered at once
  | send env arguments =>
    dsimp only [step]
    obtain ⟨-, hsame⟩ | ⟨-, -, hdeferred⟩ := sendMessageMethod_cases s env arguments
    · rw [hsame]
      exact h
    · rw [hdeferred, deferRequest]
      split
      · exact fun _ => ⟨rfl, Nat.lt_add_of_pos_right (by decide)⟩
      · exact timed_complete _ _ _ _ _
  | elapse ms =>
    dsimp only [step, elapse]
    split
    · exact timed_complete _ _ _ _ _
    · -- the timer has not fired, so its time is still to come
      rename_i hearly
      intro hactive
      obtain ⟨htimer, -⟩ := h hactive
      rw [htimer] at hearly
      exact ⟨htimer, by simpa using hearly⟩
  | response transaction event =>
    dsimp only [step]
    cases s.transactions[transaction]? with
    | none => exact h
    | some message =>
      dsimp only [messageResponse]
      split_ifs
      · exact h
      · exact h
      · exact timed_complete _ _ _ _ _
      · exact timed_complete _ _ _ _ _
      · exact timed_complete _ _ _ _ _

/-! ## Every answer is that of its message -/

def Owned (s : Outbox) : Prop := ∀ a ∈ s.answers, a.Own

/-- The answer to the request that waits has to be its own, too. -/
theorem owned_complete_iff (h : s.Owned) (outcome : Outcome) (sipStatus : ℕ) (error : Option Text)
    (cause : Cause) :
    (s.completeMessage outcome sipStatus error cause).Owned ↔
      ∀ request, s.active = some request →
        (⟨request, outcome, sipStatus, error, cause⟩ : Answer).Own := by
  unfold completeMessage
  cases s.active with
  | none => exact iff_of_true h nofun
  | some request =>
    -- one answer more, that to the request that waits
    constructor
    · rintro hall _ ⟨⟩
      exact hall _ (mem_append_right _ (mem_singleton_self _))
    · intro hown a ha
      rw [mem_append, mem_singleton] at ha
      obtain ha | rfl := ha
      · exact h a ha
      · exact hown request rfl

theorem owned_defer_iff (h : s.Owned) (sent : Bool) : (s.deferRequest sent).Owned ↔ sent = true := by
  cases sent with
  | true => exact iff_of_true h rfl
  | false =>
    have hcomplete := owned_complete_iff (s := s.await) h .error 503
      (ascii "SIP MESSAGE could not be sent") .unsent
    refine iff_of_false (fun howned => ?_) Bool.false_ne_true
    exact hcomplete.mp howned s.deferred rfl

/-- The answer of a transaction has to be for the message that waits, and a retry has to be sent. -/
theorem owned_response_iff (h : s.Owned) (message : ℕ) (event : Event) :
    (s.messageResponse message event).Owned ↔ ∀ request, s.active = some request →
      200 ≤ event.status →
        if s.retries event then (event.reinitialized && event.sent) = true else message = request := by
  unfold messageResponse
  by_cases hprovisional : event.status < 200
  · rw [if_pos hprovisional]
    exact iff_of_true h fun _ _ hfinal => absurd hfinal (not_le.mpr hprovisional)
  have hfinal : 200 ≤ event.status := not_lt.mp hprovisional
  rw [if_neg hprovisional]
  cases s.retries event with
  | true =>
    -- the message waits on, unless the retry fails
    have hretried : ({ s with authRetried := true } : Outbox).Owned := h
    rw [if_pos rfl]
    cases event.reinitialized && event.sent with
    | true => exact iff_of_true h fun _ _ _ => rfl
    | false =>
      rw [if_neg Bool.false_ne_true, owned_complete_iff hretried]
      refine forall₂_congr fun request _ => ?_
      exact ⟨False.elim, fun hsent => absurd (hsent hfinal) Bool.false_ne_true⟩
  | false =>
    -- whatever waits is answered with the status
    have hanswered : ∀ outcome error, outcome = .ofStatus event.status →
        ((s.completeMessage outcome event.status error (.response message event.status)).Owned ↔
          ∀ request, s.active = some request → 200 ≤ event.status → message = request) := by
      intro outcome error houtcome
      rw [owned_complete_iff h]
      refine forall₂_congr fun request _ => ?_
      exact ⟨fun hown _ => hown.1, fun hmessage => ⟨hmessage hfinal, hfinal, rfl, houtcome⟩⟩
    rw [if_neg Bool.false_ne_true]
    split
    · exact hanswered _ _ (if_pos ‹_›).symm
    · exact hanswered _ _ (if_neg ‹_›).symm

/-- The event does not answer another request: a message that is accepted is sent, and the final
event of a transaction finds no message waiting but its own, or a retry is sent. -/
def Careful (s : Outbox) : OutboxEvent → Prop
  | .send env arguments => (s.sendMessageMethod env arguments).2 = .ok → env.sent = true
  | .elapse _ => True
  | .response transaction event =>
    ∀ message request, s.transactions[transaction]? = some message → s.active = some request →
      200 ≤ event.status →
        if s.retries event then (event.reinitialized && event.sent) = true else message = request

/-- The timer fires only for a request that has waited for 30 seconds. -/
theorem owned_elapse (htimed : s.Timed) (h : s.Owned) (ms : ℕ) : (s.elapse ms).Owned := by
  unfold elapse
  dsimp only
  split
  · rename_i hdue
    refine (owned_complete_iff (s := { s with clock := s.clock + ms, timer := none }) h _ _ _ _).mpr
      fun request hactive => ⟨?_, rfl, rfl⟩
    have hactive : s.active ≠ none := fun hnone => absurd (hnone.symm.trans hactive) nofun
    rw [(htimed hactive).1] at hdue
    exact Nat.le_sub_of_add_le' (of_decide_eq_true hdue)
  · exact h

/-- **One event** keeps all answers those of their messages exactly if it answers no other request.
-/
theorem owned_step_iff (htimed : s.Timed) (h : s.Owned) (event : OutboxEvent) :
    (s.step event).Owned ↔ s.Careful event := by
  cases event with
  | send env arguments =>
    dsimp only [step, Careful]
    obtain ⟨hstatus, hsame⟩ | ⟨hstatus, -, hdeferred⟩ := sendMessageMethod_cases s env arguments
    · rw [hsame]
      exact iff_of_true h fun hok => absurd hok hstatus
    · rw [hdeferred, owned_defer_iff h, forall_prop_of_true hstatus]
  -- the timer is set anew with each request
  | elapse ms => exact iff_of_true (owned_elapse htimed h ms) trivial
  | response transaction event =>
    dsimp only [step, Careful]
    cases s.transactions[transaction]? with
    | none => exact iff_of_true h nofun
    | some message =>
      rw [owned_response_iff h]
      constructor
      · rintro hall _ request ⟨⟩
        exact hall request
      · exact fun hall request => hall message request rfl

/-- Every deferred request is answered once or is the one that waits, which has not waited for 30
seconds, and the answers are those of the messages. -/
structure Matched (s : Outbox) : Prop where
  accounted : s.Accounted
  waits : s.active ≠ none → s.clock < s.since + ubusActionTimeoutMs
  owned : s.Owned

/-- **Every request is answered once within 30 seconds, and with the answer to its own message**,
exactly in the runs in which no final event of another transaction comes while a message waits, and every message and
every retry can be sent. -/
theorem matched_iff (outbound : Bool) (events : List OutboxEvent) :
    Throughout step Matched (start outbound) events ↔ Along step Careful (start outbound) events := by
  apply throughout_iff_along (fun s => s.Accounted ∧ s.Timed)
  · exact ⟨rfl, fun h => absurd rfl h⟩
  · exact fun s event _ h => ⟨accounted_step h.1 event, timed_step h.2 event⟩
  · exact ⟨rfl, fun h => absurd rfl h, nofun⟩
  · intro s event _ hsound h
    have howned := owned_step_iff hsound.2 h.owned event
    exact ⟨fun hmatched => howned.mp hmatched.owned,
      fun hcareful => ⟨accounted_step hsound.1 event,
        fun hactive => (timed_step hsound.2 event hactive).2, howned.mpr hcareful⟩⟩

/-- A message is sent and not answered in time.  The next one is sent, and then the response to the
first one arrives. -/
def lateResponse : List OutboxEvent :=
  let message := OutboxEvent.send ⟨true, true, true, true⟩
    ⟨some (ascii "sip:phone"), some (ascii "text"), some (ascii "1")⟩
  [message, .elapse 30000, message, .response 0 ⟨200, true, true, true⟩]

/-- The second request is answered with the response to the first message. -/
theorem lateResponse_not_matched : ¬ Throughout step Matched (start false) lateResponse := by
  intro h
  have hown := h.last.owned ⟨1, .success, 200, none, .response 0 200⟩ (by decide +kernel)
  exact absurd hown.1 (by decide)

end Outbox

end QModem.Sip
