import QModem.Voip.Position
import QModem.Voip.Reconcile

/-!
# Polls of a Call

While there is a call, a timer asks the modem for the list of calls.  A list without the call is not
believed at once: only the second one in a row ends it.  But a record without a number does not
count, and so a call that the modem lists without a number is ended as well.

## Main results

- `Context.awaits_record`: what a record does while an answer is outstanding
- `LiveCall.polling_keeps_iff`: polls keep a call exactly if no two lists in a row are without a
  number
-/

namespace QModem.Voip

open Lib Call
open At (Text Correlation)

/-- The line is a record of a voice call with its number. -/
def Reply.counts (reply : Reply) : Bool :=
  match clccStatus reply.raw with
  | none => false
  | some r => r.mode ≠ 1 && !r.emptyNumber

/-- A poll that reaches the modem, with its complete answer: the records, among which there is one
of the call, and `OK`. -/
structure Poll where
  env : Surroundings
  port : Text
  resolved : env.resolved = some port
  usable : port ≠ [] ∧ port.length < atPortSize
  executed : env.executed = true
  commandId : ℕ
  numbered : commandId ≠ 0
  records : List Reply
  ok : Reply
  isRecord : ∀ reply ∈ records, hasPrefix (ascii "+CLCC:") reply.raw = true
  isOk : ok.raw = ascii "OK"
  voice : ∃ reply ∈ records, ∃ r, clccStatus reply.raw = some r ∧ r.mode = 0 ∧
    0 ≤ r.status ∧ r.status ≤ 5

/-- The poll is sent, or a line of its answer arrives. -/
inductive Exchange where
  | poll (env : Surroundings)
  | line (reply : Reply) (correlation : Correlation) (commandId : ℕ)

def Poll.exchanges (p : Poll) : List Exchange :=
  .poll p.env :: (p.records.map (.line · .response p.commandId) ++
    [.line p.ok .terminal p.commandId])

namespace Context

def exchange (x : Context) : Exchange → Context
  | .poll env => (x.operate env .pollActive).1
  | .line reply correlation commandId =>
    (x.operate reply.env (.line (x.call.next reply correlation commandId))).1

/-- There is a call, and its end was not published since. -/
def Standing (releases : ℕ) (x : Context) : Prop :=
  x.call.state.over = false ∧ x.releases = releases

structure Ready (releases : ℕ) (x : Context) : Prop where
  enabled : x.call.enabled = true
  live : x.call.state.live = true
  settled : x.call.reconcilePending = false
  releases : x.releases = releases

/-- The answer to a poll is arriving, and it is outstanding as long as no record of it has counted.
-/
structure Awaits (commandId misses releases : ℕ) (waiting : Bool) (x : Context) : Prop where
  enabled : x.call.enabled = true
  live : x.call.state.live = true
  port : x.call.atPort ≠ []
  pending : x.call.reconcilePending = waiting
  correlation : waiting = true →
    x.call.reconcileCommandId = 0 ∨ x.call.reconcileCommandId = commandId
  missed : x.call.reconcileVoiceMisses = if waiting then misses else 0
  released : x.releases = releases

variable {x : Context} {p : Poll} {reply : Reply} {commandId misses n : ℕ} {waiting : Bool}

theorem Awaits.standing (h : x.Awaits commandId misses n waiting) : x.Standing n :=
  ⟨CallState.not_over_of_live h.live, h.released⟩

theorem Awaits.not_terminating (h : x.Awaits commandId misses n waiting) :
    x.call.state ≠ .terminating := fun hstate => by
  have hlive := h.live
  rw [hstate] at hlive
  exact absurd hlive Bool.false_ne_true

variable {l : Line} {r : Clcc}

/-- The last line of the answer that is outstanding ends it. -/
theorem Awaits.endsReconcile (h : x.Awaits commandId misses n true) (hid : commandId ≠ 0)
    (hterminal : l.correlation = .terminal) (hcommandId : l.commandId = commandId) :
    x.call.endsReconcile l = true := by
  obtain hzero | hsame := h.correlation rfl
  · simp [Call.endsReconcile, h.pending, hterminal, hcommandId, hid, hzero]
  · simp [Call.endsReconcile, h.pending, hterminal, hcommandId, hid, hsame]

theorem Ready.standing (h : x.Ready n) : x.Standing n :=
  ⟨CallState.not_over_of_live h.live, h.releases⟩

variable (env : Surroundings)

theorem issueAt_releases (command : AtCommand) : (x.issueAt env command).releases = x.releases := by
  unfold releases
  obtain ⟨h, -⟩ | h := @issueAt_outputs env x command <;> simp [h]

/-- The poll is sent. -/
theorem awaits_poll (p : Poll) (h : x.Ready n) :
    (x.exchange (.poll p.env)).Awaits p.commandId x.call.reconcileVoiceMisses n true := by
  let y : Context := { x with
    call := { x.call with reconcilePending := true, reconcileCommandId := 0 }
    commandFailed := false }
  have hpoll : x.exchange (.poll p.env) = y.issueAt p.env .listCalls := by
    simp [exchange, operate, pollActive, h.enabled, h.live, h.settled, withCall, y]
  have hport : (y.call.resolve p.env).atPort = p.port :=
    resolve_atPort y.call p.resolved p.usable
  have hcall : (x.exchange (.poll p.env)).call = y.call.resolve p.env := by rw [hpoll, issueAt_call]
  have hreleases : (x.exchange (.poll p.env)).releases = n := by
    rw [hpoll, issueAt_releases]
    exact h.releases
  -- the port is selected already, or the command selects it and forgets its lines
  have hnone : y.call.resolve p.env = y.call ∨ y.call.resolve p.env = y.call.onPort p.port := by
    obtain hsame | ⟨port, hresolved, -, hport⟩ := resolve_cases p.env y.call
    · exact .inl hsame
    · cases p.resolved.symm.trans hresolved
      exact .inr hport
  rw [← hcall] at hport hnone
  have hatPort : (x.exchange (.poll p.env)).call.atPort ≠ [] := by
    rw [hport]
    exact p.usable.1
  obtain hsame | honPort := hnone
  · refine ⟨?_, ?_, hatPort, ?_, fun _ => .inl ?_, ?_, hreleases⟩ <;> rw [hsame]
    · exact h.enabled
    · exact h.live
    · rfl
  · refine ⟨?_, ?_, hatPort, ?_, fun _ => .inl ?_, ?_, hreleases⟩ <;> rw [honPort]
    · exact h.enabled
    · exact h.live
    · rfl
    · rfl
    · rfl

/-- In the answer that is outstanding a record is believed exactly if it counts. -/
theorem believes_iff_counts (h : x.Awaits commandId misses n true)
    (hcorrelated : l.correlated = true) (hid : l.commandId = commandId) :
    x.call.believes l r = (r.mode ≠ 1 && !r.emptyNumber) := by
  have hphantom : x.call.quarantines l r = r.emptyNumber := by
    obtain hzero | hsame := h.correlation rfl
    · simp [quarantines, hzero]
    · simp [quarantines, hsame, hid]
  simp [believes, h.pending, hcorrelated, hphantom]

section

variable (h : x.Awaits commandId misses n waiting)

include h

theorem awaits_accepted (reply : Reply) (correlation : Correlation) :
    (x.accepted reply correlation commandId).Awaits commandId misses n waiting :=
  ⟨h.enabled, h.live, h.port, h.pending, h.correlation, h.missed, h.released⟩

theorem awaits_believed (hbelieves : x.call.believes l r = true) :
    (x.record env l r).Awaits commandId misses n false := by
  obtain ⟨hheard, hreleases⟩ := heard_record env hbelieves h.not_terminating
  refine ⟨hheard.enabled.trans h.enabled, ?_, ?_, hheard.pending, nofun, hheard.misses,
    hreleases.trans h.released⟩
  · rw [hheard.state]
    exact live_heard h.live _
  · rw [show (x.record env l r).call.atPort = x.call.atPort from congrArg Prod.fst hheard.position]
    exact h.port

/-- A record that is not believed leaves the answer outstanding. -/
theorem awaits_passed (hbelieves : x.call.believes l r = false) (hid : l.commandId = commandId) :
    (x.record env l r).Awaits commandId misses n waiting := by
  obtain ⟨hpassed, hreleases⟩ := passed_record env hbelieves
  refine ⟨hpassed.enabled.trans h.enabled, ?_, ?_, hpassed.pending.trans h.pending, fun hwaiting => ?_,
    hpassed.misses.trans h.missed, hreleases.trans h.released⟩
  · rw [hpassed.state]
    exact h.live
  · rw [show (x.record env l r).call.atPort = x.call.atPort from congrArg Prod.fst hpassed.position]
    exact h.port
  · obtain hsame | ⟨-, hnew⟩ := hpassed.commandId
    · rw [hsame]
      exact h.correlation hwaiting
    · exact .inr (hnew.trans hid)

/-- A record of the answer is handled. -/
theorem exchange_record (hrecord : hasPrefix (ascii "+CLCC:") reply.raw = true) :
    x.exchange (.line reply .response commandId) =
      match clccStatus reply.raw with
      | none => x.accepted reply .response commandId
      | some r => (x.accepted reply .response commandId).record reply.env
          (x.call.next reply .response commandId) r := by
  dsimp only [exchange]
  rw [operate_next h.enabled h.port, handle_of_clcc hrecord]
  rfl

/-- A record counts, or everything stays as it is. -/
theorem awaits_record (hid : commandId ≠ 0)
    (hrecord : hasPrefix (ascii "+CLCC:") reply.raw = true) :
    (x.exchange (.line reply .response commandId)).Awaits commandId misses n
      (waiting && !reply.counts) := by
  have haccepted := awaits_accepted h reply .response
  rw [exchange_record h hrecord]
  unfold Reply.counts
  cases clccStatus reply.raw with
  | none => simpa using haccepted
  | some r =>
    generalize hl : x.call.next reply .response commandId = l
    have hcommandId : l.commandId = commandId := hl ▸ rfl
    have hcorrelated : l.correlated = true := hl ▸ correlated_next x.call reply hid
    generalize x.accepted reply .response commandId = y at haccepted
    have hrecorded : (y.record reply.env l r).Awaits commandId misses n
        (waiting && !y.call.believes l r) := by
      cases hbelieves : y.call.believes l r with
      | true => simpa using awaits_believed _ haccepted hbelieves
      | false => simpa using awaits_passed _ haccepted hbelieves hcommandId
    cases waiting with
    -- whatever the record is, nothing is outstanding after it
    | false => exact hrecorded
    | true => rwa [believes_iff_counts haccepted hcorrelated hcommandId] at hrecorded

/-- The records keep the call; the answer is outstanding until one of them counts. -/
theorem awaits_records (hid : commandId ≠ 0) (replies : List Reply)
    (hrecord : ∀ reply ∈ replies, hasPrefix (ascii "+CLCC:") reply.raw = true) :
    Throughout exchange (Standing n) x (replies.map (.line · .response commandId)) ∧
      (run exchange x (replies.map (.line · .response commandId))).Awaits commandId misses n
        (waiting && !replies.any Reply.counts) := by
  -- once a record has counted, the answer is not outstanding for the records behind it
  induction replies generalizing x waiting with
  | nil => exact ⟨h.standing, by simpa using h⟩
  | cons reply replies ih =>
    have hhere := awaits_record h hid (hrecord reply List.mem_cons_self)
    obtain ⟨hthroughout, hrest⟩ := ih hhere fun r hr => hrecord r (List.mem_cons_of_mem _ hr)
    refine ⟨⟨h.standing, hthroughout⟩, ?_⟩
    rw [List.any_cons, Bool.not_or, ← Bool.and_assoc]
    exact hrest

end

/-- The first list that misses a call is not believed. -/
theorem reconcileOk_of_first (hlive : x.call.state.live = true)
    (hmisses : x.call.reconcileVoiceMisses = 0) :
    x.reconcileOk env = (x.withCall x.call.missed.settled).notify env .reconcileInconclusive := by
  have hidle := CallState.ne_idle (CallState.not_over_of_live hlive)
  have hstate : x.call.missed.state.live = true := hlive
  have hmissed : x.call.missed.reconcileVoiceMisses = 1 := by simp [missed, hlive, hmisses]
  simp [reconcileOk, hidle, hstate, hmissed]

/-- The second one is. -/
theorem reconcileOk_of_second (hlive : x.call.state.live = true)
    (hmisses : x.call.reconcileVoiceMisses ≠ 0) :
    ∃ event, x.reconcileOk env = (x.withCall (x.call.missed.clear env).settled).notify env event := by
  have hidle := CallState.ne_idle (CallState.not_over_of_live hlive)
  have hmissed : ¬ x.call.missed.reconcileVoiceMisses < 2 := by
    simp only [missed, hlive, if_true]
    omega
  refine ⟨if x.call.missed.state = .active then .release else .reconcileIdle, ?_⟩
  simp only [reconcileOk, hidle, hmissed, Bool.and_false, Bool.false_eq_true, decide_false, if_false]

/-- After a list that is still outstanding the call is missed, and ended if it was missed before. -/
theorem exchange_ok_of_waiting (hid : commandId ≠ 0) (hok : reply.raw = ascii "OK")
    (h : x.Awaits commandId misses n true) :
    (misses = 0 → (x.exchange (.line reply .terminal commandId)).Ready n) ∧
      (misses ≠ 0 → (x.exchange (.line reply .terminal commandId)).call.state.over = true) := by
  dsimp only [exchange]
  rw [operate_next h.enabled h.port]
  replace h := awaits_accepted h reply .terminal
  generalize hlast : x.call.next reply .terminal commandId = l
  have hl : l.correlation = .terminal ∧ l.commandId = commandId ∧ l.raw = reply.raw :=
    hlast ▸ ⟨rfl, rfl, rfl⟩
  generalize x.accepted reply .terminal commandId = y at h ⊢
  have hends := h.endsReconcile hid hl.1 hl.2.1
  have hmisses : y.call.reconcileVoiceMisses = misses := h.missed
  rw [handle_of_ok _ _ (hl.2.2.trans hok), if_pos hends]
  -- the first miss is forgiven, the second one ends the call
  refine ⟨fun hzero => ?_, fun hne => ?_⟩
  · obtain ⟨_, hcall⟩ :=
      notify_call reply.env (y.withCall y.call.missed.settled) .reconcileInconclusive
    rw [reconcileOk_of_first reply.env h.live (hmisses.trans hzero)]
    refine ⟨?_, ?_, ?_, (notify_releases (by decide)).trans h.released⟩ <;> rw [hcall]
    · exact h.enabled
    · exact h.live
    · rfl
  · obtain ⟨event, hsecond⟩ := reconcileOk_of_second reply.env h.live (hmisses ▸ hne)
    rw [hsecond, notify_state]
    exact over_clear reply.env y.call.missed

/-- After a record that counted the end of the answer changes nothing. -/
theorem exchange_ok_of_settled (hok : reply.raw = ascii "OK")
    (h : x.Awaits commandId misses n false) :
    (x.exchange (.line reply .terminal commandId)).Ready n := by
  dsimp only [exchange]
  rw [operate_next h.enabled h.port]
  replace h := awaits_accepted h reply .terminal
  generalize hlast : x.call.next reply .terminal commandId = l
  have hraw : l.raw = reply.raw := hlast ▸ rfl
  generalize x.accepted reply .terminal commandId = y at h ⊢
  have hends : y.call.endsReconcile l = false := by simp [endsReconcile, h.pending]
  rw [handle_of_ok _ _ (hraw.trans hok), hends]
  exact ⟨h.enabled, h.live, h.pending, h.released⟩

end Context

/-! ## Runs of polls -/

/-- The daemon with a call that can be polled. -/
structure LiveCall where
  context : Context
  ready : context.Ready context.releases

namespace Context

def poll (x : Context) (p : Poll) : Context := run exchange x p.exchanges

/-- The list before has not missed the call, or this one has a record of it with its number. -/
def NotMissedTwice (x : Context) (p : Poll) : Prop :=
  x.call.reconcileVoiceMisses = 0 ∨ p.records.any Reply.counts = true

variable {x : Context} {p : Poll} {n : ℕ}

/-- A poll keeps the call exactly if this is not the second list that misses it, and then the next
one can follow. -/
theorem standing_poll_iff (h : x.Ready n) :
    (Throughout exchange (Standing n) x p.exchanges ↔ x.NotMissedTwice p) ∧
      (x.NotMissedTwice p → (x.poll p).Ready n) := by
  obtain ⟨hrecords, hawaits⟩ := awaits_records (awaits_poll p h) p.numbered p.records p.isRecord
  have hpoll : x.poll p =
      (run exchange (x.exchange (.poll p.env)) (p.records.map (.line · .response p.commandId))).exchange
        (.line p.ok .terminal p.commandId) := run_append _ _
  have hthroughout : Throughout exchange (Standing n) x p.exchanges ↔ (x.poll p).Standing n := by
    rw [hpoll]
    refine ⟨fun hall => ?_, fun hlast => ⟨h.standing, ?_⟩⟩
    · exact hpoll ▸ hall.last
    · exact (throughout_append _ _).mpr ⟨hrecords, hawaits.standing, hlast⟩
  rw [hthroughout, hpoll]
  unfold NotMissedTwice
  -- whether a record has counted decides if `OK` still finds the answer outstanding
  cases hcounts : p.records.any Reply.counts with
  | true =>
    rw [hcounts] at hawaits
    have hready := exchange_ok_of_settled p.isOk hawaits
    exact ⟨iff_of_true hready.standing (.inr rfl), fun _ => hready⟩
  | false =>
    rw [hcounts] at hawaits
    obtain ⟨hkept, hended⟩ := exchange_ok_of_waiting p.numbered p.isOk hawaits
    rw [or_iff_left Bool.false_ne_true]
    refine ⟨⟨fun hstanding => ?_, fun hzero => (hkept hzero).standing⟩, hkept⟩
    by_contra hne
    exact absurd (hstanding.1.symm.trans (hended hne)) Bool.false_ne_true

end Context

/-- **Polls keep a call exactly if no two lists in a row are without a record that counts**, where
the list before the first one is the one that the call remembers. -/
theorem LiveCall.polling_keeps_iff (x : LiveCall) (polls : List Poll) :
    Throughout Context.exchange (Context.Standing x.context.releases) x.context
        (polls.flatMap Poll.exchanges) ↔
      Along Context.poll Context.NotMissedTwice x.context polls := by
  apply throughout_blocks_iff (Context.Ready x.context.releases)
  · exact fun _ h => h.standing
  · exact fun _ p h => (Context.standing_poll_iff h).1
  · exact fun _ p h => (Context.standing_poll_iff h).2
  · exact x.ready

/-- A call rings whose number is withheld. -/
def LiveCall.withheld : LiveCall where
  context := run (fun x operation => (x.operate (.working (ascii "/dev/ttyUSB2")) operation).1) .initial
    [.setEnabled true, .selectAtPort (ascii "/dev/ttyUSB2"), .line (.ofTty 1 "RING" .idle 0)]
  ready := by constructor <;> decide

/-- A line of the working port. -/
def Reply.ofText (text : String) : Reply := ⟨.working (ascii "/dev/ttyUSB2"), ascii text, 1, 1, 0⟩

/-- A poll on the working port that is answered with the records. -/
def Poll.listing (commandId : ℕ) (numbered : commandId ≠ 0) (records : List String)
    (isRecord : ∀ reply ∈ records.map Reply.ofText, hasPrefix (ascii "+CLCC:") reply.raw = true)
    (voice : ∃ reply ∈ records.map Reply.ofText, ∃ r, clccStatus reply.raw = some r ∧ r.mode = 0 ∧
      0 ≤ r.status ∧ r.status ≤ 5) : Poll where
  env := .working (ascii "/dev/ttyUSB2")
  port := ascii "/dev/ttyUSB2"
  resolved := rfl
  usable := by decide
  executed := rfl
  commandId
  numbered
  records := records.map Reply.ofText
  ok := .ofText "OK"
  isRecord
  isOk := rfl
  voice

/-- The modem lists it without a number. -/
def Poll.withheld (commandId : ℕ) (numbered : commandId ≠ 0) : Poll :=
  .listing commandId numbered ["+CLCC: 1,1,4,0,0,\"\",128"] (by decide)
    ⟨_, List.mem_cons_self, ⟨1, 4, 0, true⟩, by decide⟩

/-- The second poll ends the call. -/
theorem LiveCall.withheld_not_kept :
    ¬ Throughout Context.exchange (Context.Standing LiveCall.withheld.context.releases)
      LiveCall.withheld.context
      ([Poll.withheld 1 (by decide), Poll.withheld 2 (by decide)].flatMap Poll.exchanges) := by
  intro h
  exact absurd h.last.1 (by decide +kernel)

end QModem.Voip
