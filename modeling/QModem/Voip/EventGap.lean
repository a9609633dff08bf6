import QModem.At.Publishing
import QModem.Lib.Run
import QModem.Voip.Position

/-!
# Event Gaps

The lines of a port have consecutive numbers, and `voipd` takes a missing number for a lost event.
But it is not told of all lines: of the lines that belong to no command it gets only those for which
it has registered a beginning.  Every other such line takes a number, too.

`Feed` is `voipd` together with the AT daemon as far as the lines of one port in one epoch go.  No
event is lost there, and the bus keeps the order.

## Main results

- `Context.line_position`: a line that is taken becomes the last line seen
- `Feed.no_gap_iff`: no gap is found exactly in the runs in which `voipd` is told of all lines from
  the first one to the last one it is told of
-/

namespace QModem.Voip

open Lib List Call
open At (Text Correlation LineEvent Message UrcRegistration publishLineEvent urcRegister
  urcUnregister)

/-! ## Handlers of the bus -/

/-- `qmodem_voip_correlation_parse` -/
def correlationParse (name : Option Text) : Correlation :=
  match name with
  | none => .response
  | some name =>
    if name = ascii "response" then .response
    else if name = ascii "terminal" then .terminal
    else if name = ascii "ambiguous" then .ambiguous
    else .idle

theorem correlationParse_name (c : Correlation) : correlationParse (some c.name) = c := by
  cases c <;> decide +kernel

/-- The owner of the registrations that are meant for the daemon. -/
def voipOwner : Text := ascii "qmodem.voip"

/-- The line that `at_line_event` or `at_urc_event` passes on, if any. -/
def lineOf : Message → Option Line
  | .line e =>
    if e.commandId = 0 || correlationParse (some e.correlation.name) = .idle then none
    else
      some ⟨e.port, e.epoch, e.sequence, e.line, correlationParse (some e.correlation.name),
        e.commandId, e.dropCount⟩
  | .urc owner _ e =>
    if owner = voipOwner then some ⟨e.port, e.epoch, e.sequence, e.line, .idle, 0, e.dropCount⟩
    else none

/-- `at_line_event` and `at_urc_event` -/
def Context.receive (env : Surroundings) (x : Context) (m : Message) : Context :=
  match lineOf m with
  | none => x
  | some l =>
    let y := ({ x with commandFailed := false }.line env l).1
    if y.commandFailed then y.fault env else y

def told (urcs : List UrcRegistration) (e : LineEvent) : Bool :=
  if e.correlation = .idle then urcs.any fun urc => urc.owner = voipOwner && urc.wants e
  else e.commandId ≠ 0

/-- One of the messages about the line is passed on exactly if the daemon is told of it. -/
theorem told_iff {urcs : List UrcRegistration} {e : LineEvent} :
    told urcs e = true ↔ ∃ m ∈ publishLineEvent urcs e, (lineOf m).isSome = true := by
  have hline : (lineOf (.line e)).isSome = true ↔ e.commandId ≠ 0 ∧ e.correlation ≠ .idle := by
    simp [lineOf, correlationParse_name]
  have hurc : ∀ owner urcId, (lineOf (.urc owner urcId e)).isSome = true ↔ owner = voipOwner := by
    intro owner urcId
    simp [lineOf]
  constructor
  · intro h
    unfold told at h
    split_ifs at h with hidle
    · -- the registration gets a message of its own
      obtain ⟨urc, hmem, hwants⟩ := any_eq_true.mp h
      simp only [Bool.and_eq_true, decide_eq_true_eq] at hwants
      obtain ⟨urcId, hpublished⟩ := At.mem_publish_urc.mpr ⟨hidle, urc, hmem, hwants⟩
      exact ⟨_, hpublished, (hurc _ _).mpr rfl⟩
    · exact ⟨.line e, mem_cons_self, hline.mpr ⟨by simpa using h, hidle⟩⟩
  · rintro ⟨m, hm, hpassed⟩
    have hevent := At.event_of_mem_publish hm
    unfold told
    cases m with
    | line e' =>
      obtain rfl : e' = e := hevent
      rw [hline] at hpassed
      rw [if_neg hpassed.2]
      simpa using hpassed.1
    | urc owner urcId e' =>
      obtain rfl : e' = e := hevent
      obtain ⟨hidle, urc, hmem, howner, hwants⟩ := At.mem_publish_urc.mp ⟨urcId, hm⟩
      rw [hurc] at hpassed
      rw [if_pos hidle, any_eq_true]
      exact ⟨urc, hmem, by simp [howner, hpassed, hwants]⟩

/-! ## Which line was seen last -/

/-- The port that commands are sent to does not change. -/
def Surroundings.Stays (env : Surroundings) (port : Text) : Prop :=
  ∀ port', env.resolved = some port' → port' = port

/-- The operation is no line of the port, and does not select another port. -/
def Operation.Stays (port : Text) : Operation → Prop
  | .line l => l.port ≠ port
  | .selectAtPort port' => port' = port
  | _ => True

namespace Call

variable {env : Surroundings} {operation : Operation} {c c' : Call}

theorem resolve_of_stays (h : env.Stays c.atPort) : c.resolve env = c := by
  obtain hsame | ⟨port, hresolved, hother, -⟩ := resolve_cases env c
  · exact hsame
  · exact absurd (h port hresolved).symm hother

theorem Stands.position (h : c.Stands env c') (henv : env.Stays c.atPort) :
    c'.position = c.position := by
  unfold Stands at h
  rw [resolve_of_stays henv, or_self] at h
  exact h

end Call

namespace Context

variable {env : Surroundings} {x : Context} {l : Line}

/-- A line that is taken becomes the last line seen. -/
theorem line_position (h : env.Stays x.call.atPort) (htaken : x.call.takes l = true) :
    (x.line env l).1.call.position = (x.call.atPort, l.epoch, l.sequence) := by
  cases hgap : x.call.gap l with
  | false =>
    obtain hsame | ⟨port, hresolved, hother, -⟩ := line_position_of_no_gap env htaken hgap
    · exact hsame
    · exact absurd (h port hresolved).symm hother
  | true => rw [line_position_of_gap env htaken hgap, resolve_of_stays h]

/-- Commands do not move the position while the port stays. -/
theorem operate_position {operation : Operation} (henv : env.Stays x.call.atPort)
    (hstays : operation.Stays x.call.atPort) :
    (x.operate env operation).1.call.position = x.call.position := by
  by_cases hline : ∃ l, operation = .line l
  · -- the line of another port is not taken
    obtain ⟨l, rfl⟩ := hline
    have hother : x.call.atPort ≠ l.port := fun h => hstays h.symm
    rw [operate_of_not_taken env (by simp [takes, hears, hother])]
  · obtain hstands | ⟨port, rfl, hother, -⟩ :=
      operate_position_cases env fun l hl => hline ⟨l, hl⟩
    · exact hstands.position henv
    · exact absurd hstays.symm hother

/-- The line that was taken last is the position. -/
theorem receive_position {m : Message} (henv : env.Stays x.call.atPort) (hline : lineOf m = some l)
    (htaken : x.call.takes l = true) :
    (x.receive env m).call.position = (x.call.atPort, l.epoch, l.sequence) := by
  let y : Context := { x with commandFailed := false }
  have hposition : (y.line env l).1.call.position = (x.call.atPort, l.epoch, l.sequence) :=
    line_position henv htaken
  unfold receive
  rw [hline]
  dsimp only
  -- a fault afterwards changes the state only
  split
  · exact (changes_fault env (y.line env l).1).position.trans hposition
  · exact hposition

theorem receive_call_of_not_taken {m : Message} (hline : lineOf m = some l)
    (hnot : x.call.takes l = false) : (x.receive env m).call = x.call := by
  let y : Context := { x with commandFailed := false }
  have hsame : (y.line env l).1 = y := line_of_not_taken hnot
  unfold receive
  rw [hline]
  show (if (y.line env l).1.commandFailed then _ else (y.line env l).1).call = x.call
  rw [hsame, if_neg Bool.false_ne_true]

end Context

/-! ## The lines of one port in one epoch -/

/-- A selected port, and one of its epochs. -/
structure Channel where
  port : Text
  epoch : ℕ
  port_ne : port ≠ []
  epoch_ne : epoch ≠ 0

/-- What may happen: a line arrives and is published, a registration is changed, or something else
happens to the call.  The port stays selected. -/
inductive FeedEvent (ch : Channel) where
  | line (raw : Text) (commandId : ℕ) (correlation : Correlation) (monotonicMs : ℕ)
      (env : ℕ → Surroundings) (stays : ∀ i, (env i).Stays ch.port)
  | register (urc : UrcRegistration) (allocated : Bool)
  | unregister (port owner urcId : Text)
  | operation (operation : Operation) (env : Surroundings) (stays : env.Stays ch.port)
      (elsewhere : operation.Stays ch.port)

/-- `voipd` with the registrations of the AT daemon and the number of the last line.  `missed` says
that the last line was none that `voipd` takes.  The lists hold the numbers of the lines that are
meant for `voipd`, of those it has processed, and of those before which it has found a gap. -/
structure Feed where
  context : Context
  urcs : List UrcRegistration
  sequence : ℕ
  missed : Bool
  subscribed : List ℕ
  processed : List ℕ
  gaps : List ℕ

namespace Feed

/-- The port is selected.  The call has seen its last line, or no line of it yet. -/
def start (ch : Channel) (x : Context) (urcs : List UrcRegistration) (sequence : ℕ) (seen : Bool) :
    Feed where
  context := x.withCall
    { x.call with
      atPort := ch.port
      restartEpoch := if seen then ch.epoch else 0
      sequence := if seen then sequence else 0 }
  urcs := urcs
  sequence := sequence
  missed := false
  subscribed := []
  processed := []
  gaps := []

def receive (env : Surroundings) (s : Feed) (m : Message) : Feed :=
  match lineOf m with
  | none => s
  | some l =>
    let taken := s.context.call.takes l
    { s with
      context := s.context.receive env m
      processed := if taken then s.processed ++ [l.sequence] else s.processed
      gaps := if taken && s.context.call.gap l then s.gaps ++ [l.sequence] else s.gaps }

/-- The messages come in their order, each in its own surroundings. -/
def deliver (env : ℕ → Surroundings) (s : Feed) : List Message → Feed
  | [] => s
  | m :: ms => (s.receive (env ms.length) m).deliver env ms

theorem deliver_cons (env : ℕ → Surroundings) (s : Feed) (m : Message) (ms : List Message) :
    s.deliver env (m :: ms) = (s.receive (env ms.length) m).deliver env ms := rfl

def next (ch : Channel) (s : Feed) (raw : Text) (commandId : ℕ) (correlation : Correlation)
    (monotonicMs : ℕ) : LineEvent :=
  ⟨⟨ch.port, ch.epoch, s.sequence + 1, monotonicMs, raw, commandId, correlation⟩, 0⟩

/-- The line is meant for `voipd`, which is enabled. -/
def concerns (s : Feed) (e : LineEvent) : Bool := s.context.call.enabled && told s.urcs e

/-- A line is published, and the messages about it are delivered. -/
def publish (env : ℕ → Surroundings) (s : Feed) (e : LineEvent) : Feed :=
  { s.deliver env (publishLineEvent s.urcs e) with
    sequence := e.sequence
    missed := !s.concerns e
    subscribed := if s.concerns e then s.subscribed ++ [e.sequence] else s.subscribed }

def step (ch : Channel) (s : Feed) : FeedEvent ch → Feed
  | .line raw commandId correlation monotonicMs env _ =>
    s.publish env (s.next ch raw commandId correlation monotonicMs)
  | .register urc allocated => { s with urcs := (urcRegister s.urcs urc allocated).1 }
  | .unregister port owner urcId => { s with urcs := (urcUnregister port owner urcId s.urcs).1 }
  | .operation operation env _ _ => { s with context := (s.context.operate env operation).1 }

/-- Every line that is meant for `voipd` is processed, and no gap is found. -/
structure Faithful (s : Feed) : Prop where
  processed : s.processed = s.subscribed
  gaps : s.gaps = []

/-- A line that is meant for `voipd` comes right after another one, unless it is the first. -/
def Contiguous (ch : Channel) (s : Feed) : FeedEvent ch → Prop
  | .line raw commandId correlation monotonicMs _ _ =>
    s.concerns (s.next ch raw commandId correlation monotonicMs) = true →
      s.context.call.restartEpoch ≠ 0 → s.missed = false
  | _ => True

/-! ## The last line seen along a run -/

/-- The last line that was processed is the last line of the port, or lines were missed since. -/
structure Located (ch : Channel) (s : Feed) : Prop where
  port : s.context.call.atPort = ch.port
  seen : s.context.call.restartEpoch = 0 ∨
    s.context.call.restartEpoch = ch.epoch ∧
      if s.missed then s.context.call.sequence < s.sequence
      else s.context.call.sequence = s.sequence

variable {ch : Channel} {s : Feed} {e : LineEvent}

/-- A line has the place of its event. -/
theorem lineOf_place {m : Message} {l : Line} (h : lineOf m = some l) :
    l.port = m.event.port ∧ l.epoch = m.event.epoch ∧ l.sequence = m.event.sequence := by
  cases m with
  | line e =>
    dsimp only [lineOf] at h
    split_ifs at h
    cases h
    exact ⟨rfl, rfl, rfl⟩
  | urc owner urcId e =>
    dsimp only [lineOf] at h
    split_ifs at h
    cases h
    exact ⟨rfl, rfl, rfl⟩

/-- Messages that `voipd` ignores have no effect. -/
theorem deliver_of_not_taken (env : ℕ → Surroundings) (ms : List Message)
    (h : ∀ m ∈ ms, ∀ l, lineOf m = some l → s.context.call.takes l = false) :
    (s.deliver env ms).context.call = s.context.call ∧
      (s.deliver env ms).processed = s.processed ∧ (s.deliver env ms).gaps = s.gaps := by
  induction ms generalizing s with
  | nil => exact ⟨rfl, rfl, rfl⟩
  | cons m ms ih =>
    -- one message that is not taken changes nothing
    have hreceive : (s.receive (env ms.length) m).context.call = s.context.call ∧
        (s.receive (env ms.length) m).processed = s.processed ∧
        (s.receive (env ms.length) m).gaps = s.gaps := by
      unfold receive
      cases hline : lineOf m with
      | none => exact ⟨rfl, rfl, rfl⟩
      | some l =>
        have hnot := h m mem_cons_self l hline
        refine ⟨Context.receive_call_of_not_taken hline hnot, ?_, ?_⟩
        · exact if_neg (by simp [hnot])
        · exact if_neg (by simp [hnot])
    obtain ⟨hcall, hprocessed, hgaps⟩ := hreceive
    have hrest := ih (s := s.receive (env ms.length) m) fun m' hm' l hl => by
      rw [hcall]
      exact h m' (mem_cons_of_mem _ hm') l hl
    rw [hcall, hprocessed, hgaps] at hrest
    exact hrest

/-- A line that was seen is ignored. -/
theorem not_takes_of_seen {c : Call} {l : Line} (hepoch : l.epoch ≠ 0)
    (h : c.position = (l.port, l.epoch, l.sequence)) : c.takes l = false := by
  obtain ⟨-, hseen, hsequence⟩ : c.atPort = l.port ∧ c.restartEpoch = l.epoch ∧
      c.sequence = l.sequence := by simpa [position] using h
  simp [takes, hears, hseen, hsequence, hepoch]

/-- A line that is taken is processed, and noted if it comes with a gap. -/
theorem receive_of_taken {env : Surroundings} {m : Message} {l : Line}
    (hstays : env.Stays s.context.call.atPort) (hline : lineOf m = some l)
    (htaken : s.context.call.takes l = true) :
    (s.receive env m).context.call.position = (s.context.call.atPort, l.epoch, l.sequence) ∧
      (s.receive env m).processed = s.processed ++ [l.sequence] ∧
      (s.receive env m).gaps =
        if s.context.call.gap l then s.gaps ++ [l.sequence] else s.gaps := by
  unfold receive
  rw [hline]
  refine ⟨Context.receive_position hstays hline htaken, if_pos htaken, ?_⟩
  dsimp only
  rw [htaken, Bool.true_and]

/-- Of all messages about a new line that is meant for `voipd`, the first one is processed. -/
theorem deliver_of_taken {env : ℕ → Surroundings} {ms : List Message} {gap : Bool}
    (hstays : ∀ i, (env i).Stays s.context.call.atPort) (hepoch : e.epoch ≠ 0)
    (hport : s.context.call.atPort = e.port) (hmessages : ∀ m ∈ ms, m.event = e)
    (htakes : ∀ m ∈ ms, ∀ l, lineOf m = some l →
      s.context.call.takes l = true ∧ s.context.call.gap l = gap)
    (htold : ∃ m ∈ ms, (lineOf m).isSome = true) :
    (s.deliver env ms).context.call.position = (e.port, e.epoch, e.sequence) ∧
      (s.deliver env ms).processed = s.processed ++ [e.sequence] ∧
      (s.deliver env ms).gaps = if gap then s.gaps ++ [e.sequence] else s.gaps := by
  induction ms with
  | nil =>
    obtain ⟨m, hm, -⟩ := htold
    exact absurd hm not_mem_nil
  | cons m ms ih =>
    cases hline : lineOf m with
    | none =>
      -- this message is for somebody else
      have hreceive : s.receive (env ms.length) m = s := by simp [receive, hline]
      rw [deliver_cons, hreceive]
      refine ih (fun m' hm' => hmessages m' (mem_cons_of_mem _ hm'))
        (fun m' hm' => htakes m' (mem_cons_of_mem _ hm')) ?_
      obtain ⟨m', hm', hsome⟩ := htold
      obtain rfl | hm' := mem_cons.mp hm'
      · simp [hline] at hsome
      · exact ⟨m', hm', hsome⟩
    | some l =>
      -- this one is processed, and the other ones are about a line that was seen
      obtain ⟨htaken, hgap⟩ := htakes m mem_cons_self l hline
      obtain ⟨hposition, hprocessed, hgaps⟩ := receive_of_taken (hstays ms.length) hline htaken
      have hplace := lineOf_place hline
      rw [hmessages m mem_cons_self] at hplace
      rw [hport, hplace.2.1, hplace.2.2] at hposition
      rw [hplace.2.2] at hprocessed
      rw [hgap, hplace.2.2] at hgaps
      have hseen : ∀ m' ∈ ms, ∀ l', lineOf m' = some l' →
          (s.receive (env ms.length) m).context.call.takes l' = false := by
        intro m' hm' l' hl'
        have hplace' := lineOf_place hl'
        rw [hmessages m' (mem_cons_of_mem _ hm')] at hplace'
        apply not_takes_of_seen
        · rw [hplace'.2.1]
          exact hepoch
        · rw [hposition, hplace'.1, hplace'.2.1, hplace'.2.2]
      obtain ⟨hcall, hprocessed', hgaps'⟩ := deliver_of_not_taken env ms hseen
      rw [deliver_cons, hcall, hprocessed', hgaps']
      exact ⟨hposition, hprocessed, hgaps⟩

/-- A new line of the port is heard, and it is behind a gap exactly if a line was missed. -/
theorem Located.hears (h : s.Located ch) {l : Line} (hport : l.port = ch.port)
    (hepoch : l.epoch = ch.epoch) (hsequence : l.sequence = s.sequence + 1) :
    s.context.call.hears l = true ∧
      s.context.call.gap l = (s.context.call.restartEpoch ≠ 0 && s.missed) := by
  -- no line was seen yet, or the last line, or an earlier one
  obtain hfirst | ⟨hseen, hmissed⟩ := h.seen
  · simp [Call.hears, Call.gap, h.port, hport, ch.port_ne, hfirst]
  · cases hm : s.missed with
    | false =>
      rw [hm, if_neg Bool.false_ne_true] at hmissed
      simp [Call.hears, Call.gap, h.port, hport, ch.port_ne, hseen, hepoch, hsequence, hmissed]
    | true =>
      rw [hm, if_pos rfl] at hmissed
      have hnew : ¬ s.sequence + 1 ≤ s.context.call.sequence := by omega
      simp [Call.hears, Call.gap, h.port, hport, ch.port_ne, ch.epoch_ne, hseen, hepoch, hsequence,
        hnew, hmissed]

/-- A line that is meant for `voipd` is processed, and there is a gap before it exactly if a line
was missed. -/
theorem deliver_of_concerns {env : ℕ → Surroundings} (h : s.Located ch)
    (hstays : ∀ i, (env i).Stays ch.port) (hport : e.port = ch.port) (hepoch : e.epoch = ch.epoch)
    (hsequence : e.sequence = s.sequence + 1) (hconcerns : s.concerns e = true) :
    (s.deliver env (publishLineEvent s.urcs e)).context.call.position =
        (e.port, e.epoch, e.sequence) ∧
      (s.deliver env (publishLineEvent s.urcs e)).processed = s.processed ++ [e.sequence] ∧
      (s.deliver env (publishLineEvent s.urcs e)).gaps =
        if s.context.call.restartEpoch ≠ 0 && s.missed then s.gaps ++ [e.sequence] else s.gaps := by
  obtain ⟨henabled, htold⟩ := Bool.and_eq_true_iff.mp hconcerns
  apply deliver_of_taken
  · exact h.port ▸ hstays
  · exact hepoch ▸ ch.epoch_ne
  · exact h.port.trans hport.symm
  · exact fun m hm => At.event_of_mem_publish hm
  · -- every copy of the event has the same place, the next one of the port
    intro m hm l hl
    obtain ⟨hlport, hlepoch, hlsequence⟩ := lineOf_place hl
    rw [At.event_of_mem_publish hm] at hlport hlepoch hlsequence
    obtain ⟨hhears, hgap⟩ :=
      h.hears (hlport.trans hport) (hlepoch.trans hepoch) (hlsequence.trans hsequence)
    exact ⟨by simp [takes, henabled, hhears], hgap⟩
  · exact told_iff.mp htold

/-- Any other line has no effect. -/
theorem deliver_of_not_concerns (env : ℕ → Surroundings) (hconcerns : s.concerns e = false) :
    (s.deliver env (publishLineEvent s.urcs e)).context.call = s.context.call ∧
      (s.deliver env (publishLineEvent s.urcs e)).processed = s.processed ∧
      (s.deliver env (publishLineEvent s.urcs e)).gaps = s.gaps := by
  apply deliver_of_not_taken
  intro m hm l hl
  -- if it were taken, the daemon would be enabled and told of it
  by_contra htaken
  obtain ⟨henabled, -⟩ := Bool.and_eq_true_iff.mp (Bool.not_eq_false _ ▸ htaken)
  have htold := told_iff.mpr ⟨m, hm, by simp [hl]⟩
  simp [concerns, henabled, htold] at hconcerns

section Publish

variable {env : ℕ → Surroundings} (h : s.Located ch) (hstays : ∀ i, (env i).Stays ch.port)
  (hport : e.port = ch.port) (hepoch : e.epoch = ch.epoch) (hsequence : e.sequence = s.sequence + 1)

include h hstays hport hepoch hsequence

/-- Publishing a line keeps the position behind the lines of the port. -/
theorem located_publish : (s.publish env e).Located ch := by
  cases hconcerns : s.concerns e with
  | true =>
    obtain ⟨hposition, -, -⟩ := deliver_of_concerns h hstays hport hepoch hsequence hconcerns
    simp only [position, Prod.mk.injEq] at hposition
    obtain ⟨hatPort, hseen, hlast⟩ := hposition
    refine ⟨hatPort.trans hport, .inr ⟨hseen.trans hepoch, ?_⟩⟩
    simpa [publish, hconcerns] using hlast
  | false =>
    obtain ⟨hcall, -, -⟩ := deliver_of_not_concerns env hconcerns
    have hcall' : (s.publish env e).context.call = s.context.call := hcall
    refine ⟨hcall' ▸ h.port, ?_⟩
    rw [hcall']
    obtain hfirst | ⟨hseen, hlast⟩ := h.seen
    · exact .inl hfirst
    · refine .inr ⟨hseen, ?_⟩
      -- a line that is not delivered is missed from now on
      have hbehind : s.context.call.sequence ≤ s.sequence := by
        split_ifs at hlast
        · exact hlast.le
        · exact hlast.le
      simp only [publish, hconcerns, hsequence]
      exact Nat.lt_succ_of_le hbehind

/-- A line is taken without a gap exactly if none was missed before it. -/
theorem faithful_publish_iff (hs : s.Faithful) :
    (s.publish env e).Faithful ↔
      (s.concerns e = true → s.context.call.restartEpoch ≠ 0 → s.missed = false) := by
  cases hconcerns : s.concerns e with
  | true =>
    obtain ⟨-, hprocessed, hgaps⟩ := deliver_of_concerns h hstays hport hepoch hsequence hconcerns
    have hsubscribed : (s.publish env e).processed = (s.publish env e).subscribed := by
      simp [publish, hconcerns, hprocessed, hs.processed]
    -- the first line after the start is never a gap
    have hgaps' : (s.publish env e).gaps = [] ↔
        ¬ (s.context.call.restartEpoch ≠ 0 ∧ s.missed = true) := by
      simp only [publish, hgaps, hs.gaps]
      split_ifs with hgap
      · simpa using hgap
      · simpa using hgap
    refine ⟨fun hf _ hne => ?_, fun hcontiguous => ⟨hsubscribed, hgaps'.mpr ?_⟩⟩
    · by_contra hmissed
      exact hgaps'.mp hf.gaps ⟨hne, by simpa using hmissed⟩
    · rintro ⟨hne, hmissed⟩
      rw [hcontiguous rfl hne] at hmissed
      exact Bool.false_ne_true hmissed
  | false =>
    obtain ⟨-, hprocessed, hgaps⟩ := deliver_of_not_concerns env hconcerns
    refine iff_of_true ⟨?_, ?_⟩ fun hnot => absurd hnot Bool.false_ne_true
    · simp [publish, hconcerns, hprocessed, hs.processed]
    · simp [publish, hgaps, hs.gaps]

end Publish

/-- No event moves the daemon past the lines of the port. -/
theorem located_step (h : s.Located ch) (event : FeedEvent ch) : (s.step ch event).Located ch := by
  cases event with
  | line raw commandId correlation monotonicMs env stays =>
    exact located_publish h stays rfl rfl rfl
  | register urc allocated => exact ⟨h.port, h.seen⟩
  | unregister port owner urcId => exact ⟨h.port, h.seen⟩
  | operation operation env stays elsewhere =>
    -- neither requests nor timers take lines
    have hposition := Context.operate_position (x := s.context) (h.port ▸ stays) (h.port ▸ elsewhere)
    simp only [position, Prod.mk.injEq] at hposition
    obtain ⟨hport, hseen, hlast⟩ := hposition
    refine ⟨hport.trans h.port, ?_⟩
    show (s.context.operate env operation).1.call.restartEpoch = 0 ∨ _ ∧
      if s.missed then (s.context.operate env operation).1.call.sequence < s.sequence
      else (s.context.operate env operation).1.call.sequence = s.sequence
    rw [hlast]
    exact hseen ▸ h.seen

/-- In a step nothing goes wrong exactly if the line comes right after one that was processed. -/
theorem faithful_step_iff (h : s.Located ch) (hs : s.Faithful) (event : FeedEvent ch) :
    (s.step ch event).Faithful ↔ s.Contiguous ch event := by
  cases event with
  | line raw commandId correlation monotonicMs env stays =>
    exact faithful_publish_iff h stays rfl rfl rfl hs
  | register urc allocated => exact iff_of_true ⟨hs.processed, hs.gaps⟩ trivial
  | unregister port owner urcId => exact iff_of_true ⟨hs.processed, hs.gaps⟩ trivial
  | operation operation env stays elsewhere => exact iff_of_true ⟨hs.processed, hs.gaps⟩ trivial

theorem located_start (ch : Channel) (x : Context) (urcs : List UrcRegistration) (sequence : ℕ)
    (seen : Bool) : (start ch x urcs sequence seen).Located ch := by
  cases seen with
  | false => exact ⟨rfl, .inl rfl⟩
  | true => exact ⟨rfl, .inr ⟨rfl, rfl⟩⟩

/-- **No gap is found exactly in the runs in which `voipd` is told of all lines from the first one
to the last one it is told of.**  In any case it processes all lines that are meant for it. -/
theorem no_gap_iff (ch : Channel) (x : Context) (urcs : List UrcRegistration) (sequence : ℕ)
    (seen : Bool) (events : List (FeedEvent ch)) :
    Throughout (step ch) Faithful (start ch x urcs sequence seen) events ↔
      Along (step ch) (Contiguous ch) (start ch x urcs sequence seen) events := by
  apply throughout_iff_along (Located ch)
  · exact located_start ch x urcs sequence seen
  · exact fun _ event _ h => located_step h event
  · exact ⟨rfl, rfl⟩
  · exact fun _ event _ h hs => faithful_step_iff h hs event

/-- A port that `voipd` has selected, in its first epoch. -/
def ttyChannel : Channel := ⟨ascii "/dev/ttyUSB2", 1, by decide, by decide⟩

theorem stays_working (port : Text) : (Surroundings.working port).Stays port :=
  fun _ h => (Option.some.inj h).symm

/-- A line of the port while every command runs. -/
def ttyLine (raw : String) (commandId : ℕ) (correlation : Correlation) : FeedEvent ttyChannel :=
  .line (ascii raw) commandId correlation 0 (fun _ => .working ttyChannel.port)
    fun _ => stays_working _

/-- A short message arrives between the answer to a command and an incoming call. -/
def messageThenCall : List (FeedEvent ttyChannel) :=
  [.operation (.setEnabled true) (.working ttyChannel.port) (stays_working _) trivial,
    .register ⟨ttyChannel.port, ascii "qmodem.sms", ascii "sms-new", ascii "+CMTI:"⟩ true,
    .register ⟨ttyChannel.port, voipOwner, ascii "ring", ascii "RING"⟩ true,
    ttyLine "OK" 1 .terminal, ttyLine "+CMTI: \"SM\",3" 0 .idle, ttyLine "RING" 0 .idle]

/-- The call is taken for a gap, and the daemon recovers instead of ringing. -/
theorem messageThenCall_not_faithful :
    ¬ Throughout (step ttyChannel) Faithful (start ttyChannel .initial [] 0 false) messageThenCall := by
  intro h
  have hrun : (run (step ttyChannel) (start ttyChannel .initial [] 0 false) messageThenCall).gaps = [3] ∧
      (run (step ttyChannel) (start ttyChannel .initial [] 0 false)
        messageThenCall).context.call.state = .recovering := by
    decide +kernel
  have hgaps := h.last.gaps
  exact absurd hgaps (by decide)

end Feed

end QModem.Voip
