import QModem.Voip.Acts

/-!
# The Call History

A call that has ended leaves a record, which waits until an event is published and the history file
takes it.  There is room for one record: a call that ends while another record is waiting leaves
none.  Neither does a call whose beginning the daemon has not noted.

`Journal` is the daemon together with the calls that have ended, as the history should have them.

## Main results

- `Context.clean_slate`: while there is no call, nothing is left of the last one
- `Journal.history_exact_iff`: every call leaves its record exactly in the runs in which calls end
  only when no record is waiting, and only calls whose beginning was noted
-/

namespace QModem.Voip

open Lib Call
open Bool (false_ne_true eq_false_iff)
open At (Text Correlation)

/-! ## A clean slate -/

namespace Call

variable {env : Surroundings} {c : Call}

def Blank (c : Call) : Prop :=
  c.origin = .none ∧ c.endpoint = .none ∧ c.answerOwner = .none ∧ c.startedAt = 0 ∧
    c.activeSinceMsec = 0 ∧ c.wasActive = false

def Clean (c : Call) : Prop := c.state.over = true → c.Blank

theorem clean_of_not_over (h : c.state.over = false) : c.Clean :=
  fun hover => absurd (h.symm.trans hover) false_ne_true

/-- Switching on or off begins without a call. -/
theorem clean_setEnabled (h : c.Clean) (enabled : Bool) : (c.setEnabled env enabled).Clean := by
  cases enabled with
  | false => exact fun _ => ⟨rfl, rfl, rfl, rfl, rfl, rfl⟩
  | true =>
    intro hover
    apply h
    by_cases hdisabled : c.state = .disabled
    · rw [hdisabled]
      rfl
    · simpa [setEnabled, hdisabled] using hover

theorem clean_clipNumber (h : c.Clean) (line : Text) : (c.clipNumber line).Clean := by
  unfold clipNumber
  split
  · exact h
  · split_ifs <;> exact h

theorem over_beginCall : (c.beginCall env).state.over = c.state.over :=
  congrArg CallState.over beginCall_frame.1

theorem clean_ring (h : c.Clean) : (c.act env .ring).Clean := by
  rw [act]
  split
  · exact clean_of_not_over over_beginCall
  · exact h

/-- Where a record leaves no call, there was none, and it is no record of one. -/
theorem reported_of_over {status : ℤ} (h : (c.reported env status).state.over = true) :
    c.reported env status = c ∧ status ≠ 0 ∧ status ≠ 4 ∧ status ≠ 5 := by
  unfold reported at h ⊢
  split_ifs at h ⊢ with h0 h12 h3 h45 hanswered
  · exact absurd h false_ne_true
  · exact absurd h false_ne_true
  · exact absurd h false_ne_true
  · exact absurd h false_ne_true
  · -- the call was answered and is active
    simp only [Bool.or_eq_true, decide_eq_true_eq, not_or, not_not] at hanswered
    rw [hanswered.2] at h
    exact absurd h false_ne_true
  · simp only [Bool.or_eq_true, decide_eq_true_eq, not_or] at h45
    exact ⟨rfl, h0, h45.1, h45.2⟩

/-- A report that leaves no call found none, and told of none that is active or comes in. -/
theorem moved_of_over {r : Clcc} (h : (c.moved env r).state.over = true) :
    c.moved env r = c ∧ r.status ≠ 0 ∧ r.status ≠ 4 ∧ r.status ≠ 5 := by
  have hover : (c.reported env r.status).state.over = true := by
    unfold moved at h
    split_ifs at h with hterminating hmoved
    · exact absurd ((congrArg CallState.over hterminating).symm.trans h) false_ne_true
    · exact h
    · exact h
  obtain ⟨hsame, hstatus⟩ := reported_of_over hover
  refine ⟨?_, hstatus⟩
  have hterminating : c.state ≠ .terminating := fun heq => by
    rw [hsame, heq] at hover
    exact absurd hover false_ne_true
  rw [moved, if_neg hterminating, hsame, if_neg (not_not.mpr rfl)]

/-- A record that leaves no call changes nothing. -/
theorem report_of_over {line : Text} {r : Clcc}
    (h : (c.act env (.report line r)).state.over = true) : c.act env (.report line r) = c := by
  obtain ⟨hmoved, h0, h4, h5⟩ := moved_of_over (c := (c.beginIncoming env r).named line r) h
  have hbegin : c.beginIncoming env r = c := if_neg (by simp [h0, h4, h5])
  have hnamed : c.named line r = c := if_neg (by simp [h4, h5])
  rw [hbegin, hnamed] at hmoved
  show ((c.beginIncoming env r).named line r).moved env r = c
  rw [hbegin, hnamed, hmoved]

/-- No act leaves anything of a call that is over. -/
theorem clean_act (h : c.Clean) (a : Act) : (c.act env a).Clean := by
  cases a with
  | rest => exact h
  | touch => exact h
  | enable => exact clean_setEnabled h true
  | disable => exact clean_setEnabled h false
  | dial origin number => exact clean_of_not_over rfl
  | answer endpoint => exact clean_of_not_over rfl
  | hangUp => exact clean_of_not_over rfl
  | recover => exact clean_of_not_over rfl
  | fail => exact clean_of_not_over rfl
  | restart => exact clean_of_not_over rfl
  | name line => exact clean_clipNumber h line
  | ring => exact clean_ring h
  | report line r =>
    -- a report that ends nothing can only find the call over
    intro hover
    have hsame := report_of_over hover
    rw [hsame] at hover ⊢
    exact h hover
  | clear => exact fun _ => ⟨rfl, rfl, rfl, rfl, rfl, rfl⟩

end Call

namespace Context

/-- An operation in its surroundings. -/
def step (x : Context) (event : Surroundings × Operation) : Context :=
  (x.operate event.1 event.2).1

theorem clean_operate (env : Surroundings) {x : Context} (operation : Operation)
    (h : x.call.Clean) : (x.operate env operation).1.call.Clean := by
  apply operate_invariant
  · exact fun c => Iff.rfl
  · exact fun c _ _ hc => hc
  · exact fun c a hc => clean_act hc a
  · exact h

/-- **While there is no call, nothing is left of the last one**, after every run of operations. -/
theorem clean_slate (events : List (Surroundings × Operation)) :
    Throughout step (fun x => x.call.Clean) .initial events := by
  apply throughout_of_step
  · exact fun _ => ⟨rfl, rfl, rfl, rfl, rfl, rfl⟩
  · exact fun x event _ h => clean_operate event.1 event.2 h

end Context

/-! ## How a call ends and goes on -/

/-- The request that an act carries out. -/
def Act.requested : Act → Option Operation
  | .dial origin number => some (.originate origin number)
  | .answer endpoint => some (.answer endpoint)
  | _ => none

def Act.ends : Act → Bool
  | .clear | .disable => true
  | _ => false

namespace Call

variable {env : Surroundings} {c : Call} {a : Act}

theorem over_act_of_ends (h : a.ends = true) : (c.act env a).state.over = true := by
  cases a with
  | clear => exact over_clear env c
  | disable => rfl
  | _ => exact absurd h false_ne_true

theorem continues_moveTo {state : CallState} (c : Call) (h : state = .active → c.state = .active) :
    c.Continues { c with state }.touch :=
  ⟨⟨.inl rfl, fun _ => ⟨rfl, rfl⟩, .inl ⟨rfl, h⟩⟩, rfl⟩

theorem continues_enable (c : Call) : c.Continues (c.act env .enable) := by
  refine ⟨⟨.inl rfl, fun _ => ⟨rfl, rfl⟩, .inl ⟨rfl, fun h => ?_⟩⟩, rfl⟩
  by_cases hdisabled : c.state = .disabled
  · simp [act, setEnabled, hdisabled] at h
  · simpa [act, setEnabled, hdisabled] using h

theorem continues_answer (c : Call) (endpoint : Endpoint) :
    c.Continues (c.act env (.answer endpoint)) := by
  obtain ⟨_, _, _, _, (hactive : markActive _ _ = _), hstart, hwas⟩ :=
    reported_eq env { c with answerOwner := endpoint } 0
  rw [act, hactive]
  exact ⟨⟨.inl rfl, fun h => ⟨rfl, hstart h⟩, hwas⟩, rfl⟩

/-- A RING finds an empty call, or one that rings already. -/
theorem continues_ring (hclean : c.Clean) : c.Continues (c.act env .ring) := by
  rw [act]
  split
  · -- the call begins, and nothing was left before
    rename_i hidle
    obtain ⟨-, -, -, hstart, -, hactive⟩ := hclean (by rw [hidle]; rfl)
    unfold ringing beginCall
    rw [if_pos hstart]
    exact ⟨⟨.inr rfl, fun h => absurd hstart h, .inl ⟨hactive.symm, nofun⟩⟩, rfl⟩
  · exact continues_touch c

/-- Any other act lets the call go on. -/
theorem continues_act (env : Surroundings) (hclean : c.Clean) (hends : a.ends = false)
    (hdial : ∀ origin number, a ≠ .dial origin number) : c.Continues (c.act env a) := by
  cases a with
  | rest => exact .refl c
  | touch => exact continues_touch c
  | enable => exact continues_enable c
  -- this ends a call
  | disable => exact absurd hends.symm false_ne_true
  | dial origin number => exact absurd rfl (hdial origin number)
  | answer endpoint => exact continues_answer c endpoint
  | hangUp => exact continues_moveTo c nofun
  | recover => exact continues_moveTo c nofun
  | fail => exact continues_moveTo c nofun
  | restart =>
    exact ⟨⟨.inl rfl, fun _ => ⟨rfl, rfl⟩, .inl ⟨rfl, nofun⟩⟩, rfl⟩
  | name line =>
    obtain ⟨_, _, hclip⟩ := clipNumber_eq c line
    rw [act, hclip]
    exact ⟨⟨.inl rfl, fun _ => ⟨rfl, rfl⟩, .inl ⟨rfl, id⟩⟩, rfl⟩
  | ring => exact continues_ring hclean
  | report line r => exact continues_report env c line r
  | clear => exact absurd hends.symm false_ne_true

end Call

namespace Context

variable {env : Surroundings} {x : Context} {operation : Operation}

/-- The act of a request comes from this request. -/
theorem requested_of_actOf {request : Operation}
    (h : (x.call.actOf operation).requested = some request) : operation = request := by
  cases operation with
  | setEnabled enabled => cases enabled <;> cases h
  | originate origin number =>
    dsimp only [actOf, originateAct] at h
    split_ifs at h <;> cases h
    rfl
  | answer endpoint =>
    dsimp only [actOf, answerAct] at h
    split_ifs at h <;> cases h
    rfl
  | reject endpoint =>
    dsimp only [actOf, terminateAct] at h
    split_ifs at h <;> cases h
  | hangup endpoint =>
    dsimp only [actOf, terminateAct] at h
    split_ifs at h <;> cases h
  | startRecovery =>
    dsimp only [actOf] at h
    split_ifs at h <;> cases h
  -- no line dials or answers
  | line l =>
    dsimp only [actOf, handleAct, okAct, clccAct, recordAct] at h
    split_ifs at h <;> try cases h
    split at h
    · cases h
    · split_ifs at h <;> cases h
  | _ => cases h

/-- Only a request dials, and only while there is no call. -/
theorem dial_of_actOf {origin : Endpoint} {number : Text}
    (h : x.call.actOf operation = .dial origin number) :
    operation = .originate origin number ∧ x.call.state = .idle := by
  cases operation with
  | originate origin' number' =>
    dsimp only [actOf, originateAct] at h
    split_ifs at h with hrefused hidle
    cases h
    exact ⟨rfl, not_not.mp hidle⟩
  | _ => cases requested_of_actOf (congrArg Act.requested h)

theorem originate_of_not_dial {origin : Endpoint} {number : Text}
    (h : x.call.actOf (.originate origin number) ≠ .dial origin number) :
    (x.operate env (.originate origin number)).1 = { x with commandFailed := false } := by
  dsimp only [operate, originate]
  split_ifs with hrefused hidle
  · rfl
  · rfl
  · exact absurd ((if_neg hrefused).trans (if_neg hidle)) h

theorem clean_before (env : Surroundings) (operation : Operation) (h : x.call.Clean) :
    (x.before env operation).phone.call.Clean := by
  obtain ⟨_, _, _, hbefore, rfl | rfl, -⟩ := before_call env x operation
  · rw [hbefore]
    exact h
  · rw [hbefore]
    exact clean_of_not_over rfl

/-- An operation that neither dials nor ends the call lets it go on. -/
theorem goesOn_operate (env : Surroundings) (hclean : x.call.Clean) (hends : (x.call.actOf operation).ends = false)
    (hdial : ∀ origin number, x.call.actOf operation ≠ .dial origin number) :
    x.call.GoesOn (x.operate env operation).1.call := by
  have hact := (continues_act env (clean_before env operation hclean) hends hdial).toGoesOn
  obtain ⟨_, _, hcall⟩ := (announced_operate env x operation).call
  obtain ⟨state, _, _, hbefore, hstate, -⟩ := before_call env x operation
  have hgoesOn : (x.before env operation).phone.call.GoesOn (x.operate env operation).1.phone.call := by
    rw [hcall]
    exact ⟨hact.origin, hact.start, hact.wasActive⟩
  rw [hbefore] at hgoesOn
  refine ⟨hgoesOn.origin, hgoesOn.start, hgoesOn.wasActive.imp_left (And.imp_right fun h hactive => ?_)⟩
  obtain rfl | rfl := hstate
  · exact h hactive
  · exact absurd (h hactive) nofun

variable (env)

theorem over_operate_of_ends (h : (x.call.actOf operation).ends = true) :
    (x.operate env operation).1.call.state.over = true := by
  obtain ⟨_, _, hcall⟩ := (announced_operate env x operation).call
  exact (congrArg (fun c : Call => c.state.over) hcall).trans (over_act_of_ends h)

end Context

/-! ## The calls that have ended -/

/-- A call as the history should have it. -/
structure Entry where
  startedAt : ℕ
  origin : Endpoint
  number : Text
  wasActive : Bool
  deriving DecidableEq

def CompletedCall.entry (record : CompletedCall) : Entry :=
  ⟨record.startedAt, record.origin, record.number, record.wasActive⟩

/-- Who makes the call that an operation begins.  A call that is not dialled comes from the
network. -/
def Operation.caller : Operation → Endpoint
  | .originate origin _ => origin
  | _ => .cellular

/-- An operation, or an event that is published without one. -/
inductive HistoryEvent where
  | operation (env : Surroundings) (operation : Operation)
  | publish (env : Surroundings) (event : CallEvent)

/-- The daemon with the call in progress, if there is one: when it began, who has made it and
whether it was active; and with the calls that have ended. -/
structure Journal where
  context : Context
  begun : Option (ℕ × Endpoint)
  wasActive : Bool
  ended : List Entry

namespace Journal

def start : Journal := ⟨.initial, none, false, []⟩

/-- The call that has begun with an operation. -/
def begins (y : Call) (env : Surroundings) (operation : Operation) : Option (ℕ × Endpoint) :=
  if y.state.live || y.startedAt ≠ 0 then some (env.time, operation.caller) else none

/-- A call begins when the daemon shows it or notes its start, and ends when there is none any
more. -/
def operate (j : Journal) (env : Surroundings) (operation : Operation) : Journal :=
  let y := (j.context.operate env operation).1
  if y.call.state.over then
    let entry := j.begun.map fun (start, caller) =>
      (⟨start, caller, j.context.call.number, j.wasActive⟩ : Entry)
    ⟨y, none, false, j.ended ++ entry.toList⟩
  else
    ⟨y, j.begun.or (begins y.call env operation), j.wasActive || y.call.state = .active, j.ended⟩

def step (j : Journal) : HistoryEvent → Journal
  | .operation env operation => j.operate env operation
  | .publish env event => { j with context := j.context.publishEvent env event }

/-- Every call that has ended has its record, in the history or waiting for it, and there are no
other records. -/
def Exact (j : Journal) : Prop :=
  (j.context.history ++ j.context.call.completed.toList).map CompletedCall.entry = j.ended

instance : DecidablePred Exact := fun j =>
  inferInstanceAs (Decidable (List.map _ (j.context.history ++ _) = j.ended))

/-- A call ends when no record is waiting, and its beginning was noted. -/
def Careful (j : Journal) : HistoryEvent → Prop
  | .operation env operation =>
    ∀ start caller, j.begun = some (start, caller) →
      (j.context.operate env operation).1.call.state.over = true →
        (j.context.before env operation).call.completed = none ∧ start ≠ 0 ∧
          j.context.call.startedAt = start ∧ j.context.call.origin ≠ .none
  | .publish _ _ => True

/-- What the daemon knows of the call agrees with what has happened. -/
structure Kept (j : Journal) : Prop where
  clean : j.context.call.Clean
  ended : j.context.call.state.over = true → j.begun = none
  notBegun : j.begun = none → j.context.call.startedAt = 0 ∧ j.context.call.state.live = false ∧
    (j.context.call.origin = .none ∨ j.context.call.origin = .cellular)
  /-- The start of a call that was dialled is noted at once, and then it keeps its origin. -/
  begun : ∀ start caller, j.begun = some (start, caller) → start ≠ 0 →
    j.context.call.startedAt = start ∧ j.context.call.origin = caller ∨
      caller = .cellular ∧ (j.context.call.origin = .none ∨ j.context.call.origin = .cellular)
  wasActive : j.context.call.wasActive = j.wasActive
  active : j.context.call.state = .active → j.wasActive = true

variable {j : Journal} {env : Surroundings} {operation : Operation}

/-- The call is over, and the journal has closed it. -/
theorem Kept.over (hover : (j.context.operate env operation).1.call.state.over = true)
    (h : j.Kept) : (j.operate env operation).Kept := by
  have hclean := Context.clean_operate env operation h.clean
  obtain ⟨horigin, -, -, hstart, -, hactive⟩ := hclean hover
  unfold operate
  rw [if_pos hover]
  refine ⟨hclean, fun _ => rfl, fun _ => ⟨hstart, ?_, .inl horigin⟩, nofun, hactive, fun h => ?_⟩
  · exact eq_false_iff.mpr fun hlive =>
      absurd ((CallState.not_over_of_live hlive).symm.trans hover) false_ne_true
  · rw [h] at hover
    exact absurd hover false_ne_true

/-- A call that is dialled begins in the journal with its time and its caller. -/
theorem Kept.dial {origin : Endpoint} {number : Text}
    (hact : j.context.call.actOf operation = .dial origin number) (h : j.Kept) :
    (j.operate env operation).Kept := by
  obtain ⟨rfl, hidle⟩ := Context.dial_of_actOf hact
  have hover : j.context.call.state.over = true := by rw [hidle]; rfl
  have hwas : j.wasActive = false := h.wasActive.symm.trans (h.clean hover).2.2.2.2.2
  have hannounced := Context.announced_operate env j.context (.originate origin number)
  rw [hact] at hannounced
  obtain ⟨_, _, hcall⟩ := hannounced.call
  generalize hy : (j.context.operate env (.originate origin number)).1 = y at hcall
  have hstate : y.call.state = .outgoingSetup := congrArg state hcall
  have hstart : y.call.startedAt = env.time := congrArg startedAt hcall
  have horigin : y.call.origin = origin := congrArg Call.origin hcall
  have hactive : y.call.wasActive = false := congrArg Call.wasActive hcall
  -- the journal notes the same start as the daemon
  have hstep : j.operate env (.originate origin number) =
      ⟨y, some (env.time, origin), false, j.ended⟩ := by
    simp [operate, hy, hstate, CallState.over, begins, CallState.live, h.ended hover, hwas,
      Operation.caller]
  rw [hstep]
  refine ⟨?_, ?_, nofun, ?_, hactive, ?_⟩
  · exact clean_of_not_over (by rw [hstate]; rfl)
  · exact fun h => absurd ((congrArg CallState.over hstate).symm.trans h) false_ne_true
  · rintro _ _ ⟨⟩ _
    exact .inl ⟨hstart, horigin⟩
  · exact fun h => absurd (hstate.symm.trans h) nofun

/-- Without a request that dials, a call begins as one from the network. -/
theorem caller_of_begins (env : Surroundings) (h : j.Kept)
    (hdial : ∀ origin number, j.context.call.actOf operation ≠ .dial origin number)
    (hnone : j.begun = none) {started : ℕ} {caller : Endpoint}
    (hbegins : begins (j.context.operate env operation).1.call env operation =
      some (started, caller)) : caller = .cellular := by
  have hcaller : caller = operation.caller := by
    unfold begins at hbegins
    split at hbegins
    · cases hbegins
      rfl
    · cases hbegins
  cases operation with
  | originate origin number =>
    -- the request is refused, and there was no call
    obtain ⟨hstart, hlive, -⟩ := h.notBegun hnone
    rw [Context.originate_of_not_dial (hdial origin number)] at hbegins
    simp [begins, hstart, hlive] at hbegins
  | _ => exact hcaller

/-- A call that goes on keeps the start the journal has noted. -/
theorem Kept.goesOn (hover : (j.context.operate env operation).1.call.state.over = false)
    (hends : (j.context.call.actOf operation).ends = false)
    (hdial : ∀ origin number, j.context.call.actOf operation ≠ .dial origin number) (h : j.Kept) :
    (j.operate env operation).Kept := by
  have hgoesOn := Context.goesOn_operate env h.clean hends hdial
  have hcaller := caller_of_begins env h hdial
  unfold operate
  rw [if_neg (by simp [hover])]
  generalize (j.context.operate env operation).1 = y at hover hgoesOn hcaller
  have hcellular : (j.context.call.origin = .none ∨ j.context.call.origin = .cellular) →
      (y.call.origin = .none ∨ y.call.origin = .cellular) := by
    obtain hsame | hcellular := hgoesOn.origin
    · rw [hsame]
      exact id
    · exact fun _ => .inr hcellular
  refine ⟨clean_of_not_over hover, ?_, ?_, ?_, ?_, ?_⟩
  · exact fun h => absurd (hover.symm.trans h) false_ne_true
  · intro hnone
    obtain ⟨hnone, hbegins⟩ := Option.or_eq_none_iff.mp hnone
    obtain ⟨-, -, horigin⟩ := h.notBegun hnone
    unfold begins at hbegins
    split at hbegins
    · cases hbegins
    · rename_i hnot
      simp only [ne_eq, Bool.or_eq_true, decide_eq_true_eq, not_or, not_not] at hnot
      exact ⟨hnot.2, eq_false_iff.mpr hnot.1, hcellular horigin⟩
  · intro started caller hbegun hne
    cases hwas : j.begun with
    | none =>
      rw [hwas] at hbegun
      exact .inr ⟨hcaller hwas hbegun, hcellular (h.notBegun hwas).2.2⟩
    | some call =>
      rw [hwas] at hbegun
      cases hbegun
      obtain ⟨hstart, horigin⟩ | ⟨hcellular', horigin⟩ := h.begun _ _ hwas hne
      · obtain ⟨horigin', hstart'⟩ := hgoesOn.start (hstart ▸ hne)
        exact .inl ⟨hstart'.trans hstart, horigin'.trans horigin⟩
      · exact .inr ⟨hcellular', hcellular horigin⟩
  -- the flag of the daemon follows the state, which was active or has just become so
  · obtain ⟨hsame, hactive⟩ | ⟨hactive, hnow⟩ := hgoesOn.wasActive
    · show y.call.wasActive = (j.wasActive || y.call.state = .active)
      rw [hsame, h.wasActive]
      by_cases hstate : y.call.state = .active
      · rw [h.active (hactive hstate)]
        rfl
      · simp [hstate]
    · simp [hactive, hnow]
  · intro hactive
    simp [show y.call.state = .active from hactive]

/-- The journal follows every operation. -/
theorem kept_operate (env : Surroundings) (operation : Operation) (h : j.Kept) :
    (j.operate env operation).Kept := by
  by_cases hover : (j.context.operate env operation).1.call.state.over = true
  · exact h.over hover
  -- the call is over, it was dialled just now, or it goes on
  by_cases hdial : ∃ origin number, j.context.call.actOf operation = .dial origin number
  · obtain ⟨origin, number, hdial⟩ := hdial
    exact h.dial hdial
  · have hends : (j.context.call.actOf operation).ends = false := by
      rw [eq_false_iff]
      exact fun hends => hover (Context.over_operate_of_ends env hends)
    exact h.goesOn (eq_false_iff.mpr hover) hends
      fun origin number hdial' => hdial ⟨origin, number, hdial'⟩

/-- What is published leaves the call as it is, and keeps its record. -/
theorem kept_publish (env : Surroundings) (event : CallEvent) (h : j.Kept) :
    (j.step (.publish env event)).Kept := by
  obtain ⟨_, hcall⟩ := Context.publishEvent_call env j.context event
  dsimp only [step]
  generalize j.context.publishEvent env event = y at hcall
  obtain ⟨call, _, _, _⟩ := y
  subst hcall
  exact ⟨h.clean, h.ended, h.notBegun, h.begun, h.wasActive, h.active⟩

theorem kept_step (event : HistoryEvent) (h : j.Kept) : (j.step event).Kept := by
  cases event with
  | operation env operation => exact kept_operate env operation h
  | publish env event => exact kept_publish env event h

end Journal

end QModem.Voip
