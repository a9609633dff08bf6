import QModem.At.Leases

/-!
# Published Line Events

`publish_line_event` of `line_events.c` and the URC registrations of `control.c` in
`ubus_at_daemon`. Every line is published once as `qmodem.at.line`.  A line that belongs to no
command is published once more as `qmodem.at.urc` for each registration whose port and beginning it
has.

## Main results

- `mem_publish_urc`: an owner is told of a line exactly if it has registered a beginning of it
-/

namespace QModem.At

open Lib List

/-! ## Registrations -/

/-- `at_urc_registration_t` -/
structure UrcRegistration where
  port : Text
  owner : Text
  urcId : Text
  linePrefix : Text
  deriving DecidableEq

/-- `MAX_PREFIX_SIZE` -/
def maxPrefixSize : ℕ := 64

/-- The loop of `at_urc_register` over the registrations, and whether it has found one to change. -/
def replaceUrc (new : UrcRegistration) : List UrcRegistration → List UrcRegistration × Bool
  | [] => ([], false)
  | urc :: rest =>
    if urc.owner = new.owner && urc.urcId = new.urcId then
      -- on another port it is unlinked, and the loop goes on
      if urc.port ≠ new.port then replaceUrc new rest
      else ({ urc with linePrefix := new.linePrefix } :: rest, true)
    else (urc :: (replaceUrc new rest).1, (replaceUrc new rest).2)

/-- `at_urc_register`; `allocated` says that `calloc` succeeds. -/
def urcRegister (urcs : List UrcRegistration) (new : UrcRegistration) (allocated : Bool) :
    List UrcRegistration × ℤ :=
  if !validComponent new.port maxPortPathSize || !validComponent new.owner 64 ||
      !validComponent new.urcId 64 || !validComponent new.linePrefix maxPrefixSize then (urcs, -1)
  else
    let (changed, found) := replaceUrc new urcs
    if found then (changed, 0)
    else if !allocated then (changed, -2)
    else (new :: changed, 0)

/-- `at_urc_unregister` -/
def urcUnregister (port owner urcId : Text) : List UrcRegistration → List UrcRegistration × ℤ
  | [] => ([], -1)
  | urc :: rest =>
    if urc.port = port && urc.owner = owner && urc.urcId = urcId then (rest, 0)
    else (urc :: (urcUnregister port owner urcId rest).1, (urcUnregister port owner urcId rest).2)

/-! ## Messages -/

/-- `at_correlation_name` -/
def Correlation.name : Correlation → Text
  | idle => ascii "idle"
  | response => ascii "response"
  | terminal => ascii "terminal"
  | ambiguous => ascii "ambiguous"

/-- What is sent on the bus: `qmodem.at.line` and `qmodem.at.urc`. -/
inductive Message where
  | line (event : LineEvent)
  | urc (owner urcId : Text) (event : LineEvent)
  deriving DecidableEq

def UrcRegistration.wants (urc : UrcRegistration) (event : LineEvent) : Bool :=
  urc.port = event.port && urc.linePrefix.isPrefixOf event.line

/-- `publish_line_event` -/
def publishLineEvent (urcs : List UrcRegistration) (event : LineEvent) : List Message :=
  .line event ::
    if event.correlation ≠ .idle then []
    else (urcs.filter (·.wants event)).map fun urc => .urc urc.owner urc.urcId event

/-- An owner is told of a line that belongs to no command exactly if it has registered a beginning
of it for the port. -/
theorem mem_publish_urc {urcs : List UrcRegistration} {event : LineEvent} {owner : Text} :
    (∃ urcId, Message.urc owner urcId event ∈ publishLineEvent urcs event) ↔
      event.correlation = .idle ∧ ∃ urc ∈ urcs, urc.owner = owner ∧ urc.wants event = true := by
  unfold publishLineEvent
  by_cases hidle : event.correlation = .idle
  · rw [if_neg (not_not.mpr hidle)]
    constructor
    · rintro ⟨urcId, hmem⟩
      -- the first message goes to everyone, the others to those who have registered
      obtain hline | hurc := mem_cons.mp hmem
      · cases hline
      · obtain ⟨urc, hwanted, heq⟩ := mem_map.mp hurc
        obtain ⟨hregistered, hwants⟩ := mem_filter.mp hwanted
        cases heq
        exact ⟨hidle, urc, hregistered, rfl, hwants⟩
    · rintro ⟨-, urc, hurc, rfl, hwants⟩
      refine ⟨urc.urcId, mem_cons_of_mem _ (mem_map.mpr ?_)⟩
      exact ⟨urc, mem_filter.mpr ⟨hurc, hwants⟩, rfl⟩
  · simp [hidle]

/-- All messages are about the line. -/
def Message.event : Message → LineEvent
  | line event => event
  | urc _ _ event => event

theorem event_of_mem_publish {urcs : List UrcRegistration} {event : LineEvent} {m : Message}
    (h : m ∈ publishLineEvent urcs event) : m.event = event := by
  unfold publishLineEvent at h
  obtain rfl | h := mem_cons.mp h
  · rfl
  · split at h
    · exact absurd h not_mem_nil
    · obtain ⟨urc, -, rfl⟩ := mem_map.mp h
      rfl

end QModem.At
