import QModem.Lib.Run
import QModem.Voip.Position

/-!
# Switching the Port

When commands go to another port, lines of the old port are ignored, and the first line of the new
one is taken, whatever its number.  There is one exception: a gap in the lines makes the daemon send
a command while it handles the line behind the gap.  If the port is switched there, the number of
this line is noted for the new port.

## Main results

- `PortWatch.accepted_iff`: a run accepts the first line of every new port exactly if after a switch
  inside a gap it is newer than the line behind the gap
-/

namespace QModem.Voip

open Lib
open At (Text)

/-- What is known of the port that is selected: a line of it has arrived, it was switched to and no
line has arrived since, or it was switched to while the line behind a gap was handled. -/
inductive Switch where
  | settled
  | clean
  | inGap (epoch sequence : ℕ)
  deriving DecidableEq

/-- The daemon, watched for switches of the port. -/
structure PortWatch where
  context : Context
  switch : Switch

namespace PortWatch

/-- How an operation switches the port. -/
def switched (c : Call) : Operation → Switch
  | .line l => if c.gap l then .inGap l.epoch l.sequence else .clean
  | _ => .clean

/-- A line of the selected port arrives. -/
def arrives (c : Call) : Operation → Bool
  | .line l => c.enabled && l.port = c.atPort
  | _ => false

def step (w : PortWatch) (event : Surroundings × Operation) : PortWatch :=
  let y := (w.context.operate event.1 event.2).1
  { context := y
    switch :=
      if y.call.atPort ≠ w.context.call.atPort then switched w.context.call event.2
      else if arrives w.context.call event.2 then .settled
      else w.switch }

/-- A line of another port has no effect, and the first line of a new port is accepted. -/
def Accepted (w : PortWatch) (event : Surroundings × Operation) : Prop :=
  ∀ l, event.2 = .line l →
    (l.port ≠ w.context.call.atPort →
      (w.context.operate event.1 event.2).1.call = w.context.call ∧
        (w.context.operate event.1 event.2).1.outputs = w.context.outputs) ∧
    (w.switch ≠ .settled → arrives w.context.call event.2 = true →
      (w.context.operate event.1 event.2).2 = 0)

/-- The first line of a port that was switched to behind a gap is newer than the line there. -/
def Careful (w : PortWatch) (event : Surroundings × Operation) : Prop :=
  ∀ l epoch sequence, event.2 = .line l → arrives w.context.call event.2 = true →
    w.switch = .inGap epoch sequence →
      epoch = 0 ∨ epoch < l.epoch ∨ l.epoch = epoch ∧ sequence < l.sequence

/-- The numbers that the daemon has noted for a new port. -/
def notes : Switch → Text × ℕ × ℕ → Prop
  | .settled, _ => True
  | .clean, (port, epoch, _) => port ≠ [] ∧ epoch = 0
  | .inGap epoch sequence, (port, epoch', sequence') =>
    port ≠ [] ∧ epoch' = epoch ∧ sequence' = sequence

def Noted (w : PortWatch) : Prop := notes w.switch w.context.call.position

variable {w : PortWatch} {env : Surroundings} {l : Line} {operation : Operation}

theorem arrives_of_taken (h : w.context.call.takes l = true) :
    arrives w.context.call (.line l) = true := by
  simp only [Call.takes, Call.hears, Bool.and_eq_true, decide_eq_true_eq] at h
  simp [arrives, h.1, h.2.1.1.2]

/-- Where the last line seen stays, so does what is noted. -/
theorem noted_of_same (h : w.Noted)
    (hsame : (w.context.operate env operation).1.call.position = w.context.call.position) :
    (w.step (env, operation)).Noted := by
  have hport := Call.atPort_of_position hsame
  dsimp only [Noted, step]
  rw [hsame, if_neg (not_not.mpr hport)]
  split
  · trivial
  · exact h

/-- A port that was switched to has no line yet. -/
theorem noted_of_moved {port : Text} (hother : w.context.call.atPort ≠ port) (hnil : port ≠ [])
    (hmoved : (w.context.operate env operation).1.call.position = (port, 0, 0))
    (hclean : switched w.context.call operation = .clean) : (w.step (env, operation)).Noted := by
  have hport : (w.context.operate env operation).1.call.atPort = port := congrArg Prod.fst hmoved
  dsimp only [Noted, step]
  rw [hmoved, hclean, if_pos (hport ▸ hother.symm)]
  exact ⟨hnil, rfl⟩

/-- A port that is switched to in a gap has the numbers of the line. -/
theorem noted_of_gap (htaken : w.context.call.takes l = true) (hgap : w.context.call.gap l = true) :
    (w.step (env, .line l)).Noted := by
  have hposition : (w.context.operate env (.line l)).1.call.position =
      ((w.context.call.resolve env).atPort, l.epoch, l.sequence) :=
    Context.line_position_of_gap (x := { w.context with commandFailed := false }) env htaken hgap
  have hport : (w.context.operate env (.line l)).1.call.atPort = (w.context.call.resolve env).atPort :=
    congrArg Prod.fst hposition
  dsimp only [Noted, step]
  rw [hposition, hport, arrives_of_taken htaken]
  split
  · -- the command has selected another port
    rename_i hother
    have hnil : (w.context.call.resolve env).atPort ≠ [] := by
      obtain hsame | ⟨port, -, -, hnil, hmoved⟩ :=
        Call.resolve_position_cases env w.context.call
      · exact absurd (Call.atPort_of_position hsame) hother
      · exact (congrArg Prod.fst hmoved).trans_ne hnil
    rw [switched, if_pos hgap]
    exact ⟨hnil, rfl, rfl⟩
  · trivial

/-- No line spoils the numbers that were noted for the port. -/
theorem noted_line (env : Surroundings) (l : Line) (h : w.Noted) : (w.step (env, .line l)).Noted := by
  cases htaken : w.context.call.takes l with
  | false =>
    apply noted_of_same h
    rw [Context.operate_of_not_taken env htaken]
  | true =>
    -- after a gap the port is switched before the numbers of the line are noted
    cases hgap : w.context.call.gap l with
    | true => exact noted_of_gap htaken hgap
    | false =>
      obtain hline | ⟨port, -, hother, hnil, hmoved⟩ :=
        Context.line_position_of_no_gap (x := { w.context with commandFailed := false }) env htaken hgap
      · have hport : (w.context.operate env (.line l)).1.call.atPort = w.context.call.atPort :=
          congrArg Prod.fst hline
        dsimp only [Noted, step]
        rw [if_neg (not_not.mpr hport), arrives_of_taken htaken]
        trivial
      · exact noted_of_moved hother hnil hmoved (by simp [switched, hgap])

/-- Without a line a port that is switched to has no numbers yet. -/
theorem noted_other (env : Surroundings) (hline : ∀ l, operation ≠ .line l) (h : w.Noted) :
    (w.step (env, operation)).Noted := by
  have hclean : switched w.context.call operation = .clean := by
    cases operation with
    | line l => exact absurd rfl (hline l)
    | _ => rfl
  obtain (hsame | hsent) | ⟨port, -, hother, hnil, hmoved⟩ :=
    Context.operate_position_cases (x := w.context) env hline
  · exact noted_of_same h hsame
  · obtain hsame | ⟨port, -, hother, hnil, hmoved⟩ := Call.resolve_position_cases env w.context.call
    · exact noted_of_same h (hsent.trans hsame)
    · exact noted_of_moved hother hnil (hsent.trans hmoved) hclean
  · exact noted_of_moved hother hnil hmoved hclean

theorem noted_step (event : Surroundings × Operation) (h : w.Noted) : (w.step event).Noted := by
  obtain ⟨env, operation⟩ := event
  by_cases hline : ∃ l, operation = .line l
  · obtain ⟨l, rfl⟩ := hline
    exact noted_line env l h
  · exact noted_other env (fun l hl => hline ⟨l, hl⟩) h

/-- A line is accepted exactly if it is taken. -/
theorem operate_result (env : Surroundings) (x : Context) (l : Line) :
    (x.operate env (.line l)).2 = 0 ↔ x.call.takes l = true := by
  dsimp only [Context.operate, Context.line, Call.takes]
  split_ifs with henabled hhears
  · simp_all
  · simp_all
  · simp_all

/-- The line of another port is not taken. -/
theorem ignored_of_other (env : Surroundings) (h : l.port ≠ w.context.call.atPort) :
    (w.context.operate env (.line l)).1.call = w.context.call ∧
      (w.context.operate env (.line l)).1.outputs = w.context.outputs := by
  have hnot : w.context.call.takes l = false := by simp [Call.takes, Call.hears, h.symm]
  rw [Context.operate_of_not_taken env hnot]
  exact ⟨rfl, rfl⟩

/-- On a new port the first line is taken exactly if it is newer than what was noted for it. -/
theorem first_taken_iff (h : w.Noted) (harrives : arrives w.context.call (.line l) = true) :
    (w.switch ≠ .settled → w.context.call.takes l = true) ↔
      ∀ epoch sequence, w.switch = .inGap epoch sequence →
        epoch = 0 ∨ epoch < l.epoch ∨ l.epoch = epoch ∧ sequence < l.sequence := by
  obtain ⟨henabled, hport⟩ : w.context.call.enabled = true ∧ l.port = w.context.call.atPort := by
    simpa [arrives] using harrives
  unfold Noted at h
  cases hswitch : w.switch with
  | settled => exact iff_of_true (fun h => absurd rfl h) nofun
  | clean =>
    rw [hswitch] at h
    obtain ⟨hnil, hepoch⟩ : w.context.call.atPort ≠ [] ∧ w.context.call.restartEpoch = 0 := h
    exact iff_of_true (fun _ => by simp [Call.takes, Call.hears, henabled, hport, hnil, hepoch]) nofun
  -- the numbers of the old port are still those that the first line is compared with
  | inGap epoch sequence =>
    rw [hswitch] at h
    obtain ⟨hnil, hepoch, hsequence⟩ : w.context.call.atPort ≠ [] ∧
      w.context.call.restartEpoch = epoch ∧ w.context.call.sequence = sequence := h
    have htakes : w.context.call.takes l = true ↔
        epoch = 0 ∨ epoch < l.epoch ∨ l.epoch = epoch ∧ sequence < l.sequence := by
      simp only [Call.takes, Call.hears, henabled, hport, hnil, hepoch, hsequence, ne_eq,
        not_false_eq_true, decide_true, Bool.true_and, Bool.and_eq_true, Bool.not_eq_true',
        Bool.and_eq_false_iff, decide_eq_false_iff_not, not_not, not_lt, not_le]
      omega
    constructor
    · rintro htaken _ _ ⟨⟩
      exact htakes.mp (htaken (by simp))
    · exact fun hnewer _ => htakes.mpr (hnewer epoch sequence rfl)

/-- The first line of a port is accepted exactly if it is newer than what was noted. -/
theorem accepted_iff_careful (event : Surroundings × Operation) (h : w.Noted) :
    w.Accepted event ↔ w.Careful event := by
  obtain ⟨env, operation⟩ := event
  by_cases hline : ∃ l, operation = .line l
  · obtain ⟨l, rfl⟩ := hline
    constructor
    · rintro haccepted _ epoch sequence ⟨⟩ harrives
      refine (first_taken_iff h harrives).mp (fun hswitch => ?_) epoch sequence
      exact (operate_result env w.context l).mp ((haccepted l rfl).2 hswitch harrives)
    · rintro hcareful _ ⟨⟩
      refine ⟨ignored_of_other env, fun hswitch harrives => (operate_result env w.context l).mpr ?_⟩
      exact (first_taken_iff h harrives).mpr
        (fun epoch sequence => hcareful l epoch sequence rfl harrives) hswitch
  · exact iff_of_true (fun l hl => absurd ⟨l, hl⟩ hline) fun l _ _ hl => absurd ⟨l, hl⟩ hline

/-- **After every switch of the port, lines of the old port have no effect and the first line of the
new one is accepted**, exactly in the runs in which after a switch inside a gap this line is newer
than the line behind the gap. -/
theorem accepted_iff (x : Context) (events : List (Surroundings × Operation)) :
    Along step Accepted ⟨x, .settled⟩ events ↔ Along step Careful ⟨x, .settled⟩ events := by
  apply along_iff_along_of_step (p := Noted)
  · trivial
  · exact fun w event h => accepted_iff_careful event h
  · exact fun w event _ h => noted_step event h

/-- While the line behind a gap is handled, the port is found to be another one.  A call rings
there. -/
def switchInGap : List (Surroundings × Operation) :=
  let working := Surroundings.working (ascii "/dev/ttyUSB2")
  [(working, .setEnabled true), (working, .selectAtPort (ascii "/dev/ttyUSB2")),
    (working, .line (.ofTty 1 "OK" .terminal 1)),
    (.working (ascii "/dev/ttyUSB3"), .line (.ofTty 3 "OK" .terminal 2)),
    (working, .line { Line.ofTty 1 "RING" .idle 0 with port := ascii "/dev/ttyUSB3" })]

/-- The first line of the new port is ignored. -/
theorem switchInGap_not_accepted : ¬ Along step Accepted ⟨.initial, .settled⟩ switchInGap := by
  rintro ⟨-, -, -, -, hring, -⟩
  exact absurd ((hring _ rfl).2 (by decide +kernel) (by decide +kernel)) (by decide +kernel)

end PortWatch

end QModem.Voip
