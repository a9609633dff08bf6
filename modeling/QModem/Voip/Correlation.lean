import QModem.Voip.Reconcile

/-!
# Whose Answer It Is

Several clients send commands to the port, and the lines of their answers carry the number of the
command.  The daemon does not know the number of its own `AT+CLCC`: it takes it from the first
record of an answer.  Until then the last line of any command ends what is outstanding.

`Dispatch` is the daemon with the number that its last `AT+CLCC` really has.

## Main results

- `Context.untouched_iff`: when the last line of a command leaves the reconciliation alone
- `Dispatch.correlation_iff`: the runs in which this is so for every command but the `AT+CLCC`
-/

namespace QModem.Voip

open Lib
open At (Text Correlation)

namespace Call

/-- The state, the lists that have missed the call, and whether an answer is outstanding. -/
def reconciliation (c : Call) : CallState × ℕ × Bool :=
  (c.state, c.reconcileVoiceMisses, c.reconcilePending)

/-- A line at the end of a command is not taken for the end of the answer that is
outstanding.  After a gap it is, but what it ends can be what was there before. -/
def Untouched (c : Call) (l : Line) : Prop :=
  c.takes l = false ∨
    c.gap l = false ∧ c.endsReconcile l = false ∨
    c.gap l = true ∧
      (l.raw = ascii "OK" ∧ c.reconciliation = (.idle, 0, false) ∨
        Context.isError l.raw = true ∧ c.state = .recovering ∧ c.reconcilePending = false)

end Call

structure Line.Ends (l : Line) : Prop where
  terminal : l.correlation = .terminal
  numbered : l.commandId ≠ 0
  text : l.raw = ascii "OK" ∨ Context.isError l.raw = true

namespace Context

variable {env : Surroundings} {x : Context} {l : Line}

variable (env)

/-- A line that is taken is handled by the call that the gap check has left. -/
theorem operate_of_taken (h : x.call.takes l = true) :
    ∃ y : Context, (x.operate env (.line l)).1 = y.handle env l ∧
      y.call.reconciliation = (x.call.gapped l).reconciliation ∧
      y.call.endsReconcile l = (x.call.gapped l).endsReconcile l ∧ y.call.enabled = true := by
  let y : Context := { x with commandFailed := false }
  obtain ⟨_, _, _, _, _, _, hcall⟩ := checkGap_call env y l
  have henabled : (x.call.gapped l).enabled = true := by
    unfold Call.gapped
    split <;> exact (Bool.and_eq_true_iff.mp h).1
  refine ⟨(y.checkGap env l).accept l, line_of_taken h, ?_⟩
  dsimp only [accept, withCall]
  rw [hcall]
  exact ⟨rfl, rfl, henabled⟩

/-- After `OK` nothing is outstanding. -/
theorem reconcileOk_pending (x : Context) : (x.reconcileOk env).call.reconcilePending = false := by
  unfold reconcileOk
  dsimp only
  split_ifs
  · rfl
  all_goals
    rw [notify_reconcilePending]
    rfl

/-- `OK` ends a recovery without a call. -/
theorem reconcileOk_of_recovering (henabled : x.call.enabled = true)
    (hstate : x.call.state = .recovering) :
    (x.reconcileOk env).call.reconciliation = (.idle, 0, false) := by
  have hmissed : x.call.missed.state = .recovering := hstate
  unfold reconcileOk
  simp only [hstate, hmissed, CallState.live, reduceCtorEq, decide_false, Bool.and_false,
    Bool.false_and, Bool.false_eq_true, if_false]
  obtain ⟨_, hcall⟩ :=
    notify_call env (x.withCall (x.call.missed.clear env).settled) .reconcileIdle
  rw [hcall]
  show ((if x.call.enabled then .idle else .disabled : CallState), 0, false) = _
  rw [henabled]
  rfl

/-- The last line of an answer concerns the reconciliation it belongs to. -/
theorem handle_of_ends (h : l.Ends) :
    x.handle env l =
      if x.call.endsReconcile l then
        if l.raw = ascii "OK" then x.reconcileOk env
        else x.withCall { x.call.settled with idlePoll := false }
      else x := by
  obtain hok | herror := h.text
  · rw [handle_of_ok env x hok, if_pos hok]
  · have hok : l.raw ≠ ascii "OK" := fun hok => by
      rw [hok] at herror
      exact absurd herror (by decide)
    rw [handle_of_error env x herror, if_neg hok]

/-- Without a gap the line changes something exactly if it ends the answer that is outstanding. -/
theorem untouched_of_no_gap (h : l.Ends) (htakes : x.call.takes l = true)
    (hgap : x.call.gap l = false) :
    (x.operate env (.line l)).1.call.reconciliation = x.call.reconciliation ↔
      x.call.endsReconcile l = false := by
  obtain ⟨y, hline, hsame, hends, -⟩ := operate_of_taken env htakes
  rw [Call.gapped_of_no_gap hgap] at hsame hends
  rw [hline, handle_of_ends env h, hends]
  -- whatever else the line does, an answer that it ends is not outstanding any more
  cases hreconcile : x.call.endsReconcile l with
  | false => exact iff_of_true hsame rfl
  | true =>
    refine iff_of_false (fun hkept => ?_) nofun
    have hpending : x.call.reconcilePending = true := by
      simp only [Call.endsReconcile, Bool.and_eq_true] at hreconcile
      exact hreconcile.1.1.1
    have hsettled : x.call.reconcilePending = false := by
      refine (congrArg (·.2.2) hkept).symm.trans ?_
      rw [if_pos rfl]
      split
      · exact reconcileOk_pending env y
      · rfl
    exact absurd (hsettled.symm.trans hpending) Bool.false_ne_true

/-- After a gap it ends the recovery that the gap has begun. -/
theorem untouched_of_gap (h : l.Ends) (htakes : x.call.takes l = true)
    (hgap : x.call.gap l = true) :
    (x.operate env (.line l)).1.call.reconciliation = x.call.reconciliation ↔
      l.raw = ascii "OK" ∧ x.call.reconciliation = (.idle, 0, false) ∨
        isError l.raw = true ∧ x.call.state = .recovering ∧ x.call.reconcilePending = false := by
  obtain ⟨y, hline, hsame, hends, henabled⟩ := operate_of_taken env htakes
  -- the gap has just asked for a list whose number is not known, so any command can end it
  have hreconcile : (x.call.gapped l).endsReconcile l = true := by
    simp [Call.gapped_of_gap hgap, Call.recover, Call.endsReconcile, h.terminal, h.numbered]
  rw [Call.gapped_of_gap hgap] at hsame
  have hstate : y.call.state = .recovering := congrArg Prod.fst hsame
  rw [hline, handle_of_ends env h, hends, hreconcile, if_pos rfl]
  obtain hok | herror := h.text
  · have hnotError : isError l.raw = false := by
      rw [hok]
      decide
    rw [if_pos hok, reconcileOk_of_recovering env henabled hstate, hnotError]
    exact ⟨fun hsame => .inl ⟨hok, hsame.symm⟩, fun hor => (hor.resolve_right nofun).2.symm⟩
  · have hok : l.raw ≠ ascii "OK" := fun hok => by
      rw [hok] at herror
      exact absurd herror (by decide)
    have hmisses : y.call.reconcileVoiceMisses = x.call.reconcileVoiceMisses :=
      congrArg (·.2.1) hsame
    have hsettled : (y.withCall { y.call.settled with idlePoll := false }).call.reconciliation =
        (.recovering, x.call.reconcileVoiceMisses, false) := by
      rw [← hstate, ← hmisses]
      rfl
    rw [if_neg hok, hsettled]
    refine ⟨fun hsame => .inr ⟨herror, ?_, ?_⟩, fun hor => ?_⟩
    · exact (congrArg Prod.fst hsame).symm
    · exact (congrArg (·.2.2) hsame).symm
    · obtain ⟨hok', -⟩ | ⟨-, hstate', hpending⟩ := hor
      · exact absurd hok' hok
      · rw [← hstate', ← hpending]
        rfl

/-- A line at the end of a command leaves the reconciliation alone exactly if it is not taken for
the end of the answer, or ends what was there before. -/
theorem untouched_iff (h : l.Ends) :
    (x.operate env (.line l)).1.call.reconciliation = x.call.reconciliation ↔ x.call.Untouched l := by
  unfold Call.Untouched
  -- not taken, taken with or without a gap
  cases htakes : x.call.takes l with
  | false =>
    rw [operate_of_not_taken env htakes]
    exact iff_of_true rfl (.inl rfl)
  | true =>
    cases hgap : x.call.gap l with
    | false =>
      rw [untouched_of_no_gap env h htakes hgap]
      simp
    | true =>
      rw [untouched_of_gap env h htakes hgap]
      simp

end Context

/-! ## Runs -/

/-- The daemon with the number of the `AT+CLCC` that it has sent last; it is 0 before the first
one. -/
structure Dispatch where
  context : Context
  listing : ℕ

namespace Dispatch

def start : Dispatch := ⟨.initial, 0⟩

/-- An operation, with the number that its `AT+CLCC` gets if it sends one. -/
def step (d : Dispatch) (event : Surroundings × Operation × ℕ) : Dispatch :=
  let y := (d.context.operate event.1 event.2.1).1
  ⟨y, if d.context.listRequests < y.listRequests then event.2.2 else d.listing⟩

/-- The line ends a command that is not the last `AT+CLCC`. -/
def Foreign (d : Dispatch) (operation : Operation) (l : Line) : Prop :=
  operation = .line l ∧ l.Ends ∧ l.commandId ≠ d.listing

/-- The end of another command changes nothing. -/
def Correlated (d : Dispatch) (event : Surroundings × Operation × ℕ) : Prop :=
  ∀ l, d.Foreign event.2.1 l →
    (d.step event).context.call.reconciliation = d.context.call.reconciliation

def Careful (d : Dispatch) (event : Surroundings × Operation × ℕ) : Prop :=
  ∀ l, d.Foreign event.2.1 l → d.context.call.Untouched l

/-- **The end of another command changes nothing** exactly in the runs in which it is not taken for
the end of the list of calls: it is not outstanding, or a record has told another number before. -/
theorem correlation_iff (d : Dispatch) (events : List (Surroundings × Operation × ℕ)) :
    Along step Correlated d events ↔ Along step Careful d events := by
  apply along_iff_along_of_step (p := fun _ => True) trivial
  · intro d event _
    refine forall_congr' fun l => imp_congr_right ?_
    rintro ⟨hline, hends, -⟩
    dsimp only [step]
    rw [hline]
    exact Context.untouched_iff event.1 hends
  · exact fun _ _ _ _ => trivial

/-- A call is dialled by command 1 and polled by command 2, before the end of command 1 arrives. -/
def crossedAnswers : List (Surroundings × Operation × ℕ) :=
  [(.setEnabled true, 0), (.originate .browser (ascii "10086"), 0), (.pollActive, 2),
    (.line (.ofTty 1 "OK" .terminal 1), 0)].map (.working (ascii "/dev/ttyUSB2"), ·)

/-- The `OK` of command 1 is taken for a list of calls without the call. -/
theorem crossedAnswers_not_correlated : ¬ Along step Correlated start crossedAnswers := by
  intro h
  obtain ⟨-, -, -, hline, -⟩ := h
  have hforeign : (run step start (crossedAnswers.take 3)).Foreign
      (.line (.ofTty 1 "OK" .terminal 1)) (.ofTty 1 "OK" .terminal 1) :=
    ⟨rfl, ⟨rfl, by decide, .inl rfl⟩, by decide +kernel⟩
  exact absurd (hline _ hforeign) (by decide +kernel)

end Dispatch

end QModem.Voip
