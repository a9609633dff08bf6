import QModem.Voip.CallState

/-!
# The Selected Port

Lines are taken from one port only.  The daemon looks the port up for every command, and when it is
another one, it forgets the numbers of the lines it has seen.  This can happen while a line is
handled.

## Main results

- `Context.handle_position`: handling a line can select another port
- `Context.line_position_of_gap`, `Context.line_position_of_no_gap`: the last line seen, after a
  line
- `Context.operate_position_cases`: the last line seen, after any other operation
-/

namespace QModem.Voip

open Lib Call
open At (Text)

namespace Call

variable {env : Surroundings} {operation : Operation} {c c' c'' : Call}

/-- The last line seen is still the same, or a command was sent. -/
def Stands (env : Surroundings) (c c' : Call) : Prop :=
  c'.position = c.position ∨ c'.position = (c.resolve env).position

section

variable (h : c'.position = c.position)

include h

theorem atPort_of_position : c'.atPort = c.atPort :=
  congrArg Prod.fst h

/-- Where a command goes depends on the port only. -/
theorem resolve_position : (c'.resolve env).position = (c.resolve env).position := by
  have hport := atPort_of_position h
  unfold resolve
  cases env.resolved with
  | none => exact h
  | some port =>
    simp only [Option.bind_some, selectAtPort, hport]
    split_ifs
    · exact h
    · exact h
    · rfl

theorem Stands.of_position : c.Stands env c' := .inl h

theorem Stands.of_resolve : c.Stands env (c'.resolve env) :=
  .inr (resolve_position h)

end

theorem Stands.congr (h : c'.Stands env c'') (hposition : c'.position = c.position) :
    c.Stands env c'' :=
  h.imp (·.trans hposition) (·.trans (resolve_position hposition))

/-- A command selects a usable port only, and then no line of it was seen. -/
theorem resolve_position_cases (env : Surroundings) (c : Call) :
    (c.resolve env).position = c.position ∨
      ∃ port, env.resolved = some port ∧ c.atPort ≠ port ∧ port ≠ [] ∧
        (c.resolve env).position = (port, 0, 0) := by
  unfold resolve
  cases hresolved : env.resolved with
  | none => exact .inl rfl
  | some port =>
    simp only [Option.bind_some, selectAtPort]
    split_ifs with hrefused hsame
    · exact .inl rfl
    · exact .inl rfl
    · refine .inr ⟨port, rfl, hsame, fun hnil => hrefused ?_, rfl⟩
      simp [hnil]

/-- A usable port is selected. -/
theorem resolve_atPort {port : Text} (c : Call) (hresolved : env.resolved = some port)
    (husable : port ≠ [] ∧ port.length < atPortSize) : (c.resolve env).atPort = port := by
  unfold resolve selectAtPort
  rw [hresolved, Option.bind_some, if_neg (by simpa using husable)]
  split <;> rename_i hsame
  · exact hsame
  · rfl

/-- On the port to which a command goes, the next command changes nothing. -/
theorem resolve_of_resolved (h : c'.atPort = (c.resolve env).atPort) : c'.resolve env = c' := by
  cases hresolved : env.resolved with
  | none => simp [resolve, hresolved]
  | some port =>
    by_cases husable : port ≠ [] ∧ port.length < atPortSize
    · have hport : c'.atPort = port := h.trans (resolve_atPort c hresolved husable)
      simp [resolve, hresolved, selectAtPort, hport, husable.1, husable.2.not_ge]
    · have hrefused : (port = [] || atPortSize ≤ port.length) = true := by
        simpa [Classical.or_iff_not_imp_left] using husable
      simp [resolve, hresolved, selectAtPort, hrefused]

end Call

namespace Context

open Call (Stands)

variable {env : Surroundings} {x : Context} {l : Line}

@[simp] theorem notify_position (event : CallEvent) :
    (x.notify env event).call.position = x.call.position := by
  obtain ⟨completed, h⟩ := notify_call env x event
  rw [h]
  rfl

theorem notify_stands {c : Call} {event : CallEvent} (h : c.Stands env x.call) :
    c.Stands env (x.notify env event).call := by
  unfold Stands
  rw [notify_position]
  exact h

theorem issueAt_stands {c : Call} {command : AtCommand} (h : x.call.position = c.position) :
    c.Stands env (x.issueAt env command).call := by
  rw [issueAt_call]
  exact .of_resolve h

/-- A report may send commands and takes no line. -/
theorem report_position (env : Surroundings) (x : Context) (l : Line) (r : Clcc) :
    x.call.Stands env (x.report env l r).call := by
  unfold report
  extract_lets call₁ call₂ call₃ before call₄ y₁ y₂
  have hcall : call₂.position = x.call.position := by
    unfold call₂ call₁
    split
    · exact (clipNumber_frame _).2.trans (beginIncoming_frame r).2
    · exact (beginIncoming_frame r).2
  have hreported : x.call.Stands env y₁.call :=
    .of_position ((position_reported r.status).trans hcall)
  have hnotified : x.call.Stands env y₂.call := by
    unfold y₂
    split
    · exact notify_stands hreported
    · exact hreported
  split_ifs
  · -- the modem is told again to hang up
    exact notify_stands (issueAt_stands hcall)
  · exact notify_stands hnotified
  · exact hnotified

/-- Nor does a record. -/
theorem record_position (env : Surroundings) (x : Context) (l : Line) (r : Clcc) :
    x.call.Stands env (x.record env l r).call := by
  have hcorrelate : (x.call.correlate l).position = x.call.position := (correlate_frame l).2
  unfold record
  dsimp only
  split_ifs
  · exact .of_position hcorrelate
  · exact .of_position rfl
  · exact notify_stands (.of_position hcorrelate)
  · exact (report_position env _ l r).congr hcorrelate
  · exact .of_position rfl
  · exact report_position env x l r

/-- The end of a list sends no command. -/
theorem reconcileOk_position : (x.reconcileOk env).call.position = x.call.position := by
  unfold reconcileOk
  dsimp only
  split_ifs
  · rfl
  · rw [notify_position]
    rfl
  all_goals
    rw [notify_position]
    exact position_clear (c := x.call.missed)

theorem ring_position : (x.ring env).call.position = x.call.position := by
  unfold ring
  rw [notify_position]
  split
  · exact beginCall_frame.2
  · rfl

variable (env)

/-- Handling a line sends at most one command, and this can select another port. -/
theorem handle_position (x : Context) (l : Line) : x.call.Stands env (x.handle env l).call := by
  unfold handle
  split_ifs
  · exact notify_stands (.of_position (clipNumber_frame _).2)
  · exact .of_position rfl
  · exact .of_position reconcileOk_position
  · unfold clcc
    split
    · exact .of_position rfl
    · exact record_position env x l _
  · exact .of_position ring_position
  · exact notify_stands (.of_position position_clear)
  · exact .of_position rfl

/-- Without a gap the line is the last one seen when it is handled. -/
theorem line_position_of_no_gap (htaken : x.call.takes l = true) (hgap : x.call.gap l = false) :
    (x.line env l).1.call.position = (x.call.atPort, l.epoch, l.sequence) ∨
      ∃ port, env.resolved = some port ∧ x.call.atPort ≠ port ∧ port ≠ [] ∧
        (x.line env l).1.call.position = (port, 0, 0) := by
  have hcheck : x.checkGap env l = x := if_neg (by rw [hgap]; exact Bool.false_ne_true)
  rw [line_of_taken htaken, hcheck]
  obtain hsame | hsent := handle_position env (x.accept l) l
  · exact .inl hsame
  · rw [hsent]
    exact resolve_position_cases env (x.accept l).call

/-- After a gap a command was sent before, and the line is the last one seen even if it was of
another port. -/
theorem line_position_of_gap (htaken : x.call.takes l = true) (hgap : x.call.gap l = true) :
    (x.line env l).1.call.position = ((x.call.resolve env).atPort, l.epoch, l.sequence) := by
  have hport : (x.checkGap env l).call.atPort = (x.call.resolve env).atPort := by
    have hsent : (x.checkGap env l).call.position = (x.call.resolve env).position := by
      unfold checkGap
      rw [if_pos hgap, notify_position, issueAt_call]
      exact resolve_position rfl
    exact congrArg Prod.fst hsent
  have haccepted : ((x.checkGap env l).accept l).call.position =
      ((x.call.resolve env).atPort, l.epoch, l.sequence) :=
    congrArg (·, l.epoch, l.sequence) hport
  rw [line_of_taken htaken]
  obtain hsame | hsent := handle_position env ((x.checkGap env l).accept l) l
  · rw [hsame, haccepted]
  · -- a second command would go to the same port
    have hagain : ((x.checkGap env l).accept l).call.resolve env =
        ((x.checkGap env l).accept l).call := resolve_of_resolved hport
    rw [hsent, hagain, haccepted]

/-- Any other operation selects another port or leaves the last line seen as it was. -/
theorem operate_position_cases {operation : Operation} (hline : ∀ l, operation ≠ .line l) :
    x.call.Stands env (x.operate env operation).1.call ∨
      ∃ port, operation = .selectAtPort port ∧ x.call.atPort ≠ port ∧ port ≠ [] ∧
        (x.operate env operation).1.call.position = (port, 0, 0) := by
  by_cases hselect : ∃ port, operation = .selectAtPort port
  · obtain ⟨port, rfl⟩ := hselect
    dsimp only [operate]
    cases hselect : x.call.selectAtPort port with
    | none => exact .inl (.of_position rfl)
    | some call =>
      unfold selectAtPort at hselect
      split_ifs at hselect with hrefused hsame
      · cases hselect
        exact .inl (.of_position rfl)
      · cases hselect
        refine .inr ⟨port, rfl, hsame, fun hnil => hrefused ?_, rfl⟩
        simp [hnil]
  -- every other operation changes the position only by the command it sends
  · left
    have hoperated := x.operated_operate env operation hline
    generalize (x.operate env operation).1.call = c at hoperated
    cases hoperated with
    | quiet h => exact .of_position h.position
    | sends h => exact .of_resolve h.position
    | selects h hother => exact absurd ⟨_, h⟩ hselect

end Context

end QModem.Voip
