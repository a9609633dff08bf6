import QModem.Voip.History
import QModem.Voip.Reconcile

/-!
# One Answer to a Call

Any number of endpoints may try to answer a call.  The first request that finds it ringing becomes
its answer owner and sends `ATA`.  The owner is the memory of it: as long as there is one, no other
request gets that far, and only the end of the call takes it away.

## Main results

- `Context.answers_step`: a step sends `ATA` only when it sets the owner
- `Context.single_answer`: one `ATA` for a call, one owner, and one endpoint that is told
-/

namespace QModem.Voip

open Lib
open At (Text)

namespace Call

variable {env : Surroundings} {c : Call}

/-- Only the end of the call and a request to answer it change the owner. -/
theorem answerOwner_act (hclean : c.Clean) {a : Act} (hends : a.ends = false)
    (hrequested : a.requested = none) : (c.act env a).answerOwner = c.answerOwner := by
  cases a with
  | name line =>
    obtain ⟨_, _, hclip⟩ := clipNumber_eq c line
    simp [act, touch, hclip]
  -- an idle call has no owner to lose
  | ring =>
    simp only [act, ringing, beginCall]
    split_ifs with hidle
    · exact (hclean (by rw [hidle]; rfl)).2.2.1.symm
    · exact (hclean (by rw [hidle]; rfl)).2.2.1.symm
    · rfl
  | report line r =>
    obtain ⟨_, _, _, _, _, hnamed⟩ := introduced_eq env c line r
    obtain ⟨_, _, _, _, hreported, -⟩ := reported_eq env ((c.beginIncoming env r).named line r) r.status
    simp only [act, moved]
    split_ifs <;> simp only [touch, hreported] <;> rw [hnamed]
  | dial => cases hrequested
  | answer => cases hrequested
  | clear => cases hends
  | disable => cases hends
  | _ => rfl

end Call

namespace Context

variable {env : Surroundings} {x : Context} {operation : Operation}

/-- How often `ATA` was sent. -/
def answers (x : Context) : ℕ := x.outputs.count (.command AtCommand.answer.text)

@[simp] theorem answers_withCall (c : Call) : (x.withCall c).answers = x.answers := rfl

@[simp] theorem answers_notify (event : CallEvent) : (x.notify env event).answers = x.answers := by
  simp [answers, notify_outputs]

@[simp] theorem answers_issueAt {command : AtCommand} (h : command ≠ .answer) :
    (x.issueAt env command).answers = x.answers := by
  have hother : command.text ≠ AtCommand.answer.text := by
    cases command <;> first | exact absurd rfl h | simp [AtCommand.text, ascii]
  unfold answers
  obtain ⟨h, -⟩ | h := @issueAt_outputs env x command <;> simp [h, hother]

@[simp] theorem answers_issueIdleAt : (x.issueIdleAt env .listCalls).answers = x.answers := by
  unfold issueIdleAt
  split_ifs
  · simp [answers, AtCommand.text, ascii]
  · rfl
  · simp

@[simp] theorem answers_report (l : Line) (r : Clcc) : (x.report env l r).answers = x.answers := by
  unfold report
  dsimp only
  split_ifs <;> simp

@[simp] theorem answers_record (l : Line) (r : Clcc) : (x.record env l r).answers = x.answers := by
  unfold record
  dsimp only
  split_ifs <;> simp

theorem answers_handle (l : Line) : (x.handle env l).answers = x.answers := by
  have hclcc : (x.clcc env l).answers = x.answers := by
    unfold clcc
    split <;> simp
  unfold handle reconcileOk ring
  dsimp only
  split_ifs <;> simp [hclcc]

theorem answers_line (l : Line) : (x.line env l).1.answers = x.answers := by
  unfold line
  split_ifs
  · rfl
  · rfl
  · rw [answers_handle, accept, answers_withCall, checkGap]
    split <;> simp

/-- Only a request to answer sends `ATA`. -/
theorem answers_operate (h : ∀ endpoint, operation ≠ .answer endpoint) :
    (x.operate env operation).1.answers = x.answers := by
  have hclear : Context.answers { x with commandFailed := false } = x.answers := rfl
  cases operation with
  | answer endpoint => exact absurd rfl (h endpoint)
  | line l => exact answers_line l
  | selectAtPort port =>
    simp only [operate]
    split <;> rfl
  | fault => exact answers_notify _
  | setEnabled enabled => rfl
  | reenumerate => rfl
  | abandonPoll => rfl
  | abandonIdlePoll => rfl
  -- the others send commands, but never that to answer
  | _ =>
    simp only [operate, originate, reject, hangup, terminate, sendDtmf, startRecovery, pollActive,
      pollIdle]
    split_ifs <;> simp [hclear]

/-- The owner of the answer stays until there is no call. -/
theorem answerOwner_operate (hclean : x.call.Clean) (hanswer : ∀ endpoint, operation ≠ .answer endpoint)
    (hlive : (x.operate env operation).1.call.state.over = false) :
    (x.operate env operation).1.call.answerOwner = x.call.answerOwner := by
  -- a call that is live was not ended
  have hends : (x.call.actOf operation).ends = false := by
    by_contra hends
    have hover := over_operate_of_ends env (Bool.eq_true_of_not_eq_false hends)
    exact absurd (hlive.symm.trans hover) Bool.false_ne_true
  obtain ⟨_, _, hcall⟩ := (announced_operate env x operation).call
  obtain ⟨_, _, _, hbefore, -⟩ := before_call env x operation
  have howner : (x.operate env operation).1.call.answerOwner =
      ((x.before env operation).phone.call.act env (x.call.actOf operation)).answerOwner :=
    (congrArg Call.answerOwner hcall :)
  have hsame : (x.before env operation).phone.call.answerOwner = x.call.answerOwner :=
    (congrArg Call.answerOwner hbefore :)
  have hrest (hrequested : (x.call.actOf operation).requested = none) :
      (x.operate env operation).1.call.answerOwner = x.call.answerOwner := by
    rw [howner, Call.answerOwner_act (clean_before env operation hclean) hends hrequested, hsame]
  cases hact : x.call.actOf operation with
  | dial origin number =>
    obtain ⟨rfl, hidle⟩ := dial_of_actOf hact
    rw [howner, hact]
    exact (hclean (by rw [hidle]; rfl)).2.2.1.symm
  | answer endpoint =>
    exact absurd (requested_of_actOf (congrArg Act.requested hact)) (hanswer endpoint)
  | _ => exact hrest (by rw [hact]; rfl)

/-- A request to answer is refused, or it sets the owner and sends `ATA`. -/
theorem answer_cases (env : Surroundings) (x : Context) (endpoint : Endpoint) :
    (∃ result, result ≠ 0 ∧
        x.operate env (.answer endpoint) = ({ x with commandFailed := false }, result)) ∨
      (x.operate env (.answer endpoint)).2 = 0 ∧ x.call.answerOwner = .none ∧
        (x.operate env (.answer endpoint)).1.call.answerOwner = endpoint ∧ endpoint ≠ .none ∧
        (x.operate env (.answer endpoint)).1.answers ≤ x.answers + 1 ∧
        ((x.operate env (.answer endpoint)).1.commandFailed = false →
          (x.operate env (.answer endpoint)).1.answers = x.answers + 1) := by
  simp only [operate, answer]
  split_ifs with hrefused howner hstate
  · exact .inl ⟨-1, by decide, rfl⟩
  · exact .inl ⟨-3, by decide, rfl⟩
  · exact .inl ⟨-2, by decide, rfl⟩
  · -- the command is the last thing, and it keeps the owner
    simp only [Bool.or_eq_true, Bool.not_eq_true', not_or] at hrefused
    refine .inr ⟨rfl, not_not.mp howner, ?_, by rintro rfl; exact hrefused.2 rfl, ?_⟩
    · rw [issueAt_call]
      obtain h | ⟨_, -, -, h⟩ := Call.resolve_cases env _ <;> rw [h] <;>
        simp only [withCall, Call.touch, Call.markActive, Call.beginCall, Call.onPort] <;>
        split_ifs <;> rfl
    · unfold answers
      obtain ⟨h, hfailed⟩ | h := issueAt_outputs .answer
      · rw [h, hfailed]
        exact ⟨Nat.le_succ _, fun hfalse => absurd hfalse (by decide)⟩
      · rw [h, List.count_append]
        exact ⟨Nat.add_le_add_left List.count_le_length _, fun _ => by simp [withCall]⟩

def owners (x : Context) : ℕ := if x.call.answerOwner = .none then 0 else 1

/-- A step of a call sends `ATA` only when it sets the owner. -/
theorem answers_step (hclean : x.call.Clean)
    (hlive : (x.operate env operation).1.call.state.over = false) :
    (x.operate env operation).1.answers + x.owners ≤
      x.answers + (x.operate env operation).1.owners := by
  by_cases hanswer : ∃ endpoint, operation = .answer endpoint
  · obtain ⟨endpoint, rfl⟩ := hanswer
    obtain ⟨result, -, hrefused⟩ | ⟨-, hfree, howner, hsource, hle, -⟩ :=
      answer_cases env x endpoint
    · rw [hrefused]
      exact le_rfl
    · simpa [owners, hfree, howner, hsource] using hle
  · rw [not_exists] at hanswer
    rw [answers_operate hanswer, owners, owners, answerOwner_operate hclean hanswer hlive]

/-- What holds of a daemon for the answer to its call. -/
structure SingleAnswer (x : Context) : Prop where
  /-- However long the call is under way, `ATA` is sent at most once. -/
  once : ∀ events, Throughout step (fun y => y.call.state.over = false) x events →
    (run step x events).answers ≤ x.answers + 1
  /-- The owner is kept until there is no call. -/
  kept : ∀ event, x.call.answerOwner ≠ .none → (x.step event).call.state.over = false →
    (x.step event).call.answerOwner = x.call.answerOwner
  /-- A request that succeeds has found no owner, and unless the command failed, it sent `ATA`. -/
  told : ∀ env endpoint, (x.operate env (.answer endpoint)).2 = 0 → x.call.answerOwner = .none ∧
    (x.operate env (.answer endpoint)).1.call.answerOwner = endpoint ∧
      ((x.operate env (.answer endpoint)).1.commandFailed = false →
        (x.operate env (.answer endpoint)).1.answers = x.answers + 1)

/-- **One answer**, after every run of operations. -/
theorem single_answer (events : List (Surroundings × Operation)) :
    SingleAnswer (run step .initial events) := by
  have hclean := (clean_slate events).last
  generalize run step .initial events = x at hclean
  refine ⟨fun events hlive => ?_, fun event howner hlive => ?_, fun env endpoint htold => ?_⟩
  · -- the owner pays for the command
    have hpaid : ∀ (events : List (Surroundings × Operation)) (x : Context), x.call.Clean →
        Throughout step (fun y => y.call.state.over = false) x events →
        (run step x events).answers + x.owners ≤ x.answers + (run step x events).owners := by
      intro events
      induction events with
      | nil => exact fun _ _ _ => le_rfl
      | cons event events ih =>
        intro x hclean hlive
        have hstep : (x.step event).answers + x.owners ≤ x.answers + (x.step event).owners :=
          answers_step hclean hlive.2.first
        have hrest := ih (x.step event) (clean_operate event.1 event.2 hclean) hlive.2
        rw [run_cons]
        omega
    have hle : (run step x events).owners ≤ 1 := by
      unfold owners
      split <;> omega
    have := hpaid events x hclean hlive
    omega
  · by_cases hanswer : ∃ endpoint, event.2 = .answer endpoint
    · obtain ⟨endpoint, hanswer⟩ := hanswer
      unfold step
      rw [hanswer]
      obtain ⟨result, -, hrefused⟩ | ⟨-, hfree, -⟩ := answer_cases event.1 x endpoint
      · rw [hrefused]
      · exact absurd hfree howner
    · exact answerOwner_operate hclean (not_exists.mp hanswer) hlive
  · obtain ⟨result, hne, hrefused⟩ | ⟨-, hfree, howner, -, -, hsent⟩ := answer_cases env x endpoint
    · rw [hrefused] at htold
      exact absurd htold hne
    · exact ⟨hfree, howner, hsent⟩

end Context

end QModem.Voip
