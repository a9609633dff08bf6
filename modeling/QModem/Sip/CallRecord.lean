import QModem.Sip.Gateway

/-!
# The End of a SIP Call

`sip_gateway.c` of `qmodem_sipd`: the record of the one call, and the two requests that end it.

An empty name stands for a null pointer, too: no call that is under way has one.  Histories are
written with the latest step first.

- `teardown_sound`: only a request that fits the call under way runs the hangup action, and a call
  is ended once.
-/

namespace QModem.Sip

open Lib

/-! ## Requests -/

/-- The status of a request to end the call, and whether the hangup action was run. -/
structure Teardown where
  status : ℕ
  acted : Bool
  deriving DecidableEq

namespace CallRecord

variable (call : CallRecord)

/-- `qmodem_voip_sip_call_establish` -/
def establish (remoteTag : Text) : CallRecord :=
  if !call.active || remoteTag = [] || tagSize ≤ remoteTag.length then call
  else { call with remoteTag, established := true }

/-- `end_call`; the result of the action is none without an action. -/
def endCall (authenticated : Bool) (callId remoteTag : Text) (cseq : ℕ) (cancel : Bool)
    (action : Option Bool) : CallRecord × Teardown :=
  if !authenticated then (call, ⟨401, false⟩)
  else if !call.active || call.callId ≠ callId || call.remoteTag ≠ remoteTag ||
      (cancel && (call.origin ≠ .lan || call.cseq ≠ cseq)) ||
      (!cancel && !call.established && call.origin ≠ .lan) then (call, ⟨481, false⟩)
  else if action ≠ some true then (call, ⟨503, action.isSome⟩)
  else (clear, ⟨200, true⟩)

/-- `qmodem_voip_sip_call_cancel` -/
def cancel (authenticated : Bool) (callId remoteTag branch : Text) (cseq : ℕ)
    (action : Option Bool) : CallRecord × Teardown :=
  if call.branch ≠ branch then (call, ⟨if authenticated then 481 else 401, false⟩)
  else call.endCall authenticated callId remoteTag cseq true action

/-- `qmodem_voip_sip_call_bye` -/
def bye (authenticated : Bool) (callId remoteTag : Text) (action : Option Bool) :
    CallRecord × Teardown :=
  call.endCall authenticated callId remoteTag 0 false action

end CallRecord

open CallRecord

/-- What happens to the record. -/
inductive CallStep where
  | begin_ (origin : CallOrigin) (callId remoteTag branch : Text) (cseq : ℕ)
  | establish (remoteTag : Text)
  | cancel (authenticated : Bool) (callId remoteTag branch : Text) (cseq : ℕ)
      (action : Option Bool)
  | bye (authenticated : Bool) (callId remoteTag : Text) (action : Option Bool)
  | clear

namespace CallStep

/-- The record after a step, and the answer to a request to end the call. -/
def apply (call : CallRecord) : CallStep → CallRecord × Option Teardown
  | begin_ origin callId remoteTag branch cseq =>
    ((CallRecord.begun origin callId remoteTag branch cseq).getD call, none)
  | establish remoteTag => (call.establish remoteTag, none)
  | cancel authenticated callId remoteTag branch cseq action =>
    (call.cancel authenticated callId remoteTag branch cseq action).map id some
  | bye authenticated callId remoteTag action =>
    (call.bye authenticated callId remoteTag action).map id some
  | clear => (.clear, none)

def begins : CallStep → Bool
  | begin_ origin callId remoteTag branch cseq =>
    (CallRecord.begun origin callId remoteTag branch cseq).isSome
  | _ => false

/-- The request names the call, and may end it in the state it is in. -/
def Fits (call : CallRecord) : CallStep → Prop
  | cancel authenticated callId remoteTag branch cseq _ =>
    authenticated ∧ callId = call.callId ∧ remoteTag = call.remoteTag ∧ branch = call.branch ∧
      cseq = call.cseq ∧ call.origin = .lan
  | bye authenticated callId remoteTag _ =>
    authenticated ∧ callId = call.callId ∧ remoteTag = call.remoteTag ∧
      (call.origin = .cellular → call.established)
  | _ => False

end CallStep

def recordAfter : List CallStep → CallRecord
  | [] => .clear
  | e :: es => (e.apply (recordAfter es)).1

/-- The answer to the latest step. -/
def answered (es : List CallStep) (e : CallStep) : Option Teardown := (e.apply (recordAfter es)).2

/-- The record is that of a call the history has begun: with the names of its begin, the tag of the
last establish, and nothing since then that changed the record. -/
inductive UnderWay : List CallStep → CallRecord → Prop
  | begun {es call origin callId remoteTag branch cseq}
      (h : CallRecord.begun origin callId remoteTag branch cseq = some call) :
      UnderWay (.begin_ origin callId remoteTag branch cseq :: es) call
  | established {es call remoteTag} (h : UnderWay es call) :
      UnderWay (.establish remoteTag :: es) { call with remoteTag, established := true }
  | kept {es call e} (h : UnderWay es call) (hkept : (e.apply call).1 = call) :
      UnderWay (e :: es) call

/-- Requests that have ended a call since the last one began. -/
def endedSince : List CallStep → ℕ
  | [] => 0
  | e :: es =>
    if e.begins then 0
    else endedSince es + if (answered es e).any (·.status = 200) then 1 else 0

/-! ## The end of a call -/

/-- A request that is answered either leaves the record as it is or ends the call; the action was
run only if the request fits the call. -/
theorem teardown_cases (call : CallRecord) (e : CallStep) {t : Teardown}
    (h : (e.apply call).2 = some t) :
    ((e.apply call).1 = call ∧ t.status ≠ 200 ∨
        (e.apply call).1 = .clear ∧ t.status = 200 ∧ t.acted = true) ∧
      (t.acted = true → call.active = true ∧ e.Fits call) := by
  cases e with
  | cancel authenticated callId remoteTag branch cseq action =>
    simp only [CallStep.apply, cancel, endCall, CallStep.Fits] at h ⊢
    split_ifs at h ⊢ <;> cases h <;> grind [Prod.map]
  | bye authenticated callId remoteTag action =>
    simp only [CallStep.apply, bye, endCall, CallStep.Fits] at h ⊢
    split_ifs at h ⊢ <;> cases h <;> grind [Prod.map, CallOrigin]
  | _ => cases h

/-- An active record is that of a call under way. -/
theorem underWay_of_active :
    ∀ es, (recordAfter es).active = true → UnderWay es (recordAfter es) := by
  intro es
  induction es with
  | nil => intro h; cases h
  | cons e es ih =>
    intro hactive
    -- a step that leaves the record as it is
    have hkept (hsame : (e.apply (recordAfter es)).1 = recordAfter es) :
        UnderWay (e :: es) (recordAfter (e :: es)) := by
      rw [recordAfter, hsame] at hactive ⊢
      exact .kept (ih hactive) hsame
    cases hanswer : (e.apply (recordAfter es)).2 with
    | some t =>
      rcases (teardown_cases _ e hanswer).1 with ⟨hsame, -⟩ | ⟨hclear, -⟩
      · exact hkept hsame
      · rw [recordAfter, hclear] at hactive
        cases hactive
    | none =>
      cases e with
      | begin_ origin callId remoteTag branch cseq =>
        cases hbegun : begun origin callId remoteTag branch cseq with
        | none => exact hkept (by simp [CallStep.apply, hbegun])
        | some call =>
          simp only [recordAfter, CallStep.apply, hbegun, Option.getD_some]
          exact .begun hbegun
      | establish remoteTag =>
        simp only [recordAfter, CallStep.apply, establish] at hactive hkept ⊢
        split_ifs at hactive hkept ⊢ with hrefused
        · exact hkept rfl
        · exact .established (ih hactive)
      | clear => cases hactive
      | cancel => cases hanswer
      | bye => cases hanswer

/-- A call that is under way has not been ended, and one that was is no longer under way. -/
theorem endedSince_le (es : List CallStep) :
    endedSince es + (if (recordAfter es).active then 1 else 0) ≤ 1 := by
  induction es with
  | nil => decide
  | cons e es ih =>
    rw [endedSince]
    by_cases hbegins : e.begins = true
    · rw [if_pos hbegins]
      split <;> omega
    rw [if_neg hbegins, recordAfter, answered]
    -- a CANCEL or BYE that ends the call clears the record, so the next one finds nothing to end
    cases hanswer : (e.apply (recordAfter es)).2 with
    | some t =>
      obtain ⟨⟨hsame, hother⟩ | ⟨hclear, hended, hacted⟩, hfits⟩ := teardown_cases _ e hanswer
      · simpa [hsame, hother] using ih
      · rw [if_pos (hfits hacted).1] at ih
        simp only [hclear, clear, Option.any_some, hended]
        simpa using ih
    | none =>
      have hactive : (e.apply (recordAfter es)).1.active = true → (recordAfter es).active = true := by
        cases e with
        | begin_ origin callId remoteTag branch cseq =>
          have hrefused : begun origin callId remoteTag branch cseq = none := by
            simpa [CallStep.begins] using hbegins
          simp [CallStep.apply, hrefused]
        | establish remoteTag =>
          simp only [CallStep.apply, establish]
          split <;> exact id
        | clear => exact nofun
        | cancel => cases hanswer
        | bye => cases hanswer
      grind

/-- What a request to end the call may do after the steps of a history. -/
structure TeardownSound (es : List CallStep) (e : CallStep) : Prop where
  /-- The action is run only for a request that fits the call under way. -/
  fits : ∀ t, answered es e = some t → t.acted = true →
    UnderWay es (recordAfter es) ∧ e.Fits (recordAfter es)
  /-- A request that ends the call has run the action. -/
  acted : ∀ t, answered es e = some t → t.status = 200 → t.acted = true
  once : endedSince (e :: es) ≤ 1
  unchanged : ∀ t, answered es e = some t → t.status ≠ 200 → recordAfter (e :: es) = recordAfter es

/-- **End of a call**: whatever steps came before, and whatever the request names. -/
theorem teardown_sound (es : List CallStep) (e : CallStep) : TeardownSound es e where
  fits t ht hacted := by
    obtain ⟨hactive, hfits⟩ := (teardown_cases _ e ht).2 hacted
    exact ⟨underWay_of_active es hactive, hfits⟩
  acted t ht hended := by
    rcases (teardown_cases _ e ht).1 with ⟨-, hother⟩ | ⟨-, -, hacted⟩
    · exact absurd hended hother
    · exact hacted
  once := Nat.le_of_add_right_le (endedSince_le (e :: es))
  unchanged t ht hother := by
    rcases (teardown_cases _ e ht).1 with ⟨hsame, -⟩ | ⟨-, hended, -⟩
    · exact hsame
    · exact absurd hended hother

end QModem.Sip
