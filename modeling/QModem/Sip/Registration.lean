import QModem.Lib.Run

/-!
# Back-off of Registrations

How long `qmodem_sipd` waits before it registers again, from `sip_registration.c`.  The wait doubles
with each failure in a row, up to five minutes, and up to a fifth of it is taken off at random.

The functions check their pointer; it is the address of a variable wherever they are called, so that
the model has the record itself.

## Main results

- `nextDelay_run`: the wait that is kept for the next failure, in closed form
- `registration_backOff`: the delays that the failures of a run schedule
-/

namespace QModem.Sip

open Lib

/-! ## The record -/

/-- `struct qmodem_voip_sip_registration_retry` -/
structure RegistrationRetry where
  attempts : UInt64
  failures : UInt64
  nextDelayMs : UInt32
  scheduledDelayMs : UInt32
  deriving DecidableEq

def registerRetryInitialMs : UInt32 := 5000

def registerRetryMaxMs : UInt32 := 300000

namespace RegistrationRetry

/-- `qmodem_voip_sip_registration_retry_init` -/
def init : RegistrationRetry := ⟨0, 0, registerRetryInitialMs, 0⟩

variable (retry : RegistrationRetry)

/-- `qmodem_voip_sip_registration_attempt` -/
def attempt : RegistrationRetry := { retry with attempts := retry.attempts + 1 }

/-- What is taken off a delay -/
def jitter (delay entropy : UInt32) : UInt32 :=
  (delay.toUInt64 * (entropy % 21).toUInt64 / 100).toUInt32

/-- `qmodem_voip_sip_registration_failed`, which returns the delay that it schedules -/
def failed (entropy : UInt32) : RegistrationRetry where
  attempts := retry.attempts
  failures := retry.failures + 1
  scheduledDelayMs := retry.nextDelayMs - jitter retry.nextDelayMs entropy
  nextDelayMs :=
    if retry.nextDelayMs < registerRetryMaxMs / 2 then retry.nextDelayMs * 2
    else registerRetryMaxMs

/-- `qmodem_voip_sip_registration_succeeded` -/
def succeeded : RegistrationRetry :=
  { retry with nextDelayMs := registerRetryInitialMs, scheduledDelayMs := 0 }

/-- `qmodem_voip_sip_registration_retry_started` -/
def retryStarted : RegistrationRetry := { retry with scheduledDelayMs := 0 }

end RegistrationRetry

/-! ## Runs -/

inductive RegistrationEvent where
  | attempted
  | failed (entropy : UInt32)
  | succeeded
  | retryStarted

namespace RegistrationEvent

def step (retry : RegistrationRetry) : RegistrationEvent → RegistrationRetry
  | attempted => retry.attempt
  | failed entropy => retry.failed entropy
  | succeeded => retry.succeeded
  | retryStarted => retry.retryStarted

/-- The failures in a row after one more event -/
def count (k : ℕ) : RegistrationEvent → ℕ
  | failed _ => k + 1
  | succeeded => 0
  | _ => k

/-- The failures at the end of a run, since the last success or the start -/
def failuresInRow (events : List RegistrationEvent) : ℕ := run count 0 events

end RegistrationEvent

/-- The longest delay for the `k`-th failure in a row, in milliseconds -/
def backOff (k : ℕ) : ℕ := min (5000 * 2 ^ (k - 1)) 300000

/-- Doubling below half of the limit, and the limit from there on, is doubling up to the limit. -/
theorem backOff_succ (k : ℕ) :
    backOff (k + 2) = if backOff (k + 1) < 150000 then backOff (k + 1) * 2 else 300000 := by
  simp only [backOff, Nat.add_sub_cancel, Nat.add_succ_sub_one, pow_succ]
  split
  · omega
  · omega

namespace RegistrationRetry

variable {retry : RegistrationRetry} {k : ℕ}

/-- The jitter is computed without overflow. -/
theorem toNat_jitter {delay : UInt32} (h : delay.toNat ≤ 300000) (entropy : UInt32) :
    (jitter delay entropy).toNat = delay.toNat * (entropy.toNat % 21) / 100 := by
  have hentropy : entropy.toNat % 21 ≤ 20 := by omega
  have hproduct : delay.toNat * (entropy.toNat % 21) ≤ 300000 * 20 := Nat.mul_le_mul h hentropy
  simp only [jitter, UInt64.toNat_toUInt32, UInt64.toNat_div, UInt64.toNat_mul,
    UInt32.toNat_toUInt64, UInt32.toNat_mod, UInt32.reduceToNat, UInt64.reduceToNat]
  omega

/-- One event keeps the closed form. -/
theorem nextDelay_step (h : retry.nextDelayMs.toNat = backOff (k + 1)) (e : RegistrationEvent) :
    (e.step retry).nextDelayMs.toNat = backOff (e.count k + 1) := by
  cases e with
  | attempted => exact h
  | retryStarted => exact h
  | succeeded => rfl
  | failed entropy =>
    change (ite _ _ _ : UInt32).toNat = backOff (k + 2)
    rw [backOff_succ, ← h]
    -- the comparison of the source is with half of the limit
    have hhalf : retry.nextDelayMs < registerRetryMaxMs / 2 ↔ retry.nextDelayMs.toNat < 150000 := by
      rw [UInt32.lt_iff_toNat_lt]
      rfl
    by_cases hlow : retry.nextDelayMs.toNat < 150000
    · simp only [if_pos hlow, if_pos (hhalf.mpr hlow), UInt32.toNat_mul, UInt32.reduceToNat]
      omega
    · rw [if_neg hlow, if_neg (mt hhalf.mp hlow)]
      rfl

/-- **Closed form**: after every run, the next failure waits for the `k`-th delay if `k` failures in
a row would then have happened. -/
theorem nextDelay_run (events : List RegistrationEvent) :
    (run RegistrationEvent.step init events).nextDelayMs.toNat =
      backOff (RegistrationEvent.failuresInRow events + 1) := by
  suffices hrun : ∀ (retry : RegistrationRetry) (k : ℕ),
      retry.nextDelayMs.toNat = backOff (k + 1) →
        (run RegistrationEvent.step retry events).nextDelayMs.toNat =
          backOff (run RegistrationEvent.count k events + 1) from hrun init 0 rfl
  induction events with
  | nil => exact fun retry k h => h
  | cons e events ih => exact fun retry k h => ih _ _ (nextDelay_step h e)

/-- A delay that is scheduled is between four fifths of the longest one and that one. -/
theorem scheduledDelay_failed (h : retry.nextDelayMs.toNat = backOff (k + 1)) (entropy : UInt32) :
    backOff (k + 1) - backOff (k + 1) * 20 / 100 ≤ (retry.failed entropy).scheduledDelayMs.toNat ∧
      (retry.failed entropy).scheduledDelayMs.toNat ≤ backOff (k + 1) := by
  have hlimit : backOff (k + 1) ≤ 300000 := Nat.min_le_right _ _
  have hjitter := toNat_jitter (h.trans_le hlimit) entropy
  have hmost : retry.nextDelayMs.toNat * (entropy.toNat % 21) ≤ retry.nextDelayMs.toNat * 20 :=
    Nat.mul_le_mul_left _ (by omega)
  have hle : jitter retry.nextDelayMs entropy ≤ retry.nextDelayMs := by
    rw [UInt32.le_iff_toNat_le, hjitter]
    omega
  rw [failed, UInt32.toNat_sub_of_le _ _ hle, hjitter, ← h]
  omega

end RegistrationRetry

/-- **Back-off**: in every run, a failure that is the `k`-th in a row schedules between 80 and 100
percent of the `k`-th delay, and after a success and after the start of a retry nothing is
scheduled. -/
theorem registration_backOff (events : List RegistrationEvent) :
    (∀ entropy,
      let k := RegistrationEvent.failuresInRow (events ++ [.failed entropy])
      let delay := (run RegistrationEvent.step .init (events ++ [.failed entropy])).scheduledDelayMs
      backOff k - backOff k * 20 / 100 ≤ delay.toNat ∧ delay.toNat ≤ backOff k) ∧
    (run RegistrationEvent.step .init (events ++ [.succeeded])).scheduledDelayMs = 0 ∧
    (run RegistrationEvent.step .init (events ++ [.retryStarted])).scheduledDelayMs = 0 := by
  simp only [RegistrationEvent.failuresInRow, run_append]
  refine ⟨fun entropy => ?_, rfl, rfl⟩
  exact RegistrationRetry.scheduledDelay_failed (RegistrationRetry.nextDelay_run events) entropy

end QModem.Sip
