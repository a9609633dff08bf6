import QModem.Lib.Latch

/-!
# Health of an Uplink

`up_health` of `core.sh` folds the samples of a member, one per round, into a record of four
counters and flags.

- `upHealth`, `healthAfter`: the fold
- `MakesHealthy`, `MakesUnhealthy`: what a sample does, read off the samples before it
- `healthy_iff_latched`: the fold computes the latch of the two
-/

namespace QModem.Uplink

open Lib

structure Thresholds where
  /-- `UP_FAIL` -/
  fail : ℕ
  /-- `UP_RECOVER` -/
  recover : ℕ
  /-- `UP_STABLE`, in seconds -/
  stable : ℕ
  deriving Repr, DecidableEq

/-- What one round finds out about a member, and the monotonic time of the round. -/
structure Sample where
  ok : Bool
  available : Bool
  now : ℤ
  deriving Repr, DecidableEq

structure Health where
  healthy : Bool
  seen : Bool
  good : ℕ
  bad : ℕ
  since : ℤ
  deriving Repr, DecidableEq

/-- The record `up_health` starts from when there is none. -/
def Health.unknown : Health := ⟨false, false, 0, 0, 0⟩

/-- `up_health`. -/
def upHealth (t : Thresholds) (old : Option Health) (x : Sample) : Health :=
  let s := old.getD .unknown
  if !x.available then { s with healthy := false, good := 0, bad := 0, since := 0 }
  else if x.ok then
    let g := s.good + 1
    let since := if s.good = 0 then x.now else s.since
    { good := g, bad := 0, since := since, seen := true
      healthy := s.healthy || !s.seen ||
        (decide (t.recover ≤ g) && decide ((t.stable : ℤ) ≤ x.now - since)) }
  else
    { s with good := 0, bad := s.bad + 1, since := 0
             healthy := s.healthy && decide (s.bad + 1 < t.fail) }

/-- The record after the samples of a member, which starts without one. -/
def healthAfter (t : Thresholds) (xs : List Sample) : Option Health :=
  xs.foldl (fun old x => some (upHealth t old x)) none

/-- `.healthy` of the record after the samples. -/
def healthyAfter (t : Thresholds) (xs : List Sample) : Bool :=
  ((healthAfter t xs).getD .unknown).healthy

/-! ## What a sample does, read off the history -/

/-- A probe of an available member succeeded. -/
def Sample.succeeds (x : Sample) : Bool := x.available && x.ok

/-- No probe of an available member succeeded. -/
def Sample.fails (x : Sample) : Bool := x.available && !x.ok

/-- The successes since the last sample that was none. -/
def successRun (xs : List Sample) : List Sample := xs.rtakeWhile Sample.succeeds

/-- The failures since the last sample that was none. -/
def failureRun (xs : List Sample) : List Sample := xs.rtakeWhile Sample.fails

/-- The time from the first sample of a run to `now`. -/
def span (run : List Sample) (now : ℤ) : ℤ := now - (run.head?.map Sample.now).getD now

/-- A success makes its member healthy: it is the first one ever, or its run is long enough and
takes long enough. -/
def MakesHealthy (t : Thresholds) (past : List Sample) (x : Sample) : Prop :=
  x.succeeds ∧
    ((∀ y ∈ past, ¬ y.succeeds) ∨
      t.recover ≤ (successRun (past ++ [x])).length ∧
        (t.stable : ℤ) ≤ span (successRun (past ++ [x])) x.now)

/-- The member is unavailable, or it has now failed often enough in a row. -/
def MakesUnhealthy (t : Thresholds) (past : List Sample) (x : Sample) : Prop :=
  ¬ x.available ∨ x.fails ∧ t.fail ≤ (failureRun (past ++ [x])).length

/-! ## The counters -/

variable (t : Thresholds) (xs : List Sample) (x : Sample)

@[simp] theorem healthAfter_concat :
    healthAfter t (xs ++ [x]) = some (upHealth t (healthAfter t xs) x) := by
  simp [healthAfter]

theorem successRun_concat :
    successRun (xs ++ [x]) = if x.succeeds then successRun xs ++ [x] else [] :=
  List.rtakeWhile_concat ..

theorem failureRun_concat : failureRun (xs ++ [x]) = if x.fails then failureRun xs ++ [x] else [] :=
  List.rtakeWhile_concat ..

/-- The record counts what its fields are named for. -/
structure Counts (xs : List Sample) (s : Health) : Prop where
  seen : s.seen = xs.any Sample.succeeds
  good : s.good = (successRun xs).length
  bad : s.bad = (failureRun xs).length
  since : ∀ first ∈ (successRun xs).head?, s.since = first.now

variable {xs}

/-- One more sample counts. -/
theorem Counts.step {old : Option Health} (h : Counts xs (old.getD .unknown)) (x : Sample) :
    Counts (xs ++ [x]) (upHealth t old x) := by
  obtain ⟨hseen, hgood, hbad, hsince⟩ := h
  by_cases ha : x.available
  · by_cases hok : x.ok
    · have hs : x.succeeds := by simp [Sample.succeeds, ha, hok]
      have hf : ¬ x.fails := by simp [Sample.fails, hok]
      refine ⟨?_, ?_, ?_, ?_⟩ <;>
        simp only [upHealth, successRun_concat, failureRun_concat, ha, hok, hs, hf, if_true, if_false,
          Bool.not_true, Bool.false_eq_true, hgood]
      · simp [hs]
      · simp
      · simp
      · -- the run goes on, or this is its first success
        cases hrun : successRun xs with
        | nil => simp
        | cons first rest => simpa [hrun] using hsince first (by simp [hrun])
    · have hs : ¬ x.succeeds := by simp [Sample.succeeds, hok]
      have hf : x.fails := by simp [Sample.fails, ha, hok]
      refine ⟨?_, ?_, ?_, ?_⟩ <;>
        simp [upHealth, successRun_concat, failureRun_concat, ha, hok, hs, hf, hseen, hbad]
  · have hs : ¬ x.succeeds := by simp [Sample.succeeds, ha]
    have hf : ¬ x.fails := by simp [Sample.fails, ha]
    refine ⟨?_, ?_, ?_, ?_⟩ <;>
      simp [upHealth, successRun_concat, failureRun_concat, ha, hs, hf, hseen]

theorem counts_healthAfter (xs : List Sample) : Counts xs ((healthAfter t xs).getD .unknown) := by
  induction xs using List.reverseRecOn with
  | nil => exact ⟨rfl, rfl, rfl, by simp [successRun]⟩
  | append_singleton xs x ih =>
    rw [healthAfter_concat]
    exact ih.step t x

/-! ## The flag -/

/-- The record's start of the run is what the span of the run is measured from. -/
theorem Counts.since_eq {s : Health} (h : Counts xs s) (x : Sample) (hs : x.succeeds) :
    x.now - (if s.good = 0 then x.now else s.since) = span (successRun (xs ++ [x])) x.now := by
  rw [successRun_concat, if_pos hs, h.good]
  cases hrun : successRun xs with
  | nil => simp [span]
  | cons first rest => simp [span, h.since first (by simp [hrun])]

theorem Counts.not_seen_iff {s : Health} (h : Counts xs s) :
    s.seen = false ↔ ∀ y ∈ xs, ¬ y.succeeds := by
  simp [h.seen]

/-- What one more sample does to the flag. -/
theorem Counts.healthy_iff {old : Option Health} (h : Counts xs (old.getD .unknown)) (x : Sample) :
    (upHealth t old x).healthy ↔
      MakesHealthy t xs x ∨ (old.getD .unknown).healthy ∧ ¬ MakesUnhealthy t xs x := by
  -- the three outcomes of a sample: success, failure, no link
  by_cases ha : x.available
  · by_cases hok : x.ok
    · have hs : x.succeeds := by simp [Sample.succeeds, ha, hok]
      have hf : ¬ x.fails := by simp [Sample.fails, hok]
      have hlength : (successRun (xs ++ [x])).length = (old.getD .unknown).good + 1 := by
        simp [successRun_concat, hs, h.good]
      simp only [upHealth, MakesHealthy, MakesUnhealthy, ha, hok, hs, hf, ← h.since_eq x hs, hlength,
        ← h.not_seen_iff]
      simp [or_assoc, or_comm]
    · have hs : ¬ x.succeeds := by simp [Sample.succeeds, hok]
      have hf : x.fails := by simp [Sample.fails, ha, hok]
      have hlength : (failureRun (xs ++ [x])).length = (old.getD .unknown).bad + 1 := by
        simp [failureRun_concat, hf, h.bad]
      simp [upHealth, MakesHealthy, MakesUnhealthy, ha, hok, hs, hf, hlength]
  · have hs : ¬ x.succeeds := by simp [Sample.succeeds, ha]
    simp [upHealth, MakesHealthy, MakesUnhealthy, ha, hs]

/-- **Hysteresis**: after any samples and for any thresholds, a member is healthy exactly when
some success made it healthy and nothing has made it unhealthy since. -/
theorem healthy_iff_latched (t : Thresholds) (xs : List Sample) :
    healthyAfter t xs ↔ Latched (MakesHealthy t) (MakesUnhealthy t) xs := by
  induction xs using List.reverseRecOn with
  | nil => simpa [healthyAfter, healthAfter, Health.unknown] using not_latched_nil
  | append_singleton xs x ih =>
    rw [latched_concat, ← ih]
    simpa [healthyAfter] using (counts_healthAfter t xs).healthy_iff t x

-- the first rounds of `test_health.sh`: a member is admitted at once and dropped at the third failure
example : healthyAfter ⟨3, 3, 60⟩ [⟨true, true, 0⟩, ⟨false, true, 10⟩, ⟨false, true, 20⟩] = true := by
  decide

example : healthyAfter ⟨3, 3, 60⟩
    [⟨true, true, 0⟩, ⟨false, true, 10⟩, ⟨false, true, 20⟩, ⟨false, true, 30⟩] = false := by
  decide

end QModem.Uplink
