import QModem.Lib.Run
import QModem.Scan.Scheduler

/-!
# Route Metrics of New Modems

`add_modem` and `remove_modem` of `modem_scan/src/modem_scand.c`, as far as they write
`modem_count` and the metrics.  A new modem gets the number of modems, and that number goes down
with every removal.  Both values are written as decimal text and read with `atoi`; they are numbers
here, and a missing count is zero.

The number of modems that a modem has found is kept beside the configuration (`Roster`).

- `metrics_distinct_iff`: no two modems share a metric all along exactly if every new modem finds
  none that was added when as many modems were there.
-/

namespace QModem.Scan

open Lib List

/-- A section of type `modem-device` with its option `metric`. -/
structure Modem where
  section_ : Text
  metric : ℕ
  deriving DecidableEq

/-- The part of the configuration `qmodem` that is about metrics. -/
structure Modems where
  modemCount : ℕ
  sections : List Modem
  deriving DecidableEq

namespace Modems

variable (c : Modems)

def has (section_ : Text) : Bool := c.sections.any (·.section_ = section_)

/-- `add_modem` from the place where it writes the configuration; a section that existed keeps its
metric. -/
def addModem (section_ : Text) (defaultMetric : Option ℕ) : Modems :=
  if c.has section_ then c
  else
    let modemCount := c.modemCount + 1
    { modemCount, sections := c.sections ++ [⟨section_, defaultMetric.getD (modemCount + 10)⟩] }

/-- `remove_modem`, with whether the modem could be stopped -/
def removeModem (section_ : Text) (stopped : Bool) : Modems :=
  if !c.has section_ || !stopped then c
  else
    { modemCount := if c.modemCount > 0 then c.modemCount - 1 else c.modemCount
      sections := c.sections.eraseP (·.section_ = section_) }

/-- A modem is added or removed; no slot sets a metric of its own. -/
inductive Step where
  | add (section_ : Text)
  | remove (section_ : Text) (stopped : Bool)

def step : Step → Modems
  | .add section_ => c.addModem section_ none
  | .remove section_ stopped => c.removeModem section_ stopped

def Distinct : Prop := (c.sections.map (·.metric)).Nodup

end Modems

/-- The configuration, with the number of modems that each modem has found when it was added. -/
structure Roster where
  config : Modems
  found : List (Text × ℕ)

namespace Roster

def initial : Roster := ⟨⟨0, []⟩, []⟩

def step (r : Roster) (e : Modems.Step) : Roster where
  config := r.config.step e
  found := match e with
    | .add section_ =>
      if r.config.has section_ then r.found
      else r.found ++ [(section_, r.config.sections.length)]
    | .remove section_ stopped =>
      if !r.config.has section_ || !stopped then r.found else r.found.eraseP (·.1 = section_)

/-- No modem is there that was added when as many modems were there as now. -/
def Fresh (r : Roster) : Modems.Step → Prop
  | .add section_ =>
    r.config.has section_ = true ∨ ∀ x ∈ r.found, x.2 ≠ r.config.sections.length
  | .remove _ _ => True

end Roster

namespace Modems

variable {c : Modems}

/-- The count is that of the sections. -/
theorem count_step (h : c.modemCount = c.sections.length) (e : Step) :
    (c.step e).modemCount = (c.step e).sections.length := by
  cases e with
  | add section_ =>
    simp only [step, addModem]
    split
    · exact h
    · simp [h]
  | remove section_ stopped =>
    simp only [step, removeModem]
    split
    · exact h
    · rename_i hfound
      have hhas : c.has section_ = true ∧ stopped = true := by simpa using hfound
      -- the section was there, so the count was not zero
      obtain ⟨m, hmem, hm⟩ := any_eq_true.mp hhas.1
      have hpos := length_pos_of_mem hmem
      rw [length_eraseP_of_mem hmem hm, if_pos (by omega), h]

end Modems

namespace Roster

/-- The count is that of the sections, and every metric is that of the modems found. -/
structure Kept (r : Roster) : Prop where
  count : r.config.modemCount = r.config.sections.length
  metrics : r.config.sections.map (fun m => (m.section_, m.metric)) =
    r.found.map fun x => (x.1, x.2 + 11)

variable {r : Roster}

/-- Additions and removals keep the metrics in step with the numbers found. -/
theorem Kept.step (h : r.Kept) (e : Modems.Step) : (r.step e).Kept := by
  refine ⟨Modems.count_step h.count e, ?_⟩
  cases e with
  | add section_ =>
    simp only [Roster.step, Modems.step, Modems.addModem]
    split
    · exact h.metrics
    · simp [h.metrics, h.count]
  | remove section_ stopped =>
    simp only [Roster.step, Modems.step, Modems.removeModem]
    split
    · exact h.metrics
    · have herase := congrArg (eraseP fun x => decide (x.1 = section_)) h.metrics
      rwa [eraseP_map, eraseP_map] at herase

end Roster

/-- **Metrics**: for every history of additions and removals. -/
theorem metrics_distinct_iff (es : List Modems.Step) :
    Throughout Roster.step (·.config.Distinct) .initial es ↔
      Along Roster.step Roster.Fresh .initial es := by
  apply throughout_iff_along Roster.Kept ⟨rfl, rfl⟩ (fun r e _ h => h.step e) nodup_nil
  intro r e _ hkept hdistinct
  cases e with
  | add section_ =>
    simp only [Roster.step, Modems.step, Modems.addModem, Roster.Fresh]
    by_cases hhas : r.config.has section_ = true
    · simpa [hhas] using hdistinct
    · have hold : (r.config.sections.map (·.metric)).Nodup := hdistinct
      -- the metric of a modem is the number it found and 11
      have hmetrics : r.config.sections.map (·.metric) = r.found.map (·.2 + 11) := by
        simpa [Function.comp_def] using congrArg (map Prod.snd) hkept.metrics
      rw [if_neg hhas, Modems.Distinct, map_append, nodup_append_comm, map_singleton,
        singleton_append, nodup_cons, and_iff_left hold, hmetrics]
      simp only [hhas, Bool.false_eq_true, false_or, mem_map, not_exists, not_and, hkept.count,
        Option.getD_none]
      exact forall₂_congr fun x _ => by omega
  | remove section_ stopped =>
    simp only [Roster.step, Modems.step, Modems.removeModem, Roster.Fresh, iff_true]
    split
    · exact hdistinct
    · exact Nodup.sublist ((eraseP_sublist ..).map _) hdistinct

/-- Two modems are added, the first one is removed, and the third one gets the metric of the
second. -/
theorem metric_given_twice :
    run Modems.step ⟨0, []⟩ [.add (ascii "a"), .add (ascii "b"), .remove (ascii "a") true,
        .add (ascii "c")] = ⟨2, [⟨ascii "b", 12⟩, ⟨ascii "c", 12⟩]⟩ ∧
      ¬ Modems.Distinct ⟨2, [⟨ascii "b", 12⟩, ⟨ascii "c", 12⟩]⟩ := by
  refine ⟨by decide, by simp [Modems.Distinct]⟩

end QModem.Scan
