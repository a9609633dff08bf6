import Mathlib

/-!
# Runs of a State Machine

A state machine takes one step per event.  A run is the list of its events.

- `run`: the state a run ends in
- `Along`: a condition on a state and the event that follows it, at every step of a run
- `Throughout`: a property of every state of a run
- `emitted`: what the steps of a run put out
-/

namespace QModem.Lib

open List

variable {σ ε : Type} (step : σ → ε → σ)

/-- The state a run ends in. -/
def run (s : σ) : List ε → σ
  | [] => s
  | e :: es => run (step s e) es

/-- Every step of the run meets the condition. -/
def Along (ok : σ → ε → Prop) (s : σ) : List ε → Prop
  | [] => True
  | e :: es => ok s e ∧ Along ok (step s e) es

/-- Every state of the run, the first and the last one included, has the property. -/
def Throughout (p : σ → Prop) (s : σ) : List ε → Prop
  | [] => p s
  | e :: es => p s ∧ Throughout p (step s e) es

variable {step} {s : σ} {ok : σ → ε → Prop} {p q : σ → Prop}

@[simp] theorem run_nil : run step s [] = s := rfl

@[simp] theorem run_cons (e : ε) (es : List ε) : run step s (e :: es) = run step (step s e) es := rfl

theorem run_append (es fs : List ε) : run step s (es ++ fs) = run step (run step s es) fs := by
  induction es generalizing s with
  | nil => rfl
  | cons e es ih => exact ih

/-- A map that goes along with every step goes along with the run. -/
theorem map_run {τ : Type} {step' : τ → ε → τ} {f : σ → τ}
    (h : ∀ s e, f (step s e) = step' (f s) e) (es : List ε) :
    f (run step s es) = run step' (f s) es := by
  induction es generalizing s with
  | nil => rfl
  | cons e es ih => rw [run_cons, run_cons, ih, h]

variable {es : List ε}

theorem Throughout.first (h : Throughout step p s es) : p s := by
  cases es with
  | nil => exact h
  | cons e es => exact h.1

theorem Throughout.last (h : Throughout step p s es) : p (run step s es) := by
  induction es generalizing s with
  | nil => exact h
  | cons e es ih => exact ih h.2

theorem Throughout.imp (h : Throughout step p s es) (hpq : ∀ s, p s → q s) :
    Throughout step q s es := by
  induction es generalizing s with
  | nil => exact hpq s h
  | cons e es ih => exact ⟨hpq s h.1, ih h.2⟩

/-- Events are taken in states with the property only. -/
theorem Throughout.along (h : Throughout step p s es) (hp : ∀ s e, p s → ok s e) :
    Along step ok s es := by
  induction es generalizing s with
  | nil => trivial
  | cons e es ih => exact ⟨hp s e h.1, ih h.2⟩

/-- What holds at the start and survives every event of the run holds all along. -/
theorem throughout_of_step (hstart : p s) (hstep : ∀ s, ∀ e ∈ es, p s → p (step s e)) :
    Throughout step p s es := by
  induction es generalizing s with
  | nil => exact hstart
  | cons e es ih =>
    refine ⟨hstart, ih (hstep s e mem_cons_self hstart) fun s' e' he' => ?_⟩
    exact hstep s' e' (mem_cons_of_mem _ he')

/-- When a step keeps the property exactly if it meets the condition, a run keeps it all along
exactly if every step meets the condition.  The invariant holds in any case. -/
theorem throughout_iff_along (inv : σ → Prop) (hinv : inv s)
    (hinvStep : ∀ s, ∀ e ∈ es, inv s → inv (step s e)) (hstart : p s)
    (hstep : ∀ s, ∀ e ∈ es, inv s → p s → (p (step s e) ↔ ok s e)) :
    Throughout step p s es ↔ Along step ok s es := by
  induction es generalizing s with
  | nil => exact iff_of_true hstart trivial
  | cons e es ih =>
    have hinv' := hinvStep s e mem_cons_self hinv
    have hiff := hstep s e mem_cons_self hinv hstart
    have hrest := fun h => ih hinv' (fun s e he => hinvStep s e (mem_cons_of_mem _ he)) h
      fun s e he => hstep s e (mem_cons_of_mem _ he)
    refine ⟨fun h => ?_, fun h => ⟨hstart, ?_⟩⟩
    · exact ⟨hiff.mp h.2.first, (hrest h.2.first).mp h.2⟩
    · exact (hrest (hiff.mpr h.1)).mpr h.2

/-- A condition on the events alone. -/
theorem along_of_forall {c : ε → Prop} (h : ∀ e ∈ es, c e) : Along step (fun _ e => c e) s es := by
  induction es generalizing s with
  | nil => trivial
  | cons e es ih =>
    exact ⟨h e mem_cons_self, ih fun e he => h e (mem_cons_of_mem _ he)⟩

/-- The same with an invariant that is as strong as the property needs, and that only steps keep
which meet the condition.  All steps meet a side condition. -/
theorem throughout_iff_along_of_strong (inv : σ → Prop) {side : σ → ε → Prop}
    (hp : ∀ s, inv s → p s) (hneeded : ∀ s e, side s e → inv s → p (step s e) → ok s e)
    (hkeep : ∀ s e, side s e → inv s → ok s e → inv (step s e)) (hinv : inv s)
    (hside : Along step side s es) : Throughout step p s es ↔ Along step ok s es := by
  induction es generalizing s with
  | nil => exact iff_of_true (hp s hinv) trivial
  | cons e es ih =>
    constructor
    · intro h
      have hok := hneeded s e hside.1 hinv h.2.first
      exact ⟨hok, (ih (hkeep s e hside.1 hinv hok) hside.2).mp h.2⟩
    · intro h
      exact ⟨hp s hinv, (ih (hkeep s e hside.1 hinv h.1) hside.2).mpr h.2⟩

/-- The invariant rule for all states of a run. -/
theorem throughout_of_along (hstart : p s) (hstep : ∀ s e, ok s e → p s → p (step s e))
    (hok : Along step ok s es) : Throughout step p s es := by
  induction es generalizing s with
  | nil => exact hstart
  | cons e es ih => exact ⟨hstart, ih (hstep s e hok.1 hstart) hok.2⟩

/-- **Invariant rule**: what holds at the start and survives every step that meets the condition
holds at the end of every run whose steps all meet it. -/
theorem run_invariant (hstart : p s) (hstep : ∀ s e, ok s e → p s → p (step s e))
    (hok : Along step ok s es) : p (run step s es) :=
  (throughout_of_along hstart hstep hok).last

variable {ok' : σ → ε → Prop}

/-- Two conditions that agree wherever the invariant holds agree along a run, if steps that meet the
first one keep the invariant.  All steps meet a side condition. -/
theorem along_iff_along {side : σ → ε → Prop} (hstart : p s)
    (hiff : ∀ s e, side s e → p s → (ok s e ↔ ok' s e))
    (hstep : ∀ s e, side s e → ok s e → p s → p (step s e)) (hside : Along step side s es) :
    Along step ok s es ↔ Along step ok' s es := by
  induction es generalizing s with
  | nil => exact Iff.rfl
  | cons e es ih =>
    have hhere := hiff s e hside.1 hstart
    have hrest (hok : ok s e) := ih (hstep s e hside.1 hok hstart) hside.2
    exact (and_congr_right hrest).trans (and_congr_left' hhere)

/-- Two conditions that agree as long as the invariant holds, which the first one keeps. -/
theorem along_iff_along_of_step (hstart : p s) (hiff : ∀ s e, p s → (ok s e ↔ ok' s e))
    (hstep : ∀ s e, ok s e → p s → p (step s e)) (es : List ε) :
    Along step ok s es ↔ Along step ok' s es := by
  exact along_iff_along hstart (fun s e _ => hiff s e) (fun s e _ => hstep s e)
    (along_of_forall fun _ _ => trivial)

theorem along_append (es fs : List ε) :
    Along step ok s (es ++ fs) ↔ Along step ok s es ∧ Along step ok (run step s es) fs := by
  induction es generalizing s with
  | nil => exact ⟨fun h => ⟨trivial, h⟩, And.right⟩
  | cons e es ih => exact ⟨fun h => ⟨⟨h.1, (ih.mp h.2).1⟩, (ih.mp h.2).2⟩,
      fun h => ⟨h.1.1, ih.mpr ⟨h.1.2, h.2⟩⟩⟩

theorem Along.imp (h : Along step ok s es) (himp : ∀ s e, ok s e → ok' s e) :
    Along step ok' s es := by
  induction es generalizing s with
  | nil => trivial
  | cons e es ih => exact ⟨himp s e h.1, ih h.2⟩

theorem along_and (h : Along step ok s es) (h' : Along step ok' s es) :
    Along step (fun s e => ok s e ∧ ok' s e) s es := by
  induction es generalizing s with
  | nil => trivial
  | cons e es ih => exact ⟨⟨h.1, h'.1⟩, ih h.2 h'.2⟩

/-- The invariant rule when every step may be taken. -/
theorem run_invariant_of_step (hstart : p s) (hstep : ∀ s e, p s → p (step s e)) :
    p (run step s es) := by
  induction es generalizing s with
  | nil => exact hstart
  | cons e es ih => exact ih (hstep s e hstart)

theorem throughout_append (es fs : List ε) : Throughout step p s (es ++ fs) ↔
    Throughout step p s es ∧ Throughout step p (run step s es) fs := by
  induction es generalizing s with
  | nil => exact ⟨fun h => ⟨h.first, h⟩, And.right⟩
  | cons e es ih => exact (and_congr_right fun _ => ih).trans and_assoc.symm

/-- What the steps of the run put out, in their order. -/
def emitted {β : Type} (step : σ → ε → σ) (out : σ → ε → List β) (s : σ) : List ε → List β
  | [] => []
  | e :: es => out s e ++ emitted step out (step s e) es

theorem emitted_append {β : Type} (out : σ → ε → List β) (es fs : List ε) :
    emitted step out s (es ++ fs) = emitted step out s es ++ emitted step out (run step s es) fs := by
  induction es generalizing s with
  | nil => rfl
  | cons e es ih =>
    rw [cons_append, emitted, emitted, ih, append_assoc]
    rfl

/-- A run in blocks, each of which keeps the property all along exactly if it meets the condition in
the state in which it starts. -/
theorem throughout_blocks_iff {ε' : Type} {block : ε' → List ε} {ok : σ → ε' → Prop}
    (inv : σ → Prop) (hp : ∀ s, inv s → p s)
    (hblock : ∀ s b, inv s → (Throughout step p s (block b) ↔ ok s b))
    (hkeep : ∀ s b, inv s → ok s b → inv (run step s (block b))) (bs : List ε') (hinv : inv s) :
    Throughout step p s (bs.flatMap block) ↔ Along (fun s b => run step s (block b)) ok s bs := by
  induction bs generalizing s with
  | nil => exact iff_of_true (hp s hinv) trivial
  | cons b bs ih =>
    rw [flatMap_cons, throughout_append, hblock s b hinv]
    exact and_congr_right fun hok => ih (hkeep s b hinv hok)

end QModem.Lib
