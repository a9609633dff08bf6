import Mathlib

/-!
# Transactions on a Constrained Store

A store holds data that meets its constraints.  A statement computes new data; it fails, and with it
the transaction around it, when the new data would break a constraint.  A failed transaction leaves
nothing behind, so it has no resulting store at all.
-/

namespace QModem.Lib

variable {T : Type} {Valid : T → Prop} {α β : Type}

/-- Data that meets the constraints. -/
structure Store (Valid : T → Prop) where
  data : T
  valid : Valid data

@[ext] theorem Store.ext_data {s u : Store Valid} (h : s.data = u.data) : s = u := by
  cases s
  cases u
  cases h
  rfl

/-- A sequence of statements that takes effect as a whole or fails. -/
abbrev Transaction (Valid : T → Prop) : Type → Type := StateT (Store Valid) Option

namespace Transaction

def query (f : T → α) : Transaction Valid α := fun s => some (f s.data, s)

def exec [DecidablePred Valid] (f : T → T) : Transaction Valid Unit := fun s =>
  if h : Valid (f s.data) then some ((), ⟨f s.data, h⟩) else none

def rollback : Transaction Valid α := fun _ => none

variable {s s' : Store Valid}

theorem bind_eq_some {x : Transaction Valid α} {f : α → Transaction Valid β} {b : β} :
    (x >>= f) s = some (b, s') ↔ ∃ a u, x s = some (a, u) ∧ f a u = some (b, s') := by
  simp only [bind, StateT.bind, Option.bind_eq_some_iff, Prod.exists]

/-- Goes on behind a part that has succeeded. -/
theorem bind_of_eq {x : Transaction Valid α} {f : α → Transaction Valid β} {a : α}
    (h : x s = some (a, s')) : (x >>= f) s = f a s' := by
  simp only [bind, StateT.bind, h, Option.bind_some]

theorem pure_eq_some {a b : α} :
    (pure a : Transaction Valid α) s = some (b, s') ↔ a = b ∧ s = s' := by
  simp [pure, StateT.pure]

@[simp] theorem query_bind (f : T → α) (g : α → Transaction Valid β) :
    (query f >>= g) s = g (f s.data) s := rfl

theorem rollback_eq_some {a : α} : (rollback : Transaction Valid α) s = some (a, s') ↔ False := by
  simp [rollback]

variable [DecidablePred Valid]

/-- A statement succeeds exactly if the tables it leaves keep the constraints. -/
theorem exec_eq_some {f : T → T} {u : Unit} :
    (exec f : Transaction Valid Unit) s = some (u, s') ↔ s'.data = f s.data := by
  unfold exec
  constructor
  · intro h
    split at h
    · cases h
      rfl
    · cases h
  · intro h
    -- the store carries the proof that its tables are valid
    have hvalid : Valid (f s.data) := h ▸ s'.valid
    rw [dif_pos hvalid]
    cases s'
    cases h
    rfl

theorem exec_of_valid {f : T → T} (h : Valid (f s.data)) :
    (exec f : Transaction Valid Unit) s = some ((), ⟨f s.data, h⟩) := dif_pos h

/-! ## Transactions that run to their end -/

omit [DecidablePred Valid]

def Succeeds (x : Transaction Valid α) (s : Store Valid) : Prop := ∃ a s', x s = some (a, s')

namespace Succeeds

theorem pure (a : α) : Succeeds (Pure.pure a : Transaction Valid α) s := ⟨a, s, rfl⟩

theorem bind {x : Transaction Valid α} {f : α → Transaction Valid β} (h : Succeeds x s)
    (hnext : ∀ a s', x s = some (a, s') → Succeeds (f a) s') : Succeeds (x >>= f) s := by
  obtain ⟨a, s', hx⟩ := h
  obtain ⟨b, s'', hf⟩ := hnext a s' hx
  exact ⟨b, s'', bind_eq_some.mpr ⟨a, s', hx, hf⟩⟩

theorem query_bind {f : T → α} {g : α → Transaction Valid β} :
    Succeeds (query f >>= g) s ↔ Succeeds (g (f s.data)) s := Iff.rfl

variable [DecidablePred Valid]

theorem exec {f : T → T} (h : Valid (f s.data)) : Succeeds (Transaction.exec f) s :=
  ⟨(), _, exec_of_valid h⟩

theorem exec_bind {f : T → T} {g : Unit → Transaction Valid β} (h : Valid (f s.data))
    (hnext : Succeeds (g ()) ⟨f s.data, h⟩) : Succeeds (Transaction.exec f >>= g) s := by
  rwa [Succeeds, bind_of_eq (exec_of_valid h)]

end Succeeds

end Transaction

end QModem.Lib
