import Mathlib

/-!
# Numbers Shared Out by Weight

Consecutive intervals of numbers, one for each element of a list and as long as its weight.

## Main results

- `spans_pairwise`: the intervals do not overlap
- `map_owner_range'`: every number has an owner, and each element owns as many as its weight
- `count_owner`: the same for one element
-/

namespace QModem.Lib

open List

variable {α : Type} (weight : α → ℕ)

/-- The intervals from a start on, with their elements. -/
def spans : ℕ → List α → List ((ℕ × ℕ) × α)
  | _, [] => []
  | start, x :: xs => ((start, start + weight x - 1), x) :: spans (start + weight x) xs

def totalWeight (xs : List α) : ℕ := (xs.map weight).sum

/-- The element whose interval has the number. -/
def owner (start : ℕ) (xs : List α) (n : ℕ) : Option α :=
  ((spans weight start xs).find? fun e => e.1.1 ≤ n && n ≤ e.1.2).map Prod.snd

variable {weight} {start n : ℕ} {x : α} {xs : List α}

@[simp] theorem totalWeight_cons : totalWeight weight (x :: xs) = weight x + totalWeight weight xs := by
  simp [totalWeight]

variable {e : (ℕ × ℕ) × α}

theorem le_of_mem_spans (he : e ∈ spans weight start xs) : start ≤ e.1.1 := by
  induction xs generalizing start with
  | nil => cases he
  | cons x xs ih =>
    cases he with
    | head => exact le_rfl
    | tail _ he => exact (Nat.le_add_right _ _).trans (ih he)

section

variable (hpos : ∀ x ∈ xs, 0 < weight x)

include hpos

/-- Each interval is as long as the weight, and ends before the total. -/
theorem length_of_mem_spans (he : e ∈ spans weight start xs) :
    e.2 ∈ xs ∧ e.1.2 + 1 = e.1.1 + weight e.2 ∧ e.1.2 < start + totalWeight weight xs := by
  induction xs generalizing start with
  | nil => cases he
  | cons x xs ih =>
    rw [forall_mem_cons] at hpos
    rw [totalWeight_cons]
    cases he with
    | head => exact ⟨mem_cons_self, by dsimp only; omega, by dsimp only; omega⟩
    | tail _ he =>
      obtain ⟨hmem, hlength, hend⟩ := ih hpos.2 he
      exact ⟨mem_cons_of_mem _ hmem, hlength, by omega⟩

/-- The intervals do not overlap. -/
theorem spans_pairwise : (spans weight start xs).Pairwise fun e e' => e.1.2 < e'.1.1 := by
  induction xs generalizing start with
  | nil => exact Pairwise.nil
  | cons x xs ih =>
    rw [forall_mem_cons] at hpos
    refine Pairwise.cons (fun e he => ?_) (ih hpos.2)
    have := le_of_mem_spans he
    dsimp only
    omega

/-- There is an interval for each element, in the order of the list. -/
theorem map_spans :
    (spans weight start xs).map (fun e => (e.1.2 + 1 - e.1.1, e.2)) =
      xs.map fun x => (weight x, x) := by
  induction xs generalizing start with
  | nil => rfl
  | cons x xs ih =>
    rw [forall_mem_cons] at hpos
    rw [spans, map_cons, map_cons, ih hpos.2]
    congr 2
    dsimp only
    omega

/-- At most one interval has the number. -/
theorem span_unique {e' : (ℕ × ℕ) × α} (he : e ∈ spans weight start xs)
    (he' : e' ∈ spans weight start xs) (hn : e.1.1 ≤ n ∧ n ≤ e.1.2) (hn' : e'.1.1 ≤ n ∧ n ≤ e'.1.2) :
    e = e' := by
  by_contra hne
  have hdisjoint : (spans weight start xs).Pairwise fun e e' => e.1.2 < e'.1.1 ∨ e'.1.2 < e.1.1 :=
    (spans_pairwise hpos).imp .inl
  have hsymm : Std.Symm fun e e' : (ℕ × ℕ) × α => e.1.2 < e'.1.1 ∨ e'.1.2 < e.1.1 :=
    ⟨fun _ _ => Or.symm⟩
  have := hdisjoint.forall he he' hne
  omega

end

theorem owner_cons_of_lt (hstart : start ≤ n) (hn : n < start + weight x) :
    owner weight start (x :: xs) n = some x := by
  unfold owner
  rw [spans, find?_cons_of_pos (by simp; omega)]
  rfl

theorem owner_cons_of_le (hx : 0 < weight x) (hn : start + weight x ≤ n) :
    owner weight start (x :: xs) n = owner weight (start + weight x) xs n := by
  unfold owner
  rw [spans, find?_cons_of_neg (by simp; omega)]

/-- **Every number up to the total has an owner, and each element owns as many numbers as its
weight.** -/
theorem map_owner_range' (hpos : ∀ x ∈ xs, 0 < weight x) :
    (List.range' start (totalWeight weight xs)).map (owner weight start xs) =
      xs.flatMap fun x => List.replicate (weight x) (some x) := by
  induction xs generalizing start with
  | nil => rfl
  | cons x xs ih =>
    rw [forall_mem_cons] at hpos
    rw [totalWeight_cons, ← range'_append_1, map_append, flatMap_cons]
    -- the numbers of the first item, then those of the others
    congr 1
    · refine eq_replicate_iff.mpr ⟨by simp, fun b hb => ?_⟩
      obtain ⟨n, hn, rfl⟩ := mem_map.mp hb
      rw [mem_range'_1] at hn
      exact owner_cons_of_lt hn.1 hn.2
    · rw [← ih hpos.2]
      refine map_congr_left fun n hn => ?_
      rw [mem_range'_1] at hn
      exact owner_cons_of_le hpos.1 hn.1

/-- In a list without repetitions the numbers that an element owns are as many as its weight. -/
theorem count_owner [DecidableEq α] (hpos : ∀ x ∈ xs, 0 < weight x) (hnodup : xs.Nodup) (hx : x ∈ xs) :
    ((List.range' start (totalWeight weight xs)).map (owner weight start xs)).count (some x) =
      weight x := by
  rw [map_owner_range' hpos]
  induction xs with
  | nil => cases hx
  | cons y xs ih =>
    rw [nodup_cons] at hnodup
    rw [forall_mem_cons] at hpos
    rw [flatMap_cons, count_append, count_replicate]
    by_cases hxy : x = y
    · -- the item comes only once
      have hrest : some x ∉ xs.flatMap fun x => replicate (weight x) (some x) := by
        intro h
        obtain ⟨z, hz, h⟩ := mem_flatMap.mp h
        cases Option.some.inj (eq_of_mem_replicate h)
        exact hnodup.1 (hxy ▸ hz)
      rw [count_eq_zero_of_not_mem hrest]
      simp [hxy]
    · rw [ih hpos.2 hnodup.2 ((mem_cons.mp hx).resolve_left hxy)]
      simp [Ne.symm hxy]

theorem exists_owner (hpos : ∀ x ∈ xs, 0 < weight x) (hn : n < totalWeight weight xs) :
    ∃ x ∈ xs, owner weight 0 xs n = some x := by
  have hmem : owner weight 0 xs n ∈ (range' 0 (totalWeight weight xs)).map (owner weight 0 xs) :=
    mem_map_of_mem (mem_range'_1.mpr ⟨Nat.zero_le n, by omega⟩)
  rw [map_owner_range' hpos] at hmem
  obtain ⟨x, hx, hmem⟩ := mem_flatMap.mp hmem
  exact ⟨x, hx, eq_of_mem_replicate hmem⟩

end QModem.Lib
