import Mathlib

/-!
# Ring Buffers

A ring of `n` slots with a head and a count, as the list of its contents; and the bounded FIFO it
implements, which makes room by dropping its oldest item.
-/

namespace QModem.Lib

open List

variable {α β : Type} {n : ℕ}

/-- `n` slots, of which `count` are in use from `head` on, around the end of the array. -/
structure Ring (α : Type) (n : ℕ) where
  slots : Fin n → α
  head : ℕ
  count : ℕ
  head_lt : head < n
  count_le : count ≤ n

namespace Ring

/-- The slot `i` places behind the head. -/
def index (r : Ring α n) (i : ℕ) : Fin n :=
  ⟨(r.head + i) % n, Nat.mod_lt _ (r.head.zero_le.trans_lt r.head_lt)⟩

def toList (r : Ring α n) : List α := (List.range r.count).map fun i => r.slots (r.index i)

def empty (a : α) (hn : 0 < n) : Ring α n := ⟨fun _ => a, 0, 0, hn, n.zero_le⟩

def push (r : Ring α n) (a : α) (h : r.count < n) : Ring α n :=
  { r with slots := Function.update r.slots (r.index r.count) a, count := r.count + 1, count_le := h }

/-- Moves the head on. -/
def pop (r : Ring α n) : Ring α n :=
  { r with
    head := (r.head + 1) % n
    count := r.count - 1
    head_lt := Nat.mod_lt _ (r.head.zero_le.trans_lt r.head_lt)
    count_le := (Nat.sub_le _ _).trans r.count_le }

theorem count_pop_lt (r : Ring α n) : r.pop.count < n :=
  (Nat.sub_le_sub_right r.count_le 1).trans_lt (Nat.sub_one_lt_of_lt r.head_lt)

/-- The slot at the head. -/
def front (r : Ring α n) : α := r.slots (r.index 0)

def modifyFront (r : Ring α n) (f : α → α) : Ring α n :=
  { r with slots := Function.update r.slots (r.index 0) (f r.front) }

variable {r : Ring α n}

theorem length_toList : r.toList.length = r.count := by simp [toList]

/-- Slots less than `n` places apart are different ones. -/
theorem index_ne {i j : ℕ} (hij : i < j) (hj : j < n) : r.index i ≠ r.index j := by
  intro h
  have hmod : (r.head + i) % n = (r.head + j) % n := congrArg Fin.val h
  have hdvd : n ∣ (r.head + j) - (r.head + i) :=
    Nat.dvd_of_mod_eq_zero (Nat.sub_mod_eq_zero_of_mod_eq hmod.symm)
  have hle := Nat.le_of_dvd (by omega) hdvd
  omega

theorem toList_push (a : α) (h : r.count < n) : (r.push a h).toList = r.toList ++ [a] := by
  have hold : ∀ i ∈ range r.count,
      Function.update r.slots (r.index r.count) a (r.index i) = r.slots (r.index i) := by
    intro i hi
    exact Function.update_of_ne (index_ne (mem_range.mp hi) h) _ _
  show (range (r.count + 1)).map
    (fun i => Function.update r.slots (r.index r.count) a (r.index i)) = _
  rw [range_succ, map_append, map_congr_left hold, map_singleton, Function.update_self]
  rfl

theorem index_pop (i : ℕ) : r.pop.index i = r.index (i + 1) := by
  refine Fin.ext ?_
  show ((r.head + 1) % n + i) % n = (r.head + (i + 1)) % n
  rw [Nat.mod_add_mod]
  congr 1
  omega

theorem toList_eq_cons (h : 0 < r.count) : r.toList = r.front :: r.pop.toList := by
  obtain ⟨m, hm⟩ : ∃ m, r.count = m + 1 := ⟨r.count - 1, by omega⟩
  have hpop : r.pop.count = m := by
    show r.count - 1 = m
    omega
  rw [toList, hm, range_succ_eq_map, map_cons, map_map, toList, hpop]
  refine congrArg _ (map_congr_left fun i _ => ?_)
  exact congrArg r.slots (index_pop i).symm

/-- Changing the front of the ring changes the first element. -/
theorem toList_modifyFront (f : α → α) : (r.modifyFront f).toList = r.toList.modifyHead f := by
  rcases Nat.eq_zero_or_pos r.count with h | h
  · simp [toList, modifyFront, h]
  · have hfront : (r.modifyFront f).front = f r.front := Function.update_self _ _ _
    have hrest : (r.modifyFront f).pop.toList = r.pop.toList := by
      refine map_congr_left fun i hi => Function.update_of_ne ?_ _ _
      have hlt : i < r.count - 1 := mem_range.mp hi
      have hne := index_ne (r := r) (Nat.succ_pos i) (by have := r.count_le; omega)
      exact fun heq => hne (heq.symm.trans (index_pop i))
    rw [toList_eq_cons h, toList_eq_cons (r := r.modifyFront f) h, hfront, hrest]
    rfl

end Ring

/-! ## The bounded FIFO -/

/-- A FIFO, with the items it has delivered and the number of those it has lost. -/
structure DropOldest (α : Type) where
  queued : List α := []
  delivered : List α := []
  dropped : ℕ := 0

namespace DropOldest

def refuse (q : DropOldest α) : DropOldest α := { q with dropped := q.dropped + 1 }

/-- Appends an item; with `n` items in the queue, the oldest one has to go. -/
def push (n : ℕ) (q : DropOldest α) (a : α) : DropOldest α :=
  if q.queued.length < n then { q with queued := q.queued ++ [a] }
  else { q with queued := q.queued.tail ++ [a], dropped := q.dropped + 1 }

/-- Offers an item, which is taken if it fits. -/
def offer (n : ℕ) (fits : α → Bool) (q : DropOldest α) (a : α) : DropOldest α :=
  if fits a then q.push n a else q.refuse

/-- Delivers the oldest item. -/
def pop (q : DropOldest α) : DropOldest α :=
  match q.queued with
  | [] => q
  | a :: rest => { q with queued := rest, delivered := q.delivered ++ [a] }

/-- What is delivered or queued are items in the order they were offered, the queue holds the newest
of those that fit, and every other item is counted. -/
structure Accounts (fits : α → Bool) (offered : List α) (q : DropOldest α) : Prop where
  order : (q.delivered ++ q.queued).Sublist (offered.filter fits)
  newest : q.queued <:+ offered.filter fits
  total : q.delivered.length + q.queued.length + q.dropped = offered.length

namespace Accounts

variable {fits : α → Bool} {offered : List α} {q : DropOldest α}

theorem empty : Accounts fits [] ({} : DropOldest α) :=
  ⟨Sublist.refl _, suffix_refl _, rfl⟩

/-- What is taken from the queue stays accounted for. -/
theorem pop (h : Accounts fits offered q) : Accounts fits offered q.pop := by
  unfold DropOldest.pop
  cases hq : q.queued with
  | nil => exact h
  | cons a rest =>
    constructor
    · simpa [hq] using h.order
    · exact (suffix_cons a rest).trans (hq ▸ h.newest)
    · have := h.total
      simp only [hq, length_cons] at this
      simp only [length_append, length_singleton]
      omega

/-- **Accounting**: what is offered is queued, takes the place of the oldest, or is refused. -/
theorem offer (h : Accounts fits offered q) (hn : 0 < n) (a : α) :
    Accounts fits (offered ++ [a]) (q.offer n fits a) := by
  unfold DropOldest.offer
  split <;> rename_i hfits
  · have hfilter : (offered ++ [a]).filter fits = offered.filter fits ++ [a] := by
      simp [filter_append, hfits]
    unfold push
    split <;> rename_i hroom
    · constructor
      · rw [hfilter, ← append_assoc]
        exact h.order.append (Sublist.refl [a])
      · rw [hfilter]
        obtain ⟨older, hsplit⟩ := h.newest
        exact ⟨older, by rw [← append_assoc, hsplit]⟩
      · have := h.total
        simp only [length_append, length_singleton]
        omega
    · constructor
      · rw [hfilter, ← append_assoc]
        refine Sublist.append ?_ (Sublist.refl [a])
        -- the oldest one is dropped, and the rest keeps its order
        exact (Sublist.append (Sublist.refl _) (tail_sublist _)).trans h.order
      · rw [hfilter]
        obtain ⟨older, hsplit⟩ := (tail_suffix _).trans h.newest
        exact ⟨older, by rw [← append_assoc, hsplit]⟩
      · have := h.total
        simp only [length_append, length_tail, length_singleton]
        omega
  · have hfilter : (offered ++ [a]).filter fits = offered.filter fits := by
      simp [filter_append, hfits]
    constructor
    · rw [hfilter]
      exact h.order
    · rw [hfilter]
      exact h.newest
    · have := h.total
      simp only [refuse, length_append, length_singleton]
      omega

end Accounts

end DropOldest

end QModem.Lib
