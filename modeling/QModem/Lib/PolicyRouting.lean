import Mathlib.Data.List.Sort
import QModem.Lib.Nft

/-!
# Policy Routing

Routing tables, and rules that choose a table by the mark of a packet.  In a table the longest
prefix counts, then the smallest metric.  Rules are tried in the order of their preference until one
finds a route; a route that says that the destination is unreachable is a route.

## Main results

- `lookup_eq`: the best entry of a table
- `route_eq`: the first rule that finds a route decides
-/

namespace QModem.Lib.PolicyRouting

open List

open Nft (Prefix)

variable {ρ : Type}

/-! ## Tables -/

structure RouteEntry (ρ : Type) where
  dst : Prefix
  metric : ℕ
  route : ρ

/-- The destination of a default route -/
def anywhere : Prefix := ⟨0, 0⟩

def RouteEntry.SameKey (a b : RouteEntry ρ) : Prop := a.dst = b.dst ∧ a.metric = b.metric

instance : DecidableRel (RouteEntry.SameKey (ρ := ρ)) := fun a b =>
  inferInstanceAs (Decidable (a.dst = b.dst ∧ a.metric = b.metric))

/-- `ip route replace` -/
def replace (t : List (RouteEntry ρ)) (e : RouteEntry ρ) : List (RouteEntry ρ) :=
  e :: t.filter fun e' => ¬ e'.SameKey e

/-- `ip route del default` with a metric -/
def deleteDefault (t : List (RouteEntry ρ)) (metric : ℕ) : List (RouteEntry ρ) :=
  t.filter fun e => ¬ (e.dst = anywhere ∧ e.metric = metric)

/-- The first entry counts before the second one. -/
def RouteEntry.beats (a b : RouteEntry ρ) : Bool :=
  b.dst.len < a.dst.len || (a.dst.len = b.dst.len && a.metric ≤ b.metric)

/-- The entry that counts before all others. -/
def best : List (RouteEntry ρ) → Option (RouteEntry ρ)
  | [] => none
  | e :: es =>
    match best es with
    | none => some e
    | some e' => if e.beats e' then some e else some e'

def lookup (t : List (RouteEntry ρ)) (daddr : BitVec 32) : Option (RouteEntry ρ) :=
  best (t.filter (·.dst.contains daddr))

@[simp] theorem anywhere_contains (a : BitVec 32) : anywhere.contains a = true := by
  simp [anywhere, Prefix.contains, BitVec.ushiftRight_eq_zero]

variable {t : List (RouteEntry ρ)} {e : RouteEntry ρ}

/-- The best route is one of the table. -/
theorem mem_of_best (h : best t = some e) : e ∈ t := by
  induction t generalizing e with
  | nil => cases h
  | cons e' t ih =>
    rw [best] at h
    split at h
    · cases Option.some.inj h
      exact mem_cons_self
    · rename_i e'' hbest
      split at h
      · cases Option.some.inj h
        exact mem_cons_self
      · cases Option.some.inj h
        exact mem_cons_of_mem _ (ih hbest)

theorem best_isSome (h : t ≠ []) : ∃ e, best t = some e := by
  cases t with
  | nil => exact absurd rfl h
  | cons e t =>
    rw [best]
    split
    · exact ⟨_, rfl⟩
    · split <;> exact ⟨_, rfl⟩

/-- No other entry counts before the one that is chosen. -/
theorem best_spec {e' : RouteEntry ρ} (h : best t = some e) (he' : e' ∈ t) :
    e'.dst.len < e.dst.len ∨ e'.dst.len = e.dst.len ∧ e.metric ≤ e'.metric := by
  induction t generalizing e with
  | nil => cases h
  | cons a t ih =>
    rw [best] at h
    cases hbest : best t with
    | none =>
      rw [hbest] at h
      cases Option.some.inj h
      -- a table with an entry has a best one
      have hnil : t = [] := by
        by_contra hne
        obtain ⟨b, hb⟩ := best_isSome hne
        cases hbest.symm.trans hb
      subst hnil
      cases mem_singleton.mp he'
      exact .inr ⟨rfl, le_rfl⟩
    | some b =>
      rw [hbest] at h
      unfold RouteEntry.beats at h
      cases he' with
      | head => grind
      | tail _ he' =>
        have := ih hbest he'
        grind

/-- The table gives this route if an entry with it applies and every entry that applies and is not
worse has the same route. -/
theorem lookup_eq {daddr : BitVec 32} (he : e ∈ t) (hdst : e.dst.contains daddr = true)
    (hroute : ∀ e' ∈ t, e'.dst.contains daddr = true → e'.beats e = true → e'.route = e.route) :
    ∃ e', lookup t daddr = some e' ∧ e'.route = e.route := by
  have hmem : e ∈ t.filter (·.dst.contains daddr) := mem_filter.mpr ⟨he, hdst⟩
  obtain ⟨e', he'⟩ := best_isSome (ne_nil_of_mem hmem)
  obtain ⟨hmem', hdst'⟩ := mem_filter.mp (mem_of_best he')
  refine ⟨e', he', hroute e' hmem' hdst' ?_⟩
  have := best_spec he' hmem
  simp only [RouteEntry.beats, Bool.or_eq_true, Bool.and_eq_true, decide_eq_true_eq]
  omega

/-! ## Rules -/

structure IpRule where
  pref : ℕ
  /-- `fwmark value/mask` -/
  value : BitVec 32
  mask : BitVec 32
  table : ℕ
  /-- `suppress_prefixlength 0`: default routes of the table do not count. -/
  suppressDefault : Bool
  deriving DecidableEq

/-- `ip rule add`, unless there is a rule with this preference. -/
def addRule (rules : List IpRule) (r : IpRule) : List IpRule :=
  if rules.any (·.pref = r.pref) then rules else rules.orderedInsert (·.pref ≤ ·.pref) r

variable (tables : ℕ → List (RouteEntry ρ)) (mark daddr : BitVec 32)

/-- The table and the route that a rule finds. -/
def IpRule.find (r : IpRule) : Option (ℕ × ρ) :=
  if mark &&& r.mask = r.value then
    (lookup (tables r.table) daddr).bind fun e =>
      if r.suppressDefault && e.dst.len = 0 then none else some (r.table, e.route)
  else none

def route (rules : List IpRule) : Option (ℕ × ρ) := rules.findSome? fun r => r.find tables mark daddr

variable {tables mark daddr}

variable {rules : List IpRule} {r : IpRule}

theorem mem_addRule {r' : IpRule} (h : r' ∈ addRule rules r) : r' = r ∨ r' ∈ rules := by
  unfold addRule at h
  split at h
  · exact .inr h
  · exact (mem_orderedInsert _).mp h

theorem mem_addRule_of_mem {r' : IpRule} (h : r' ∈ rules) : r' ∈ addRule rules r := by
  unfold addRule
  split
  · exact h
  · exact (mem_orderedInsert _).mpr (.inr h)

/-- The rules stay in order. -/
theorem sorted_addRule (h : rules.Pairwise (·.pref ≤ ·.pref)) (r : IpRule) :
    (addRule rules r).Pairwise (·.pref ≤ ·.pref) := by
  unfold addRule
  split
  · exact h
  · have htotal : Std.Total fun a b : IpRule => a.pref ≤ b.pref := ⟨fun a b => le_total _ _⟩
    have htrans : IsTrans IpRule fun a b => a.pref ≤ b.pref := ⟨fun a b c => le_trans⟩
    exact h.orderedInsert r _

/-- **The first rule that finds a route decides.** -/
theorem route_eq {x : ℕ × ρ} (hsorted : rules.Pairwise (·.pref ≤ ·.pref)) (hr : r ∈ rules)
    (hfind : r.find tables mark daddr = some x)
    (hothers : ∀ r' ∈ rules, r'.pref ≤ r.pref → r' ≠ r → r'.find tables mark daddr = none) :
    route tables mark daddr rules = some x := by
  unfold route
  induction rules with
  | nil => cases hr
  | cons a rules ih =>
    rw [pairwise_cons] at hsorted
    rw [forall_mem_cons] at hothers
    by_cases ha : a = r
    · rw [ha, findSome?_cons, hfind]
    · -- an earlier rule finds nothing
      have hr : r ∈ rules := (mem_cons.mp hr).resolve_left (Ne.symm ha)
      rw [findSome?_cons, hothers.1 (hsorted.1 r hr) ha]
      exact ih hsorted.2 hr hothers.2

end QModem.Lib.PolicyRouting
