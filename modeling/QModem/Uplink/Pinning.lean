import QModem.Uplink.Selection

/-!
# Pinned Connections

A connection that is forwarded, while one policy after the other is published.  It keeps its member,
its packets carry the number of the member, and the rule for that number leads them to the table of
the member alone.  The table of a member that is down ends in `unreachable`.  That of a member which
has been disabled does so only if the member is down as well: publishing looks at the health of a
member, not at `enabled`, and the connections of a healthy member that is disabled are drained.

## Main results

- `prepared_upNftPublish`: rules and tables after any sequence of publications
- `forward_denied`, `forward_down`, `forward_healthy`: where marked packets go
- `pinned_drains`: connections are pinned without leaks under any sequence of policies
- `disabled_link_open`: a member that is disabled but healthy still lets its packets out
-/

namespace QModem.Uplink

open Lib Nft PolicyRouting
open List hiding replace

/-! ## Rules and tables -/

/-- Rules and tables of the manager -/
structure Prepared (r : Router) : Prop where
  sorted : r.rules.Pairwise (·.pref ≤ ·.pref)
  forms : ∀ rule ∈ r.rules, (∃ id, 1 ≤ id ∧ id ≤ 64 ∧ rule = flowRule id) ∨ rule = denyRule ∨
    31064 < rule.pref
  deny : denyRule ∈ r.rules
  denied : r.tables 31264 = [Router.unreachableDefault]
  flows : ∀ id, 1 ≤ id → id ≤ 64 → ∀ e ∈ r.tables (flowTable id),
    e = Router.unreachableDefault ∨ e.dst = anywhere ∧ e.metric = 1

def Row.default (row : Row) : RouteEntry Route :=
  ⟨anywhere, 1, upRouteDefault row.device row.address row.gateway⟩

/-- The rule and the table of a member are as its row says. -/
structure Serves (r : Router) (row : Row) : Prop where
  rule : flowRule row.member.markId ∈ r.rules
  up : row.healthy = true → row.default ∈ r.tables (flowTable row.member.markId) ∧
    ∀ e ∈ r.tables (flowTable row.member.markId), e = row.default ∨ e = Router.unreachableDefault
  down : row.healthy = false → r.tables (flowTable row.member.markId) = [Router.unreachableDefault]

variable {r : Router} {row row' : Row}

variable (r row)

/-- The table of the member after its row has been dealt with -/
theorem tables_prepare :
    (r.prepare row).tables = Function.update r.tables (flowTable row.member.markId)
      (if row.healthy then
        replace (replace (r.tables (flowTable row.member.markId)) Router.unreachableDefault) row.default
      else deleteDefault
        (replace (r.tables (flowTable row.member.markId)) Router.unreachableDefault) 1) := by
  unfold Router.prepare Router.replaceRoute
  cases row.healthy <;> simp [Row.default]

theorem rules_prepare : (r.prepare row).rules = addRule r.rules (flowRule row.member.markId) := by
  unfold Router.prepare Router.replaceRoute
  cases row.healthy <;> rfl

theorem flowTable_inj {id id' : ℕ} (h : 1 ≤ id) (h' : 1 ≤ id') (heq : flowTable id = flowTable id') :
    id = id' := by
  unfold flowTable at heq
  omega

/-- A healthy member has its default route besides the terminal one, others have the terminal one
only. -/
theorem table_prepare (t : List (RouteEntry Route))
    (ht : ∀ e ∈ t, e = Router.unreachableDefault ∨ e.dst = anywhere ∧ e.metric = 1) :
    deleteDefault (replace t Router.unreachableDefault) 1 = [Router.unreachableDefault] ∧
      ∀ e ∈ replace (replace t Router.unreachableDefault) row.default,
        e = row.default ∨ e = Router.unreachableDefault := by
  constructor
  · -- of the routes with metric 1 nothing is left, and those with metric 32767 are one
    unfold deleteDefault replace
    rw [filter_cons_of_pos (by decide), filter_filter]
    congr 1
    refine filter_eq_nil_iff.mpr fun e he => ?_
    obtain rfl | ⟨hdst, hmetric⟩ := ht e he
    · decide
    · simp [hdst, hmetric]
  · intro e he
    cases he with
    | head => exact .inl rfl
    | tail _ he =>
      obtain ⟨he, hkey⟩ := mem_filter.mp he
      cases he with
      | head => exact .inr rfl
      | tail _ he =>
        obtain rfl | ⟨hdst, hmetric⟩ := ht e (mem_of_mem_filter he)
        · exact .inr rfl
        · simp [RouteEntry.SameKey, Row.default, hdst, hmetric] at hkey

variable {r row}

theorem flowTable_ne_deny {id : ℕ} (h : id ≤ 64) : flowTable id ≠ 31264 := by
  unfold flowTable
  omega

/-- If the preference of the rule of a member is taken, it is by this rule. -/
theorem flowRule_mem_addRule (h : Prepared r) {id : ℕ} (hlow : 1 ≤ id) (hhigh : id ≤ 64) :
    flowRule id ∈ addRule r.rules (flowRule id) := by
  unfold addRule
  split
  · rename_i hany
    obtain ⟨rule, hrule, hpref⟩ := any_eq_true.mp hany
    have hpref : rule.pref = 31000 + id - 1 := of_decide_eq_true hpref
    obtain ⟨id', hlow', hhigh', rfl⟩ | rfl | hlate := h.forms rule hrule
    · -- preferences of members are as different as their numbers
      have hpref : 31000 + id' - 1 = 31000 + id - 1 := hpref
      have heq : id' = id := by omega
      exact heq ▸ hrule
    · have hpref : 31064 = 31000 + id - 1 := hpref
      omega
    · omega
  · exact (mem_orderedInsert _).mpr (.inl rfl)

section Prepare

variable (hlow : 1 ≤ row.member.markId) (hhigh : row.member.markId ≤ 64)

include hlow hhigh in
/-- Preparing one member keeps the form of rules and tables. -/
theorem prepared_prepare (h : Prepared r) : Prepared (r.prepare row) where
  sorted := by
    rw [rules_prepare]
    exact sorted_addRule h.sorted _
  forms rule hrule := by
    rw [rules_prepare] at hrule
    obtain rfl | hrule := mem_addRule hrule
    · exact .inl ⟨_, hlow, hhigh, rfl⟩
    · exact h.forms rule hrule
  deny := by
    rw [rules_prepare]
    exact mem_addRule_of_mem h.deny
  denied := by
    rw [tables_prepare, Function.update_of_ne (flowTable_ne_deny hhigh).symm, h.denied]
  flows id hid hid' e he := by
    rw [tables_prepare] at he
    -- no other table is touched, by the distance of their numbers
    by_cases heq : flowTable id = flowTable row.member.markId
    · obtain ⟨hdown, hup⟩ := table_prepare row _ (h.flows _ hlow hhigh)
      rw [heq, Function.update_self] at he
      split at he
      · obtain rfl | rfl := hup e he
        · exact .inr ⟨rfl, rfl⟩
        · exact .inl rfl
      · rw [hdown] at he
        exact .inl (mem_singleton.mp he)
    · rw [Function.update_of_ne heq] at he
      exact h.flows id hid hid' e he

include hlow hhigh in
/-- After it the member is served as its row says. -/
theorem serves_prepare (h : Prepared r) : Serves (r.prepare row) row where
  rule := by
    rw [rules_prepare]
    exact flowRule_mem_addRule h hlow hhigh
  up hhealthy := by
    rw [tables_prepare, Function.update_self, if_pos hhealthy]
    exact ⟨mem_cons_self, (table_prepare row _ (h.flows _ hlow hhigh)).2⟩
  down hdown := by
    rw [tables_prepare, Function.update_self, if_neg (by simp [hdown])]
    exact (table_prepare row _ (h.flows _ hlow hhigh)).1

include hlow in
/-- Other members are not touched. -/
theorem Serves.prepare (h : Serves r row') (hlow' : 1 ≤ row'.member.markId)
    (hne : row'.member.markId ≠ row.member.markId) : Serves (r.prepare row) row' := by
  have htable : (r.prepare row).tables (flowTable row'.member.markId) =
      r.tables (flowTable row'.member.markId) := by
    rw [tables_prepare, Function.update_of_ne fun heq => hne (flowTable_inj hlow' hlow heq)]
  refine ⟨?_, fun hup => htable ▸ h.up hup, fun hdown => htable ▸ h.down hdown⟩
  rw [rules_prepare]
  exact mem_addRule_of_mem h.rule

end Prepare

/-- The loop over the members: each one is dealt with, and what has been done stays. -/
theorem foldl_prepare (rows : List Row)
    (hrange : ∀ row ∈ rows, 1 ≤ row.member.markId ∧ row.member.markId ≤ 64)
    (hnodup : (rows.map (·.member.markId)).Nodup) (h : Prepared r) :
    Prepared (rows.foldl Router.prepare r) ∧
      (∀ row ∈ rows, Serves (rows.foldl Router.prepare r) row) ∧
      ∀ row, 1 ≤ row.member.markId → row.member.markId ∉ rows.map (·.member.markId) →
        Serves r row → Serves (rows.foldl Router.prepare r) row := by
  -- the third part is what the first member needs from the turns after its own
  induction rows generalizing r with
  | nil => exact ⟨h, by simp, fun _ _ _ h => h⟩
  | cons row rows ih =>
    rw [forall_mem_cons] at hrange
    rw [map_cons, nodup_cons] at hnodup
    obtain ⟨⟨hlow, hhigh⟩, hrange⟩ := hrange
    obtain ⟨hprepared, hserved, hkept⟩ := ih hrange hnodup.2 (prepared_prepare hlow hhigh h)
    refine ⟨hprepared, ?_, fun row' hlow' hnot hserves => ?_⟩
    · rw [forall_mem_cons]
      exact ⟨hkept row hlow hnodup.1 (serves_prepare hlow hhigh h), hserved⟩
    · rw [map_cons, mem_cons, not_or] at hnot
      exact hkept row' hlow' hnot.2 (hserves.prepare hlow hlow' hnot.1)

/-- **Rules and tables after a publication** -/
theorem prepared_upNftPublish (h : Prepared r) (p : Policy) :
    Prepared (r.upNftPublish p).1 ∧ ∀ row ∈ p.result, Serves (r.upNftPublish p).1 row := by
  obtain ⟨hprepared, hserved, -⟩ := foldl_prepare p.result
    (fun row hrow => p.accepted.markIds _ (mem_map_of_mem hrow)) (result_nodup p) h
  -- the sessions are no part of this
  exact ⟨⟨hprepared.sorted, hprepared.forms, hprepared.deny, hprepared.denied, hprepared.flows⟩,
    fun row hrow => ⟨(hserved row hrow).rule, (hserved row hrow).up, (hserved row hrow).down⟩⟩

variable (others : ℕ → List (RouteEntry Route))

theorem rules_upPolicyInit :
    (Router.bare others).upPolicyInit.rules =
      [denyRule, ⟨31100, 0, 0, 254, true⟩, ⟨31101, 0, 0, 31099, false⟩, ⟨32766, 0, 0, 254, false⟩,
        ⟨32767, 0, 0, 253, false⟩] := rfl

/-- The start of the manager gives them this form. -/
theorem prepared_upPolicyInit : Prepared (Router.bare others).upPolicyInit where
  sorted := by
    rw [rules_upPolicyInit]
    decide
  forms := by
    rw [rules_upPolicyInit]
    simp
  deny := by
    exact mem_cons_self
  denied := by
    simp [Router.upPolicyInit, Router.replaceRoute, Router.bare, replace]
  flows id hlow hhigh e he := by
    -- the tables of the flows are empty: their numbers are in the manager's range
    have hdeny := flowTable_ne_deny hhigh
    have hbusiness : flowTable id ≠ 31099 := by unfold flowTable; omega
    have hrange : 31099 ≤ flowTable id ∧ flowTable id ≤ 31264 := by unfold flowTable; omega
    simp [Router.upPolicyInit, Router.replaceRoute, Router.bare, hdeny, hbusiness, hrange] at he

/-! ## Where marked packets go -/

variable {mark daddr : BitVec 32} {id : ℕ}

/-- The rule of another member does not apply. -/
theorem find_flowRule_ne {id' : ℕ} (hid : id ≤ 255) (hid' : id' ≤ 255)
    (hmark : mark &&& upMask = shifted id) (hne : id' ≠ id) :
    (flowRule id').find r.tables mark daddr = none := by
  refine if_neg fun h => ?_
  exact hne (shifted_inj hid' hid (h.symm.trans hmark))

/-- The table of a rule for marks decides. -/
theorem find_of_lookup {rule : IpRule} {route : Route} (hmatch : mark &&& rule.mask = rule.value)
    (hsuppress : rule.suppressDefault = false)
    (hlookup : ∃ e, lookup (r.tables rule.table) daddr = some e ∧ e.route = route) :
    rule.find r.tables mark daddr = some (rule.table, route) := by
  obtain ⟨e, he, rfl⟩ := hlookup
  rw [IpRule.find, if_pos hmatch, he, Option.bind_some, hsuppress]
  rfl

theorem lookup_unreachable {t : List (RouteEntry Route)} (ht : t = [Router.unreachableDefault]) :
    ∃ e, lookup t daddr = some e ∧ e.route = .unreachable := by
  subst ht
  exact lookup_eq mem_cons_self (anywhere_contains daddr) fun e he _ _ => by
    rw [mem_singleton.mp he]

/-- **Denied packets** go nowhere. -/
theorem forward_denied (h : Prepared r) (hmark : mark &&& upMask = shifted 255) :
    r.forward mark daddr = some (31264, .unreachable) := by
  have hdeny : denyRule.find r.tables mark daddr = some (31264, .unreachable) :=
    find_of_lookup hmark rfl (lookup_unreachable h.denied)
  -- no rule before it applies: they are those of members, and the mark is no member's
  refine route_eq h.sorted h.deny hdeny fun rule hrule hpref hne => ?_
  obtain ⟨id, hlow, hhigh, rfl⟩ | rfl | hlate := h.forms rule hrule
  · exact find_flowRule_ne le_rfl (by omega) hmark (by omega)
  · exact absurd rfl hne
  · exact absurd hpref (by simpa [denyRule] using hlate)

/-- The rule of the member comes first, and its table decides. -/
theorem forward_flow (h : Prepared r) (hrule : flowRule id ∈ r.rules) (hlow : 1 ≤ id) (hhigh : id ≤ 64)
    (hmark : mark &&& upMask = shifted id) {route : Route}
    (hlookup : ∃ e, lookup (r.tables (flowTable id)) daddr = some e ∧ e.route = route) :
    r.forward mark daddr = some (flowTable id, route) := by
  refine route_eq h.sorted hrule (find_of_lookup hmark rfl hlookup) fun rule hrule hpref hne => ?_
  have hpref : rule.pref ≤ 31000 + id - 1 := hpref
  obtain ⟨id', hlow', hhigh', rfl⟩ | rfl | hlate := h.forms rule hrule
  · exact find_flowRule_ne (by omega) (by omega) hmark fun heq => hne (heq ▸ rfl)
  · have hpref : 31064 ≤ 31000 + id - 1 := hpref
    omega
  · omega

section Row

variable (h : Prepared r) (hserves : Serves r row) (hlow : 1 ≤ row.member.markId)
  (hhigh : row.member.markId ≤ 64) (hmark : mark &&& upMask = shifted row.member.markId)

include h hserves hlow hhigh hmark

/-- **Packets of a member that is down** go nowhere. -/
theorem forward_down (hdown : row.healthy = false) :
    r.forward mark daddr = some (flowTable row.member.markId, .unreachable) :=
  forward_flow h hserves.rule hlow hhigh hmark (lookup_unreachable (hserves.down hdown))

/-- Packets of a healthy member leave through it, whether it is enabled or not. -/
theorem forward_healthy (hup : row.healthy = true) :
    r.forward mark daddr = some (flowTable row.member.markId,
      upRouteDefault row.device row.address row.gateway) := by
  obtain ⟨hdefault, honly⟩ := hserves.up hup
  refine forward_flow h hserves.rule hlow hhigh hmark ?_
  refine lookup_eq hdefault (anywhere_contains daddr) fun e he _ hbeats => ?_
  -- the terminal route has the larger metric
  obtain rfl | rfl := honly e he
  · rfl
  · simp [RouteEntry.beats, Row.default, Router.unreachableDefault] at hbeats

end Row

/-! ## A connection under one policy after the other -/

/-- A router with the policy published last, and the mark of a connection through it -/
structure Flow where
  router : Router
  policy : Policy
  ct : BitVec 32

inductive FlowEvent where
  | publish (p : Policy)
  /-- A packet of the connection, with the mark it comes with -/
  | packet (packet : Packet Text) (mark : BitVec 32)

namespace Flow

/-- The first policy has been published. -/
def start (others : ℕ → List (RouteEntry Route)) (p : Policy) (ct : BitVec 32) : Flow :=
  ⟨((Router.bare others).upPolicyInit.upNftPublish p).1, p, ct⟩

/-- When its connections are deleted, the next packet opens a new one. -/
def step (s : Flow) : FlowEvent → Flow
  | .publish p =>
    let (router, deleted) := s.router.upNftPublish p
    ⟨router, p, if deleted.any (fun id => s.ct &&& upMask = shifted id) then 0 else s.ct⟩
  | .packet packet mark =>
    { s with ct := ((s.policy.prerouting packet ⟨s.ct, mark⟩).map Marks.ct).getD s.ct }

/-- A packet of the connection is marked and routed as it should be, if these members are shut. -/
structure Pinned (shut : Row → Prop) (s : Flow) (packet : Packet Text) (after : Marks) : Prop where
  /-- A connection that has a number keeps it, and the packet gets it. -/
  kept : ∀ id ∈ chainIds, s.ct &&& upMask = shifted id →
    after.ct = s.ct ∧ after.packet &&& upMask = shifted id
  /-- A new connection from the local network goes where the first rule that matches says. -/
  fixed : s.ct &&& upMask = 0 → packet.iif ∈ s.policy.lanDevices →
    ∀ rule, s.policy.rules.find? (·.matches packet) = some rule →
      after.ct &&& upMask = shifted rule.mark ∧ after.packet &&& upMask = shifted rule.mark
  /-- Members that are shut let nothing out. -/
  closed : ∀ row ∈ s.policy.result, shut row → after.packet &&& upMask = shifted row.member.markId →
    s.router.forward after.packet packet.daddr = some (flowTable row.member.markId, .unreachable)
  denied : after.packet &&& upMask = shifted 255 →
    s.router.forward after.packet packet.daddr = some (31264, .unreachable)

/-- The packets of a healthy member, enabled or not, leave through its own gateway. -/
def Drains (s : Flow) (packet : Packet Text) (after : Marks) : Prop :=
  ∀ row ∈ s.policy.result, row.healthy = true →
    after.packet &&& upMask = shifted row.member.markId →
      s.router.forward after.packet packet.daddr = some (flowTable row.member.markId,
        upRouteDefault row.device row.address row.gateway)

/-- Every packet that is forwarded is marked and routed rightly, and a connection that is not deleted
keeps its mark when a policy is published. -/
def Holds (right : Flow → Packet Text → Marks → Prop) (s : Flow) : FlowEvent → Prop
  | .publish p => (∀ id ∈ (s.router.upNftPublish p).2, s.ct &&& upMask ≠ shifted id) →
    (s.step (.publish p)).ct = s.ct
  | .packet packet mark => s.policy.Forwarded packet →
    ∃ after, s.policy.prerouting packet ⟨s.ct, mark⟩ = some after ∧ right s packet after

/-- Rules and tables are those of the policy. -/
def Published (s : Flow) : Prop :=
  Prepared s.router ∧ ∀ row ∈ s.policy.result, Serves s.router row

theorem published_step (s : Flow) (e : FlowEvent) (h : s.Published) : (s.step e).Published := by
  cases e with
  | publish p => exact prepared_upNftPublish h.1 p
  | packet packet mark => exact h

variable {s : Flow}

theorem kept_of_prerouting {packet : Packet Text} {after : Marks}
    (hforwarded : s.policy.Forwarded packet)
    (hafter : s.policy.prerouting packet ⟨s.ct, mark⟩ = some after) :
    ∀ id ∈ chainIds, s.ct &&& upMask = shifted id →
      after.ct = s.ct ∧ after.packet &&& upMask = shifted id := by
  intro id hid hct
  cases Option.some.inj ((prerouting_kept hforwarded hid hct).symm.trans hafter)
  exact ⟨rfl, and_withField (shifted_valid hid).1 mark⟩

/-- A new connection gets the mark of the first rule that matches. -/
theorem fixed_of_prerouting {packet : Packet Text} {after : Marks}
    (hforwarded : s.policy.Forwarded packet)
    (hafter : s.policy.prerouting packet ⟨s.ct, mark⟩ = some after) :
    s.ct &&& upMask = 0 → packet.iif ∈ s.policy.lanDevices →
      ∀ rule, s.policy.rules.find? (·.matches packet) = some rule →
        after.ct &&& upMask = shifted rule.mark ∧ after.packet &&& upMask = shifted rule.mark := by
  intro hct hlan rule hrule
  have hchoice : s.policy.choice packet = rule.mark := by rw [Policy.choice, hrule]
  have hvalid := (shifted_valid (choice_mem_chainIds (p := s.policy) packet)).1
  cases Option.some.inj ((prerouting_new hforwarded hlan hct).symm.trans hafter)
  rw [← hchoice]
  exact ⟨and_withField hvalid s.ct, and_withField hvalid mark⟩

/-- Members that are down let nothing out, and the others let it out by themselves only. -/
def Tight (s : Flow) (packet : Packet Text) (after : Marks) : Prop :=
  s.Pinned (·.healthy = false) packet after ∧ s.Drains packet after

/-- While the router is as the policy says, no packet leaves by a wrong link. -/
theorem holds_of_published (h : s.Published) (e : FlowEvent) : s.Holds Tight e := by
  have hrange : ∀ row ∈ s.policy.result, 1 ≤ row.member.markId ∧ row.member.markId ≤ 64 :=
    fun row hrow => s.policy.accepted.markIds _ (mem_map_of_mem hrow)
  cases e with
  | publish p =>
    intro hkept
    refine if_neg fun hdeleted => ?_
    obtain ⟨id, hid, heq⟩ := any_eq_true.mp hdeleted
    exact hkept id hid (of_decide_eq_true heq)
  | packet packet mark =>
    intro hforwarded
    obtain ⟨after, hafter⟩ := prerouting_isSome hforwarded ⟨s.ct, mark⟩
    -- marks follow from the policy in force, routes from what has been published
    refine ⟨after, hafter, ⟨kept_of_prerouting hforwarded hafter,
      fixed_of_prerouting hforwarded hafter, fun row hrow hdown hmark => ?_, forward_denied h.1⟩,
      fun row hrow hup hmark => ?_⟩
    · exact forward_down h.1 (h.2 row hrow) (hrange row hrow).1 (hrange row hrow).2 hmark hdown
    · exact forward_healthy h.1 (h.2 row hrow) (hrange row hrow).1 (hrange row hrow).2 hmark hup

/-- **Connections are pinned without leaks**: under any sequence of policies a connection keeps its
number, new connections follow the first rule that matches, members that are down and denied packets
end in `unreachable`, and every other member lets its packets out through its own gateway. -/
theorem pinned_drains (others : ℕ → List (RouteEntry Route)) (p : Policy) (ct : BitVec 32)
    (events : List FlowEvent) : Along step (Holds Tight) (start others p ct) events := by
  have hpublished : Throughout step Published (start others p ct) events :=
    throughout_of_step (prepared_upNftPublish (prepared_upPolicyInit others) p)
      fun s e _ h => published_step s e h
  exact hpublished.along fun s e h => holds_of_published h e

/-! ### A member that is disabled while a connection uses it -/

/-- The configuration of two links with the first one disabled -/
def linkDisabled : Config :=
  { twoLinks with
    members := twoLinks.members.map fun x =>
      if x.target = some (ascii "wan") then { x with enabled := some (ascii "0") } else x }

def linkDisabledLoaded : List Reload := twoLinksLoaded ++ [⟨⟨true, fun _ => false⟩, linkDisabled⟩]

/-- All members are healthy as before. -/
def linkDisabledPolicy : Policy :=
  Policy.ofRound (run reload booted linkDisabledLoaded)
    (usable_throughout booted linkDisabledLoaded).last (by decide +kernel)
    (fun x => ⟨x.target, ascii "192.0.2.2", ascii "192.0.2.1", [], ascii "4", true⟩)
    [⟨none, some (ascii "wan")⟩, ⟨some (ascii "192.168.1.0/24"), some (ascii "br-lan")⟩]

/-- A connection is opened over the first link, which is then disabled. -/
def disabling : List FlowEvent := [.packet lanPacket 0, .publish linkDisabledPolicy]

/-- A member is down or disabled. -/
def Off (row : Row) : Prop := row.healthy = false ∨ row.member.enabled = false

/-- The next packet of the connection still leaves through the link. -/
theorem disabled_link_open : ¬ Along step (Holds (Pinned Off)) (start (fun _ => []) twoLinksPolicy 0)
    (disabling ++ [.packet lanPacket 0]) := by
  intro h
  obtain ⟨-, hpacket, -⟩ := (along_append disabling [.packet lanPacket 0]).mp h
  obtain ⟨after, hafter, hpinned⟩ := hpacket ⟨rfl, by decide +kernel⟩
  -- the connection keeps the mark of the link that was disabled
  have hmarks : (run step (start (fun _ => []) twoLinksPolicy 0) disabling).policy.prerouting lanPacket
      ⟨(run step (start (fun _ => []) twoLinksPolicy 0) disabling).ct, 0⟩ =
        some ⟨shifted 1, shifted 1⟩ := by decide +kernel
  cases Option.some.inj (hmarks.symm.trans hafter)
  obtain ⟨row, hrow, hid, hdisabled⟩ : ∃ row ∈ linkDisabledPolicy.result,
      row.member.markId = 1 ∧ row.member.enabled = false := by decide +kernel
  have hclosed := hpinned.closed row hrow (.inr hdisabled) (by rw [hid]; decide)
  rw [hid] at hclosed
  revert hclosed
  decide +kernel

end Flow

end QModem.Uplink
