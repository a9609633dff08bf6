import QModem.Uplink.Marking

/-!
# Selection by Health, Priority and Weight

New connections from the local network that no rule matches are spread over the enabled and healthy
members of the lowest priority value, or over the first of them.  The list of members is sorted, so
that the first one that can be used has the lowest value.

## Main results

- `selected_eq`: the members that are selected
- `spread_by_weight`: where new connections go
-/

namespace QModem.Uplink

open Lib Nft List

namespace Policy

variable (p : Policy)

/-- Members that can be used -/
def usable : List Row := p.result.filter fun row => row.member.enabled && row.healthy

/-- Those of the lowest priority value among them -/
def leading : List Row :=
  p.usable.filter fun row => p.usable.all fun other => row.member.priority ≤ other.member.priority

/-- The members that new connections are meant to be spread over -/
def leaders : List Row := if p.mode = ascii "failover" then p.leading.take 1 else p.leading

end Policy

variable {p : Policy} {packet : Packet Text} {m : Marks}

theorem usable_sorted : p.usable.Pairwise fun a b => a.member.priority ≤ b.member.priority := by
  have hsorted := pairwise_map.mp p.accepted.sorted
  refine (hsorted.imp fun {a b} h => ?_).filter _
  obtain h | ⟨h, -⟩ := h
  · exact h.le
  · exact h.le

/-- **The members that are selected** -/
theorem selected_eq (p : Policy) : p.selected = p.leaders := by
  have husable : p.result.filter (fun row => row.healthy && row.member.enabled) = p.usable := by
    simp only [Policy.usable, Bool.and_comm]
  have hsorted := usable_sorted (p := p)
  rw [Policy.selected, Policy.leaders, Policy.leading, husable]
  cases hfirst : p.usable with
  | nil => simp
  | cons first rest =>
    rw [hfirst, pairwise_cons] at hsorted
    -- the first one has the lowest value
    have hlowest : ∀ row ∈ first :: rest, first.member.priority ≤ row.member.priority := by
      rw [forall_mem_cons]
      exact ⟨le_rfl, hsorted.1⟩
    have hlead : ∀ row ∈ first :: rest, ((first :: rest).all fun other =>
        row.member.priority ≤ other.member.priority) =
          decide (row.member.priority = first.member.priority) := by
      intro row hrow
      rw [Bool.eq_iff_iff, all_eq_true]
      simp only [decide_eq_true_eq]
      exact ⟨fun h => le_antisymm (h first mem_cons_self) (hlowest row hrow),
        fun h other hother => h ▸ hlowest other hother⟩
    rw [filter_congr hlead]
    dsimp only
    split
    · rw [filter_cons_of_pos (by simp)]
      rfl
    · rfl

/-! ## Where new connections go -/

/-- The packet with another draw of the random number generator -/
def drawn (packet : Packet Text) (n : ℕ) : Packet Text := { packet with draw := n }

/-- A packet that opens a connection from the local network which no rule matches -/
structure Unmatched (p : Policy) (packet : Packet Text) (m : Marks) : Prop where
  forwarded : p.Forwarded packet
  lan : packet.iif ∈ p.lanDevices
  fresh : m.ct &&& upMask = 0
  rules : ∀ r ∈ p.rules, r.matches packet = false

/-- Connections are spread over the leaders by their weight. -/
structure SpreadByWeight (p : Policy) (packet : Packet Text) (m : Marks) : Prop where
  /-- The intervals of the verdict map cover the numbers up to the total, each once. -/
  partition : ∀ n < p.total, ∃! e, e ∈ p.verdicts ∧ within e.1 n = true
  bounded : ∀ e ∈ p.verdicts, e.1.1 ≤ e.1.2 ∧ e.1.2 < p.total
  /-- There is one for each leader, as long as its weight. -/
  widths : p.verdicts.map (fun e => (e.1.2 + 1 - e.1.1, e.2)) =
    p.leaders.map fun row => (row.member.weight, .jump (.mark row.member.markId))
  /-- No connection goes elsewhere. -/
  led : (∃ row ∈ p.result, row.member.enabled = true ∧ row.healthy = true) →
    ∀ n, ∃ row ∈ p.leaders,
      p.prerouting (drawn packet n) m = some (Marks.numbered row.member.markId m)
  /-- Each leader gets as many of the numbers as its weight. -/
  shares : ∀ row ∈ p.leaders, (List.range' 0 p.total).countP (fun n =>
    p.prerouting (drawn packet n) m = some (Marks.numbered row.member.markId m)) = row.member.weight
  /-- If no member can be used, connections are denied. -/
  denied : (∀ row ∈ p.result, row.member.enabled = true → row.healthy = false) →
    ∀ n, p.prerouting (drawn packet n) m = some (Marks.numbered 255 m)

theorem numbered_inj {id id' : ℕ} (h : id ∈ chainIds) (h' : id' ∈ chainIds)
    (heq : Marks.numbered id m = Marks.numbered id' m) : id = id' := by
  have hct := congrArg (fun m : Marks => m.ct &&& upMask) heq
  simp only [Marks.numbered, and_withField (shifted_valid h).1, and_withField (shifted_valid h').1]
    at hct
  exact shifted_inj (le_of_mem_chainIds h).2 (le_of_mem_chainIds h').2 hct

theorem result_nodup (p : Policy) : (p.result.map (·.member.markId)).Nodup := by
  have h := p.accepted.distinct
  rwa [map_map] at h

theorem selected_nodup (p : Policy) : p.selected.Nodup := by
  have hresult : p.result.Nodup := (result_nodup p).of_map _
  rw [selected_eq, Policy.leaders]
  have hleading : p.leading.Nodup := (hresult.filter _).filter _
  split
  · exact hleading.sublist (take_sublist _ _)
  · exact hleading

/-- The chain `pre` leads a connection that no rule matches to the owner of the draw. -/
theorem prerouting_unmatched (h : Unmatched p packet m) (n : ℕ) :
    p.prerouting (drawn packet n) m = some (Marks.numbered
      ((owner (·.member.weight) 0 p.selected (n % p.total)).elim 255 (·.member.markId)) m) := by
  have hnone : p.rules.find? (·.matches (drawn packet n)) = none := by
    refine find?_eq_none.mpr fun r hr => ?_
    rw [Bool.not_eq_true]
    exact h.rules r hr
  have hnew : p.prerouting (drawn packet n) m =
      some (Marks.numbered (p.choice (drawn packet n)) m) :=
    prerouting_new h.forwarded h.lan h.fresh
  rw [hnew, Policy.choice, hnone]
  dsimp only [drawn]
  cases owner (·.member.weight) 0 p.selected (n % p.total) <;> rfl

/-- Nothing is selected exactly if no member that is enabled is healthy. -/
theorem selected_eq_nil_iff : p.selected = [] ↔
    ∀ row ∈ p.result, row.member.enabled = true → row.healthy = false := by
  have hiff : p.selected = [] ↔
      p.result.filter (fun row => row.healthy && row.member.enabled) = [] := by
    unfold Policy.selected
    split
    · rename_i hnil
      exact iff_of_true rfl hnil
    · -- the first one is selected in each mode
      rename_i first rest hfirst
      refine iff_of_false ?_ (by simp [hfirst])
      split
      · exact cons_ne_nil _ _
      · rw [filter_cons_of_pos (by simp)]
        exact cons_ne_nil _ _
  rw [hiff, filter_eq_nil_iff]
  refine forall₂_congr fun row _ => ?_
  cases row.healthy <;> simp

/-- Every number belongs to exactly one range. -/
theorem partition_verdicts {n : ℕ} (hn : n < p.total) :
    ∃! e, e ∈ p.verdicts ∧ within e.1 n = true := by
  obtain ⟨row, -, howner⟩ := exists_owner (fun _ => weight_pos) hn
  obtain ⟨e, he, -⟩ := Option.map_eq_some_iff.mp howner
  have hmem := mem_of_find?_eq_some he
  have hwithin := find?_some he
  refine ⟨_, ⟨mem_map_of_mem hmem, hwithin⟩, ?_⟩
  rintro y ⟨hmem', hwithin'⟩
  obtain ⟨e', he', rfl⟩ := mem_map.mp hmem'
  simp only [within, Bool.and_eq_true, decide_eq_true_eq] at hwithin hwithin'
  rw [span_unique (fun _ => weight_pos) he' hmem hwithin' hwithin]

/-- Of the numbers up to the total, each selected member gets as many as its weight. -/
theorem countP_prerouting (h : Unmatched p packet m) {row : Row} (hrow : row ∈ p.selected) :
    (List.range' 0 p.total).countP (fun n =>
      p.prerouting (drawn packet n) m = some (Marks.numbered row.member.markId m)) =
        row.member.weight := by
  rw [← count_owner (fun _ => weight_pos) (selected_nodup p) hrow, count_eq_countP, countP_map]
  refine countP_congr fun n hn => ?_
  have hn : n < p.total := by simpa using mem_range'_1.mp hn
  obtain ⟨row', hrow', howner⟩ := exists_owner (fun _ => weight_pos) hn
  rw [prerouting_unmatched h, Nat.mod_eq_of_lt hn, Function.comp_apply, howner]
  simp only [decide_eq_true_eq, Option.elim_some, Option.some.injEq, beq_iff_eq]
  -- different members have different numbers
  refine ⟨fun heq => ?_, fun heq => by rw [heq]⟩
  have hresult := mem_result_of_selected hrow
  have hresult' := mem_result_of_selected hrow'
  exact inj_on_of_nodup_map (result_nodup p) hresult' hresult
    (numbered_inj (markId_mem_chainIds hresult') (markId_mem_chainIds hresult) heq)

/-- **New connections are spread by weight over the enabled and healthy members of the lowest
priority value**, in failover mode over the first of them, and denied if there are none. -/
theorem spread_by_weight (p : Policy) (packet : Packet Text) (m : Marks) (h : Unmatched p packet m) :
    SpreadByWeight p packet m where
  partition n hn := partition_verdicts hn
  bounded e he := by
    obtain ⟨span, hspan, rfl⟩ := mem_map.mp he
    obtain ⟨hmem, hlength, hend⟩ := length_of_mem_spans (fun _ => weight_pos) hspan
    have hpos := weight_pos hmem
    rw [Nat.zero_add] at hend
    exact ⟨by dsimp only; omega, hend⟩
  -- a range is as wide as the weight of its member
  widths := by
    have hspans : (spans (·.member.weight) 0 p.selected).map (fun e => (e.1.2 + 1 - e.1.1, e.2)) =
        p.selected.map fun row => (row.member.weight, row) := map_spans fun _ => weight_pos
    have hverdicts := congrArg (map fun e : ℕ × Row =>
      (e.1, Verdict.jump (Chain.mark e.2.member.markId))) hspans
    rw [Policy.verdicts, map_map, ← selected_eq]
    simpa only [map_map, Function.comp_def] using hverdicts
  led husable n := by
    obtain ⟨row, hrow, henabled, hhealthy⟩ := husable
    have hne : p.selected ≠ [] := fun hnil => by
      simp [selected_eq_nil_iff.mp hnil row hrow henabled] at hhealthy
    obtain ⟨row, hrow, howner⟩ := exists_owner (fun _ => weight_pos) (Nat.mod_lt n (total_pos hne))
    refine ⟨row, selected_eq p ▸ hrow, ?_⟩
    rw [prerouting_unmatched h, Policy.total, howner]
    rfl
  shares row hrow := countP_prerouting h (selected_eq p ▸ hrow)
  denied hnone n := by
    rw [prerouting_unmatched h, selected_eq_nil_iff.mpr hnone]
    rfl

/-! ## A round with three members -/

/-- Two wired members of the same priority and a modem of a higher value -/
def twoLinks : Config :=
  let link (kind target priority weight : Text) : MemberSection :=
    ⟨some kind, some target, some priority, none, some weight⟩
  { plainConfig (ascii "balance") (ascii "10") with
    members := [link (ascii "wired") (ascii "wan") (ascii "10") (ascii "2"),
      link (ascii "modem") (ascii "lte") (ascii "20") (ascii "1"),
      link (ascii "wired") (ascii "wanb") (ascii "10") (ascii "3")] }

def twoLinksLoaded : List Reload := [⟨⟨true, fun _ => false⟩, twoLinks⟩]

/-- All members are healthy, each at a device that has its name. -/
def twoLinksPolicy : Policy :=
  Policy.ofRound (run reload booted twoLinksLoaded) (usable_throughout booted twoLinksLoaded).last
    (by decide +kernel)
    (fun x => ⟨x.target, ascii "192.0.2.2", ascii "192.0.2.1", [], ascii "4", true⟩)
    [⟨none, some (ascii "wan")⟩, ⟨some (ascii "192.168.1.0/24"), some (ascii "br-lan")⟩]

/-- A packet from the local network to 192.0.2.9 -/
def lanPacket : Packet Text where
  iif := ascii "br-lan"
  saddr := 0xc0a80105
  daddr := 0xc0000209
  l4proto := 6
  sport := 40000
  dport := 443
  toLocal := false
  original := true
  draw := 0

theorem spread_by_weight_twoLinks : SpreadByWeight twoLinksPolicy lanPacket ⟨0, 0⟩ :=
  spread_by_weight _ _ _ ⟨⟨rfl, by decide +kernel⟩, by decide +kernel, by decide, by decide +kernel⟩

end QModem.Uplink
