import QModem.Uplink.Policy

/-!
# What the Published Table Does

The chain `pre` of a published policy, evaluated on packets that are forwarded.  A connection that
has a number keeps it and gives it to its packets; a new connection from the local network gets the
number that `Policy.choice` says.

## Main results

- `prerouting_marked`: packets of a connection that has a mark
- `prerouting_new`: the first packet of a connection from the local network
- `prerouting_isSome`: the evaluation never fails
-/

namespace QModem.Uplink

open Lib Nft List Policy

/-! ## Marks -/

theorem keep_eq : (0xff00ffff : BitVec 32) = ~~~upMask := by decide

variable {id : ℕ}

theorem shifted_and_upMask (h : id ≤ 255) : shifted id &&& upMask = shifted id := by
  have hall : ∀ id < 256, shifted id &&& upMask = shifted id := by decide +kernel
  exact hall id (by omega)

theorem shifted_inj {id' : ℕ} (h : id ≤ 255) (h' : id' ≤ 255) (heq : shifted id = shifted id') :
    id = id' := by
  have := congrArg BitVec.toNat heq
  simp only [shifted, BitVec.toNat_ofNat, Nat.shiftLeft_eq] at this
  omega

theorem shifted_ne_zero (h : 1 ≤ id) (h' : id ≤ 255) : shifted id ≠ 0 := by
  intro heq
  have := shifted_inj h' (Nat.zero_le 255) heq
  omega

theorem mem_chainIds : id ∈ chainIds ↔ 1 ≤ id ∧ id ≤ 64 ∨ id = 255 := by
  simp only [chainIds, mem_append, mem_range'_1, mem_singleton]
  omega

theorem le_of_mem_chainIds (h : id ∈ chainIds) : 1 ≤ id ∧ id ≤ 255 := by
  rw [mem_chainIds] at h
  omega

/-- The marks after a number has been set in both. -/
def Marks.numbered (id : ℕ) (m : Marks) : Marks :=
  ⟨withField upMask (shifted id) m.ct, withField upMask (shifted id) m.packet⟩

/-- The marks after the number of the connection has been copied to the packet. -/
def Marks.restored (m : Marks) : Marks :=
  if m.ct &&& upMask ∈ chainIds.map shifted then
    { m with packet := withField upMask (m.ct &&& upMask) m.packet }
  else m

theorem Marks.restored_ct (m : Marks) : (Marks.restored m).ct = m.ct := by
  unfold Marks.restored
  split <;> rfl

theorem Marks.restored_of_field {m : Marks} (hid : id ∈ chainIds)
    (hm : m.ct &&& upMask = shifted id) :
    Marks.restored m = { m with packet := withField upMask (shifted id) m.packet } := by
  unfold Marks.restored
  rw [if_pos (hm ▸ mem_map_of_mem hid), hm]

/-! ## Chains -/

variable {p : Policy} {packet : Packet Text} {m : Marks}

theorem evalChain_mark (depth : ℕ) (hid : id ∈ chainIds) :
    evalChain packet p.table (depth + 1) (.mark id) m = some (Marks.numbered id m) := by
  rw [evalChain_succ]
  simp only [table, if_pos hid, markChain]
  exact evalRules_cons_ret rfl

/-- The entry of the map for a number -/
theorem find_restoreEntry (hid : id ∈ chainIds) :
    (chainIds.map fun id => (shifted id, Verdict.goto (Chain.mark id))).find? (·.1 = shifted id) =
      some (shifted id, .goto (.mark id)) := by
  have hall : ∀ id ∈ chainIds,
      (chainIds.map fun id => (shifted id, Verdict.goto (Chain.mark id))).find? (·.1 = shifted id) =
        some (shifted id, .goto (.mark id)) := by decide +kernel
  exact hall id hid

/-- The mark of the connection is copied to the packet. -/
theorem evalChain_restore (depth : ℕ) :
    evalChain packet p.table (depth + 2) .restore m = some (Marks.restored m) := by
  rw [evalChain_succ, table, restoreChain]
  by_cases hfield : m.ct &&& upMask ∈ chainIds.map shifted
  · -- the chain of the number writes both marks; the connection has it already
    obtain ⟨id, hid, hm⟩ := mem_map.mp hfield
    have hverdict : evalRule packet
        [.ctMarkVmap upMask (chainIds.map fun id => (shifted id, Verdict.goto (Chain.mark id)))] m =
        (m, some (.goto (.mark id))) := by
      rw [evalRule, ← hm, find_restoreEntry hid]
      rfl
    rw [evalRules_cons_goto hverdict, evalChain_mark depth hid,
      Marks.restored_of_field hid hm.symm, Marks.numbered, withField_eq_self hm.symm]
  · -- the map has no entry, which ends the rule but not the chain
    have hnone : (chainIds.map fun id => (shifted id, Verdict.goto (Chain.mark id))).find?
        (·.1 = m.ct &&& upMask) = none := by
      refine find?_eq_none.mpr fun e he => ?_
      obtain ⟨id, hid, rfl⟩ := mem_map.mp he
      simpa using fun h => hfield (mem_map.mpr ⟨id, hid, h⟩)
    have hidle : evalRule packet
        [.ctMarkVmap upMask (chainIds.map fun id => (shifted id, Verdict.goto (Chain.mark id)))] m =
        (m, none) := by
      rw [evalRule, hnone]
      rfl
    rw [evalRules_cons_next hidle, evalRules_nil, Marks.restored, if_neg hfield]

/-! ## Packets that are forwarded -/

/-- The packet is neither for the router nor for the local network. -/
def Policy.Forwarded (p : Policy) (packet : Packet Text) : Prop :=
  packet.toLocal = false ∧ ∀ dst ∈ p.bypass, (prefixOf dst).contains packet.daddr = false

/-- No bypass matches a packet that is forwarded. -/
theorem bypassing_idle (h : p.Forwarded packet) :
    ∀ r ∈ p.bypassing, evalRule packet r m = (m, none) := by
  intro r hr
  unfold bypassing at hr
  split at hr
  · cases mem_singleton.mp hr
    have hfails : Test.holds packet m (.daddr (p.bypass.map prefixOf)) = false := by
      simpa [Test.holds] using h.2
    rw [evalRule, hfails]
    rfl
  · cases hr

section Restoring

variable {call : Chain → Marks → Option Marks} {rest : List NftRule}

/-- The common part, up to the rules about marks. -/
theorem evalRules_restoring (h : p.Forwarded packet) :
    evalRules packet call (p.restoring ++ rest) m =
      evalRules packet call ([.test (.ctMarkSet upMask), .verdict (.jump .restore)] ::
        [.test (.ctMarkSet upMask), .verdict .ret] :: rest) m := by
  have hlocal : evalRule packet [.test .fibDaddrTypeLocal, .verdict .ret] m =
      (m, (none : Option (Verdict Chain))) := by
    rw [evalRule, Test.holds, h.1]
    rfl
  rw [restoring, cons_append, evalRules_cons_next hlocal, append_assoc,
    evalRules_append_of_idle (bypassing_idle h)]
  rfl

theorem evalRule_markSet (v : Verdict Chain) (hm : m.ct &&& upMask ≠ 0) :
    evalRule packet [.test (.ctMarkSet upMask), .verdict v] m = (m, some v) := by
  rw [evalRule, Test.holds, decide_eq_true hm]
  rfl

theorem evalRule_markSet_of_clear (v : Verdict Chain) (hm : m.ct &&& upMask = 0) :
    evalRule packet [.test (.ctMarkSet upMask), .verdict v] m = (m, none) := by
  rw [evalRule, Test.holds, decide_eq_false (not_not.mpr hm)]
  rfl

theorem evalRules_restoring_marked (h : p.Forwarded packet) (hm : m.ct &&& upMask ≠ 0)
    (hcall : ∀ m, call .restore m = some (Marks.restored m)) :
    evalRules packet call (p.restoring ++ rest) m = some (Marks.restored m) := by
  -- `restore` leaves the mark of the connection alone, so the second rule returns
  have hm' : (Marks.restored m).ct &&& upMask ≠ 0 := by rwa [Marks.restored_ct]
  rw [evalRules_restoring h, evalRules_cons_jump (evalRule_markSet _ hm), hcall, Option.bind_some,
    evalRules_cons_ret (evalRule_markSet _ hm')]

theorem evalRules_restoring_clear (h : p.Forwarded packet) (hm : m.ct &&& upMask = 0) :
    evalRules packet call (p.restoring ++ rest) m = evalRules packet call rest m := by
  rw [evalRules_restoring h, evalRules_cons_next (evalRule_markSet_of_clear _ hm),
    evalRules_cons_next (evalRule_markSet_of_clear _ hm)]

end Restoring

/-- The marks after the rules about incoming connections -/
def Policy.received (p : Policy) (packet : Packet Text) (m : Marks) : Marks :=
  ((p.result.filter (·.device ≠ [])).find? fun row =>
      packet.iif = row.device && (packet.original && (m.ct &&& upMask = 0))).elim m
    fun row => { m with ct := withField upMask (shifted row.member.markId) m.ct }

variable {row : Row} {id : ℕ}

theorem markId_mem_chainIds (h : row ∈ p.result) : row.member.markId ∈ chainIds :=
  mem_chainIds.mpr (.inl (p.accepted.markIds _ (mem_map_of_mem h)))

/-- A number can be written to a mark. -/
theorem shifted_valid (h : id ∈ chainIds) :
    shifted id &&& upMask = shifted id ∧ shifted id ≠ 0 := by
  obtain ⟨hlow, hhigh⟩ := le_of_mem_chainIds h
  exact ⟨shifted_and_upMask hhigh, shifted_ne_zero hlow hhigh⟩

variable {call : Chain → Marks → Option Marks}

/-- A packet from an uplink marks its connection with that uplink. -/
theorem evalRules_incoming {rest : List NftRule} :
    evalRules packet call ((p.result.filter (·.device ≠ [])).map Policy.incoming ++ rest) m =
      evalRules packet call rest (p.received packet m) := by
  have hincoming : incoming = fun row : Row => markIf (~~~upMask)
      (shifted row.member.markId) [.iifname row.device, .ctDirectionOriginal, .ctMarkClear upMask] :=
    funext fun row => by rw [incoming, keep_eq]
  rw [hincoming, evalRules_markIf _ (by simp) fun row hrow =>
    shifted_valid (markId_mem_chainIds (mem_of_mem_filter hrow))]
  simp only [all_cons, all_nil, Bool.and_true, Test.holds]
  rfl

/-- A packet from elsewhere, or of a marked connection, marks nothing. -/
theorem received_of_not_mem (h : ∀ row ∈ p.result, row.device ≠ [] → packet.iif = row.device →
    m.ct &&& upMask ≠ 0) : p.received packet m = m := by
  have hnone : (p.result.filter (·.device ≠ [])).find? (fun row =>
      packet.iif = row.device && (packet.original && (m.ct &&& upMask = 0))) = none := by
    refine find?_eq_none.mpr fun row hrow htests => ?_
    obtain ⟨hrow, hdevice⟩ := mem_filter.mp hrow
    simp only [Bool.and_eq_true, decide_eq_true_eq] at hdevice htests
    exact h row hrow hdevice htests.1 htests.2.2
  rw [received, hnone]
  rfl

/-- Packets of a connection that has a mark: its number is copied to the packet. -/
theorem prerouting_marked (h : p.Forwarded packet) (hm : (p.received packet m).ct &&& upMask ≠ 0) :
    p.prerouting packet m = some (Marks.restored (p.received packet m)) := by
  rw [prerouting, evalChain_succ, table, preChain, evalRules_incoming]
  exact evalRules_restoring_marked h hm fun m => evalChain_restore 13

/-! ## New connections -/

/-- What a rule of the configuration says about a packet -/
def Rule.matches (r : Rule) (packet : Packet Text) : Bool :=
  r.src.all (fun src => (prefixOf src).contains packet.saddr) &&
    r.dest.all (fun dest => (prefixOf dest).contains packet.daddr) &&
    (match r.proto with
      | .all => true
      | .tcp => packet.l4proto = 6
      | .udp => packet.l4proto = 17
      | .icmp => packet.l4proto = 1) &&
    r.sport.all (packet.sport = ·) && r.dport.all (packet.dport = ·)

theorem tests_all_holds (r : Rule) :
    r.tests.all (Test.holds packet m) = ((m.ct &&& upMask = 0) && r.matches packet) := by
  obtain ⟨src, dest, proto, sport, dport, mark⟩ := r
  cases src <;> cases dest <;> cases proto <;> cases sport <;> cases dport <;>
    simp [Rule.tests, Proto.tests, Rule.matches, Test.holds, Bool.and_assoc]

/-- The number that a new connection from the local network gets: that of the first rule that
matches, else that of the selected member whose numbers the draw is among. -/
def Policy.choice (p : Policy) (packet : Packet Text) : ℕ :=
  match p.rules.find? (·.matches packet) with
  | some r => r.mark
  | none =>
    match owner (·.member.weight) 0 p.selected (packet.draw % p.total) with
    | some row => row.member.markId
    | none => 255

/-- The members selected are among the results. -/
theorem mem_result_of_selected (h : row ∈ p.selected) : row ∈ p.result := by
  unfold selected at h
  split at h
  · cases h
  · rename_i first rest hfirst
    have hsub : ∀ row ∈ first :: rest, row ∈ p.result := fun row hrow =>
      mem_of_mem_filter (hfirst ▸ hrow)
    split at h
    · cases mem_singleton.mp h
      exact hsub _ mem_cons_self
    · exact hsub row (mem_of_mem_filter h)

theorem weight_pos (h : row ∈ p.selected) : 0 < row.member.weight :=
  (p.accepted.weights _ (mem_map_of_mem (mem_result_of_selected h))).1

theorem total_pos (h : p.selected ≠ []) : 0 < p.total := by
  obtain ⟨row, rest, hrow⟩ := exists_cons_of_ne_nil h
  have hpos : 0 < row.member.weight := weight_pos (p := p) (by simp [hrow])
  rw [total, hrow, totalWeight_cons]
  omega

/-- Whatever is chosen has a chain. -/
theorem choice_mem_chainIds (packet : Packet Text) : p.choice packet ∈ chainIds := by
  unfold choice
  split
  · rename_i r hr
    exact mem_chainIds.mpr (.inl (p.targets r (mem_of_find?_eq_some hr)))
  · split
    · rename_i row hrow
      obtain ⟨e, he, rfl⟩ := Option.map_eq_some_iff.mp hrow
      have hmem := (length_of_mem_spans (fun _ => weight_pos) (mem_of_find?_eq_some he)).1
      exact markId_mem_chainIds (mem_result_of_selected hmem)
    · exact mem_chainIds.mpr (.inr rfl)

/-- The verdict map leads to the owner of the number. -/
theorem find_verdicts (n : ℕ) :
    (p.verdicts.find? fun e => within e.1 n).map Prod.snd =
      (owner (·.member.weight) 0 p.selected n).map fun row => .jump (.mark row.member.markId) := by
  rw [verdicts, find?_map, owner, Option.map_map, Option.map_map]
  rfl

theorem restored_numbered (hid : id ∈ chainIds) (m : Marks) :
    Marks.restored (Marks.numbered id m) = Marks.numbered id m := by
  rw [Marks.restored_of_field hid (and_withField (shifted_valid hid).1 m.ct)]
  simp only [Marks.numbered]
  rw [withField_eq_self (and_withField (shifted_valid hid).1 m.packet)]

/-- Copying a number that has just been set -/
theorem restored_set (hid : id ∈ chainIds) (m : Marks) :
    Marks.restored { m with ct := withField upMask (shifted id) m.ct } = Marks.numbered id m :=
  Marks.restored_of_field hid (and_withField (shifted_valid hid).1 m.ct)

section Classify

variable {call : Chain → Marks → Option Marks} {rest : List NftRule}

theorem evalRule_restoreJump :
    evalRule packet [.verdict (.jump Chain.restore)] m = (m, some (.jump .restore)) := rfl

/-- A connection that a rule has matched is not spread. -/
theorem evalRules_spread_marked (hm : m.ct &&& upMask ≠ 0) :
    evalRules packet call (p.spread :: rest) m = evalRules packet call rest m := by
  have hclear : Test.holds packet m (.ctMarkClear upMask) = false := decide_eq_false hm
  refine evalRules_cons_next ?_
  unfold spread
  split
  · rw [evalRule, hclear]
    rfl
  · rw [markIf, map_cons, cons_append, evalRule, hclear]
    rfl

/-- All others get the number of the owner of the draw, or are denied. -/
theorem evalRules_spread_clear (hm : m.ct &&& upMask = 0)
    (hnone : p.rules.find? (·.matches packet) = none)
    (hrestore : ∀ m, call .restore m = some (Marks.restored m))
    (hmark : ∀ id ∈ chainIds, ∀ m, call (.mark id) m = some (Marks.numbered id m)) :
    evalRules packet call [p.spread, [.verdict (.jump .restore)]] m =
      some (Marks.numbered (p.choice packet) m) := by
  have hclear : Test.holds packet m (.ctMarkClear upMask) = true := decide_eq_true hm
  have hid := choice_mem_chainIds (p := p) packet
  unfold choice at hid ⊢
  rw [hnone] at hid ⊢
  by_cases htotal : 0 < p.total
  · -- the draw has an owner; its chain sets both marks
    obtain ⟨row, hrow, howner⟩ := exists_owner (fun _ => weight_pos)
      (Nat.mod_lt packet.draw htotal : packet.draw % p.total < totalWeight _ p.selected)
    rw [howner] at hid ⊢
    have hverdict : evalRule packet p.spread m = (m, some (.jump (.mark row.member.markId))) := by
      rw [spread, if_pos htotal, evalRule, hclear, if_pos rfl, evalRule, find_verdicts, howner]
      rfl
    rw [evalRules_cons_jump hverdict, hmark _ hid, Option.bind_some,
      evalRules_cons_jump evalRule_restoreJump, hrestore, restored_numbered hid]
    rfl
  · -- nothing is selected
    have hempty : p.selected = [] := by_contra fun h => htotal (total_pos h)
    have hset : evalRule packet p.spread m =
        ({ m with ct := withField upMask (shifted 255) m.ct }, none) := by
      rw [spread, if_neg htotal, keep_eq, evalRule_markIf, all_cons, hclear]
      rfl
    rw [evalRules_cons_next hset, evalRules_cons_jump evalRule_restoreJump, hrestore,
      restored_set (mem_chainIds.mpr (.inr rfl)), hempty]
    rfl

end Classify

/-- The chain `classify` for a connection without a mark -/
theorem evalChain_classify (depth : ℕ) (hm : m.ct &&& upMask = 0) :
    evalChain packet p.table (depth + 3) .classify m =
      some (Marks.numbered (p.choice packet) m) := by
  have hline : Rule.line = fun r : Rule => markIf (~~~upMask) (shifted r.mark) r.tests :=
    funext fun r => by rw [Rule.line, keep_eq]
  have hclear : ∀ r ∈ p.rules, .ctMarkClear upMask ∈ r.tests := fun r _ => mem_cons_self
  have hmark : ∀ r ∈ p.rules, r.mark ∈ chainIds := fun r hr => mem_chainIds.mpr (.inl (p.targets r hr))
  rw [evalChain_succ, table, classifyChain, hline,
    evalRules_markIf _ hclear fun r hr => shifted_valid (hmark r hr)]
  simp only [tests_all_holds, hm, decide_true, Bool.true_and]
  cases hfind : p.rules.find? (·.matches packet) with
  | none =>
    exact evalRules_spread_clear hm hfind (fun m => evalChain_restore depth)
      fun id hid m => evalChain_mark (depth + 1) hid
  | some r =>
    -- the first rule that matches sets the mark, and then no other one applies
    have hr := hmark r (mem_of_find?_eq_some hfind)
    have hmarked : withField upMask (shifted r.mark) m.ct &&& upMask ≠ 0 := by
      rw [and_withField (shifted_valid hr).1]
      exact (shifted_valid hr).2
    have hchoice : p.choice packet = r.mark := by rw [choice, hfind]
    rw [Option.elim_some, evalRules_spread_marked hmarked, evalRules_cons_jump evalRule_restoreJump,
      evalChain_restore, restored_set hr, hchoice]
    rfl

theorem mem_unique {x : Text} {xs : List Text} : x ∈ unique xs ↔ x ∈ xs := by
  rw [unique, mem_dedup, mem_insertionSort]

/-- Devices of the local network are not those of members. -/
theorem not_mem_devices {dev : Text} (hdev : dev ∈ p.lanDevices) (hrow : row ∈ p.result)
    (hdevice : row.device ≠ []) : dev ≠ row.device := by
  obtain ⟨⟨dst, dev⟩, hroute, rfl⟩ := mem_map.mp (mem_unique.mp hdev)
  obtain ⟨r, -, hr⟩ := mem_filterMap.mp hroute
  split at hr
  · obtain ⟨hlocal, heq⟩ := Option.ite_none_right_eq_some.mp hr
    cases Option.some.inj heq
    simp only [Bool.and_eq_true, Bool.not_eq_true', contains_eq_mem, decide_eq_false_iff_not]
      at hlocal
    rintro rfl
    refine hlocal.2 (mem_unique.mpr (mem_filter.mpr ⟨mem_map_of_mem hrow, ?_⟩))
    exact decide_eq_true hdevice
  · cases hr

/-- A device of the local network leads to the chain `classify`. -/
theorem evalRule_lan (dev : Text) :
    evalRule packet [.test (.iifname dev), .verdict (.jump Chain.classify)] m =
      (m, if packet.iif = dev then some (.jump .classify) else none) := by
  rw [evalRule, Test.holds]
  by_cases h : packet.iif = dev
  · simp only [h, decide_true, if_true]
    rfl
  · simp only [h, decide_false, if_false, Bool.false_eq_true]

/-- Each device is listed once, so that the chain is not taken again. -/
theorem evalRules_lan {m' : Marks} (devices : List Text) (hnodup : devices.Nodup)
    (hcall : packet.iif ∈ devices → call .classify m = some m') :
    evalRules packet call
        (devices.map fun dev => [.test (.iifname dev), .verdict (.jump .classify)]) m =
      some (if packet.iif ∈ devices then m' else m) := by
  induction devices generalizing m m' with
  | nil => rfl
  | cons dev devices ih =>
    rw [nodup_cons] at hnodup
    rw [map_cons]
    by_cases hdev : packet.iif = dev
    · -- the packet comes from one device, so it is classified once
      have hnot : packet.iif ∉ devices := hdev ▸ hnodup.1
      have hmem : packet.iif ∈ dev :: devices := hdev ▸ mem_cons_self
      have hrest : packet.iif ∈ devices → call .classify m' = some m' := fun h => absurd h hnot
      rw [evalRules_cons_jump ((evalRule_lan dev).trans (by rw [if_pos hdev])), hcall hmem,
        Option.bind_some, ih hnodup.2 hrest, if_neg hnot, if_pos hmem]
    · rw [evalRules_cons_next ((evalRule_lan dev).trans (by rw [if_neg hdev])),
        ih hnodup.2 fun h => hcall (mem_cons_of_mem _ h)]
      simp [hdev]

variable (h : p.Forwarded packet)

include h

theorem prerouting_clear (hm : (p.received packet m).ct &&& upMask = 0) :
    p.prerouting packet m = some (if packet.iif ∈ p.lanDevices then
      Marks.numbered (p.choice packet) (p.received packet m) else p.received packet m) := by
  rw [prerouting, evalChain_succ, table, preChain, evalRules_incoming,
    evalRules_restoring_clear h hm]
  exact evalRules_lan _ (nodup_dedup _) fun _ => evalChain_classify 12 hm

/-- The evaluation never fails. -/
theorem prerouting_isSome (m : Marks) : ∃ after, p.prerouting packet m = some after := by
  by_cases hm : (p.received packet m).ct &&& upMask = 0
  · exact ⟨_, prerouting_clear h hm⟩
  · exact ⟨_, prerouting_marked h hm⟩

/-- **A connection that has a number keeps it**, and its packets get it. -/
theorem prerouting_kept (hid : id ∈ chainIds) (hm : m.ct &&& upMask = shifted id) :
    p.prerouting packet m = some { m with packet := withField upMask (shifted id) m.packet } := by
  have hne : m.ct &&& upMask ≠ 0 := hm ▸ (shifted_valid hid).2
  have hreceived : p.received packet m = m := received_of_not_mem fun _ _ _ _ => hne
  rw [prerouting_marked h (by rwa [hreceived]), hreceived, Marks.restored_of_field hid hm]

/-- **The first packet of a connection from the local network** gets the number that is chosen. -/
theorem prerouting_new (hlan : packet.iif ∈ p.lanDevices) (hm : m.ct &&& upMask = 0) :
    p.prerouting packet m = some (Marks.numbered (p.choice packet) m) := by
  have hreceived : p.received packet m = m := received_of_not_mem fun row hrow hdevice hiif =>
    absurd hiif (not_mem_devices hlan hrow hdevice)
  rw [prerouting_clear h (by rwa [hreceived]), hreceived, if_pos hlan]

end QModem.Uplink
