import QModem.Uplink.Reload

/-!
# Accepted Member Lists

What the rest of the manager may rely on once `up_config` has accepted a configuration: the members
are sorted by priority, their weights are in range, and no two of them have the same number.

## Main results

- `numbering_assignIds`: `up_ids` never gives a number twice
- `accepted_upConfig`: the member file of an accepted configuration
- `usable_throughout`: it stays so whatever is loaded later
-/

namespace QModem.Uplink

open Lib List

/-- A member list that `up_config` lets through. -/
structure Accepted (members : List Member) : Prop where
  sorted : members.Pairwise Member.NotAfter
  ids : (members.map Member.id).Nodup
  weights : ∀ x ∈ members, 1 ≤ x.weight ∧ x.weight ≤ 255
  markIds : ∀ x ∈ members, 1 ≤ x.markId ∧ x.markId ≤ 64
  distinct : (members.map Member.markId).Nodup

/-! ## Numbers -/

/-- The records up to now: every number is either the one its key had before or one that no key had
before. -/
structure Numbering (previous records : List (Text × ℕ)) : Prop where
  distinct : (records.map Prod.snd).Nodup
  range : ∀ e ∈ records, 1 ≤ e.2 ∧ e.2 ≤ 64
  origin : ∀ e ∈ records, e ∈ previous ∨ e.2 ∉ previous.map Prod.snd

variable {live : ℕ → Bool} {previous records out : List (Text × ℕ)} {keys : List Text}

/-- A free number is neither in the file nor taken in this run. -/
theorem freeId_spec {n : ℕ} (h : freeId live previous records = some n) :
    (1 ≤ n ∧ n ≤ 64) ∧ n ∉ previous.map Prod.snd ∧ n ∉ records.map Prod.snd := by
  have hmem := mem_range'_1.mp (mem_of_find?_eq_some h)
  have hfree := find?_some h
  simp only [Bool.and_eq_true, Bool.not_eq_true', any_eq_false, decide_eq_true_eq] at hfree
  refine ⟨by omega, ?_, ?_⟩
  · rintro hn
    obtain ⟨e, he, rfl⟩ := mem_map.mp hn
    exact hfree.1.1 e he rfl
  · rintro hn
    obtain ⟨e, he, rfl⟩ := mem_map.mp hn
    exact hfree.1.2 e he rfl

theorem numbering_nil (previous : List (Text × ℕ)) : Numbering previous [] :=
  ⟨nodup_nil, by simp, by simp⟩

/-- One record more, with a number that is its own or new. -/
theorem Numbering.concat (h : Numbering previous records) {key : Text} {n : ℕ}
    (hnew : n ∉ records.map Prod.snd) (hrange : 1 ≤ n ∧ n ≤ 64)
    (horigin : (key, n) ∈ previous ∨ n ∉ previous.map Prod.snd) :
    Numbering previous (records ++ [(key, n)]) where
  distinct := by
    rw [map_append, nodup_append]
    refine ⟨h.distinct, nodup_singleton _, ?_⟩
    -- the number is new among the records, wherever it comes from
    rintro a ha b hb rfl
    cases mem_singleton.mp hb
    exact hnew ha
  range := by
    simp only [forall_mem_append, forall_mem_singleton]
    exact ⟨h.range, hrange⟩
  origin := by
    simp only [forall_mem_append, forall_mem_singleton]
    exact ⟨h.origin, horigin⟩

/-- A number from 1 to 64 that neither the file nor a record has. -/
structure Fresh (previous records : List (Text × ℕ)) (n : ℕ) : Prop where
  range : 1 ≤ n ∧ n ≤ 64
  unknown : n ∉ previous.map Prod.snd
  unused : n ∉ records.map Prod.snd

/-- The turns of a numbering loop: each key gets the number that it had before, or a fresh one. -/
inductive Assigns (previous : List (Text × ℕ)) :
    List Text → List (Text × ℕ) → List (Text × ℕ) → Prop where
  | nil (records : List (Text × ℕ)) : Assigns previous [] records records
  | cons {key : Text} {n : ℕ} {keys : List Text} {records out : List (Text × ℕ)}
      (hn : (key, n) ∈ previous ∨ Fresh previous records n)
      (rest : Assigns previous keys (records ++ [(key, n)]) out) :
      Assigns previous (key :: keys) records out

/-- Each member keeps its number or gets a fresh one. -/
theorem assigns_assignIds (h : assignIds live previous keys records = some out) :
    Assigns previous keys records out := by
  induction keys generalizing records with
  | nil =>
    cases Option.some.inj h
    exact .nil _
  | cons key keys ih =>
    rw [assignIds] at h
    -- the key has a number in the file, or the search begins
    split at h
    · rename_i e he
      have hkey : e.1 = key := by simpa using find?_some he
      exact .cons (.inl (hkey ▸ mem_of_find?_eq_some he)) (ih h)
    · obtain ⟨n, hn, h⟩ := Option.bind_eq_some_iff.mp h
      obtain ⟨hrange, hunknown, hunused⟩ := freeId_spec hn
      exact .cons (.inr ⟨hrange, hunknown, hunused⟩) (ih h)

/-- A numbering loop never gives a number twice, and numbers every member. -/
theorem Assigns.numbering (hprevious : (previous.map Prod.snd).Nodup)
    (hvalues : ∀ e ∈ previous, 1 ≤ e.2 ∧ e.2 ≤ 64) (hout : Assigns previous keys records out) :
    (records.map Prod.fst ++ keys).Nodup → Numbering previous records →
      Numbering previous out ∧ out.map Prod.fst = records.map Prod.fst ++ keys := by
  induction hout with
  | nil records => exact fun _ h => ⟨h, (append_nil _).symm⟩
  | @cons key n keys records out hn _ ih =>
    intro hkeys h
    have hsame : (records ++ [(key, n)]).map Prod.fst ++ keys =
        records.map Prod.fst ++ key :: keys := by simp
    rw [← hsame] at hkeys ⊢
    refine ih hkeys ?_
    -- the number is old or fresh, and in both cases no record has it
    cases hn with
    | inl hmem =>
      refine h.concat ?_ (hvalues _ hmem) (.inl hmem)
      -- an earlier key with this number would be the same key
      intro hused
      obtain ⟨e, he, rfl⟩ := mem_map.mp hused
      cases h.origin e he with
      | inl hmem' =>
        have heq : e = (key, e.2) := inj_on_of_nodup_map hprevious hmem' hmem rfl
        rw [map_append, append_assoc, nodup_append] at hkeys
        exact hkeys.2.2 _ (mem_map_of_mem he) key (by simp) (congrArg Prod.fst heq)
      | inr hunknown => exact hunknown (mem_map.mpr ⟨_, hmem, rfl⟩)
    | inr hfresh => exact h.concat hfresh.unused hfresh.range (.inr hfresh.unknown)

/-- **`up_ids` never gives a number twice**, and numbers every member. -/
theorem numbering_assignIds (hprevious : (previous.map Prod.snd).Nodup)
    (hvalues : ∀ e ∈ previous, 1 ≤ e.2 ∧ e.2 ≤ 64) (hkeys : (records.map Prod.fst ++ keys).Nodup)
    (h : Numbering previous records) (hout : assignIds live previous keys records = some out) :
    Numbering previous out ∧ out.map Prod.fst = records.map Prod.fst ++ keys :=
  (assigns_assignIds hout).numbering hprevious hvalues hkeys h

theorem idOf_eq (hkeys : (records.map Prod.fst).Nodup) {e : Text × ℕ} (he : e ∈ records) :
    idOf records e.1 = e.2 := by
  cases hfound : records.find? (·.1 = e.1) with
  | none => exact absurd (decide_eq_true rfl) (find?_eq_none.mp hfound e he)
  | some e' =>
    have hkey : e'.1 = e.1 := by simpa using find?_some hfound
    cases inj_on_of_nodup_map hkeys (mem_of_find?_eq_some hfound) he hkey
    simp [idOf, hfound]

/-! ## The member file -/

instance : Std.Total Member.NotAfter where
  total a b := by
    unfold Member.NotAfter
    have := List.le_total a.id b.id
    grind

instance : IsTrans Member Member.NotAfter where
  trans a b c hab hbc := by
    unfold Member.NotAfter at hab hbc ⊢
    obtain hab | ⟨hpriority, hab⟩ := hab
    · exact .inl (by omega)
    · obtain hbc | ⟨hpriority', hbc⟩ := hbc
      · exact .inl (by omega)
      · exact .inr ⟨hpriority.trans hpriority', List.le_trans hab hbc⟩

/-- What is read from the file has been checked. -/
theorem entries_spec {file : IdsFile} {entries : List (Text × ℕ)} (h : file.entries = some entries) :
    (∀ e ∈ entries, 1 ≤ e.2 ∧ e.2 ≤ 64) ∧ (entries.map Prod.snd).Nodup := by
  cases file with
  | absent =>
    cases Option.some.inj h
    simp
  | object entries' =>
    obtain ⟨hvalid, heq⟩ := Option.ite_none_right_eq_some.mp h
    cases Option.some.inj heq
    simpa using hvalid
  | other => cases h

/-- The member list of a configuration that has been read to its end. -/
theorem accepted_upConfig {tracker : Conntrack} {c : Config} {m : Manager}
    (hnew : m.generation ≠ some c) (hok : (upConfig tracker c m).2 = true) :
    Accepted (upConfig tracker c m).1.memberFile := by
  obtain ⟨found, entries, records, rules, members, hfound, hnodup, hentries, hrecords, hmembers, -,
    heq⟩ := upConfig_ok hnew hok
  obtain ⟨hvalues, hdistinct⟩ := entries_spec hentries
  -- sorting keeps the names, which are distinct
  have hids : ((found.insertionSort Member.NotAfter).map Member.id).Nodup :=
    ((perm_insertionSort _ _).map _).nodup_iff.mpr hnodup
  obtain ⟨hnumbering, hkeys⟩ := numbering_assignIds
    (hdistinct.sublist (filter_sublist.map _)) (fun e he => hvalues e (mem_of_mem_filter he))
    (by exact hids) (numbering_nil _) hrecords
  have hrecordKeys : (records.map Prod.fst).Nodup := by rw [hkeys]; exact hids
  -- the numbers of the members are those of the records, in the same order
  have hnumbers : members.map Member.markId = records.map Prod.snd := by
    rw [hmembers, map_map]
    calc (found.insertionSort Member.NotAfter).map (fun x => idOf records x.id)
        = (records.map Prod.fst).map (idOf records) := by rw [hkeys]; simp
      _ = records.map Prod.snd := by
        rw [map_map]
        exact map_congr_left fun e he => idOf_eq hrecordKeys he
  have hsections : ∀ x ∈ members, ∃ s y, upMember s = some y ∧ x.weight = y.weight := by
    intro x hx
    rw [hmembers] at hx
    obtain ⟨y, hy, rfl⟩ := mem_map.mp hx
    have hy : y ∈ c.members.filterMap upMember := by
      rw [filterMap_eq_of_mapM hfound]
      exact (mem_insertionSort _).mp hy
    obtain ⟨s, -, hs⟩ := mem_filterMap.mp hy
    exact ⟨s, y, hs, rfl⟩
  rw [heq]
  refine ⟨?_, ?_, fun x hx => ?_, fun x hx => ?_, ?_⟩
  · rw [hmembers, pairwise_map]
    exact pairwise_insertionSort _ _
  · rw [hmembers, map_map]
    exact hids
  · obtain ⟨s, y, hs, hweight⟩ := hsections x hx
    rw [hweight]
    exact ⟨(upMember_ok hs).1, (upMember_ok hs).2.1⟩
  · have hx : x.markId ∈ records.map Prod.snd := hnumbers ▸ mem_map_of_mem hx
    obtain ⟨e, he, heq⟩ := mem_map.mp hx
    exact heq ▸ hnumbering.range e he
  · rw [hnumbers]
    exact hnumbering.distinct

/-- A rule leads to a member. -/
theorem enabledRule_mark {members : List Member} {s : RuleSection} {r : Rule}
    (h : enabledRule members s = some r) : ∃ x ∈ members, r.mark = x.markId := by
  unfold enabledRule at h
  obtain ⟨x, hx, h⟩ := Option.bind_eq_some_iff.mp h
  obtain ⟨src, -, h⟩ := Option.bind_eq_some_iff.mp h
  obtain ⟨dest, -, h⟩ := Option.bind_eq_some_iff.mp h
  obtain ⟨proto, -, h⟩ := Option.bind_eq_some_iff.mp h
  split at h
  · cases h
  · obtain ⟨sport, -, h⟩ := Option.bind_eq_some_iff.mp h
    obtain ⟨dport, -, h⟩ := Option.bind_eq_some_iff.mp h
    cases Option.some.inj h
    exact ⟨x, mem_of_find?_eq_some hx, rfl⟩

/-- A rule has the mark of the member it names. -/
theorem upRules_mark {members : List Member} {sections : List RuleSection} {rules : List Rule}
    (h : upRules members sections = some rules) {r : Rule} (hr : r ∈ rules) :
    ∃ x ∈ members, r.mark = x.markId := by
  obtain ⟨lines, hlines, rfl⟩ := Option.map_eq_some_iff.mp h
  obtain ⟨line, hline, hr⟩ := mem_flatten.mp hr
  rw [← filterMap_eq_of_mapM hlines] at hline
  obtain ⟨s, -, hs⟩ := mem_filterMap.mp hline
  unfold upRule at hs
  split at hs
  · cases Option.some.inj hs
    cases hr
  · obtain ⟨r', hr', rfl⟩ := Option.map_eq_some_iff.mp hs
    cases mem_singleton.mp hr
    exact enabledRule_mark hr'

/-- Once a configuration has been accepted, the member file is an accepted list and every rule leads
to a member of it. -/
def Usable (m : Manager) : Prop :=
  m.generation ≠ none → Accepted m.memberFile ∧ ∀ r ∈ m.rules, ∃ x ∈ m.memberFile, r.mark = x.markId

/-- A reload that fails leaves rules and members, and one that succeeds writes both. -/
theorem usable_reload {m : Manager} (hm : Usable m) (e : Reload) : Usable (reload m e) := by
  intro hsome
  by_cases hnew : m.generation = some e.config
  · rw [(reload_unchanged hnew).1] at hsome ⊢
    exact hm hsome
  · cases hok : e.accepted m with
    | true =>
      obtain ⟨hforce, -⟩ := upConfig_accepted hnew hok
      exact ⟨accepted_upConfig hnew hok, fun r hr => upRules_mark hforce.rules hr⟩
    | false =>
      obtain ⟨hrules, hmembers, hgeneration⟩ := reload_rejected hok
      rw [hmembers, hrules]
      exact hm (hgeneration ▸ hsome)

/-- **The files can be used** after any sequence of reloads of which one was accepted. -/
theorem usable_throughout (m : Manager) (events : List Reload) :
    Throughout reload Usable { m with generation := none } events :=
  throughout_of_step (fun h => absurd rfl h) fun _ e _ hm => usable_reload hm e

end QModem.Uplink
