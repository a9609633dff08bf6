import QModem.Lib.Run
import QModem.Uplink.Config

/-!
# Reloading the Configuration

`up_config` sets its variables one by one while it checks the configuration, writes the numbers of
the members before it looks at the rules, and does nothing when the signature is the one it has
accepted last.  So a configuration that is rejected half way leaves its traces, and going back to
the accepted one does not remove them.

## Main results

- `upConfig_rejected`: a configuration that is rejected leaves rules, members and signature alone
- `upConfig_accepted`: what is in force after a configuration has been read to its end
- `upConfig_cases`: how far a configuration is read
- `allOrNothing_of_careful`: reloads are all or nothing when nothing but rules is wrong in a later
  configuration, and those only while settings, members and their numbers stay as they are
-/

namespace QModem.Uplink

open Lib List

/-- The text that `up_num` checks. -/
def setting (value : Option Text) (default : Text) : Text :=
  if value.getD [] ≠ [] then value.getD [] else default

/-- A member before `up_ids`. -/
def Member.unnumbered (x : Member) : Member := { x with markId := 0 }

/-- The parameters, members and rules of the manager are those of the configuration. -/
structure InForce (c : Config) (m : Manager) : Prop where
  mode : m.parameters.mode = c.mode.getD (ascii "failover")
  interval : m.parameters.interval = setting c.interval (ascii "10")
  timeout : m.parameters.timeout = setting c.timeout (ascii "2")
  fail : m.parameters.fail = setting c.failThreshold (ascii "3")
  recover : m.parameters.recover = setting c.recoverThreshold (ascii "3")
  stable : m.parameters.stable = setting c.stableSeconds (ascii "60")
  targets : m.parameters.targets = c.targets
  members : m.parameters.members = m.memberFile
  sections : ∃ found, c.members.mapM upMember = some found ∧
    m.memberFile.map Member.unnumbered = found.insertionSort Member.NotAfter
  rules : upRules m.memberFile c.rules = some m.rules

/-! ## Pieces of `up_config` -/

/-- The piece leaves rule file, member file and signature alone. -/
def Load.KeepsFiles (f : Load) : Prop :=
  ∀ m, (f m).1.rules = m.rules ∧ (f m).1.memberFile = m.memberFile ∧
    (f m).1.generation = m.generation

/-- The same, but only if it fails. -/
def Load.Rejects (f : Load) : Prop :=
  ∀ m, (f m).2 = false → (f m).1.rules = m.rules ∧ (f m).1.memberFile = m.memberFile ∧
    (f m).1.generation = m.generation

/-- Pieces that write no file may come before one that fails cleanly. -/
theorem Load.KeepsFiles.andThen {f g : Load} (hf : f.KeepsFiles) (hg : g.Rejects) :
    (f.andThen g).Rejects := by
  intro m hfail
  obtain ⟨hrules, hmembers, hgeneration⟩ := hf m
  unfold Load.andThen at hfail ⊢
  dsimp only at hfail ⊢
  split at hfail
  · rename_i hok
    rw [if_pos hok]
    obtain ⟨hrules', hmembers', hgeneration'⟩ := hg _ hfail
    exact ⟨hrules'.trans hrules, hmembers'.trans hmembers, hgeneration'.trans hgeneration⟩
  · rename_i hno
    rw [if_neg hno]
    exact hf m

theorem keepsFiles_members (c : Config) : (Load.members c).KeepsFiles := by
  intro m
  unfold Load.members
  split <;> exact ⟨rfl, rfl, rfl⟩

theorem keepsFiles_ids (tracker : Conntrack) : (Load.ids tracker).KeepsFiles := by
  intro m
  unfold Load.ids
  split
  · exact ⟨rfl, rfl, rfl⟩
  · split
    · exact ⟨rfl, rfl, rfl⟩
    · dsimp only
      split <;> exact ⟨rfl, rfl, rfl⟩

theorem rejects_install (c : Config) : (Load.install c).Rejects := by
  intro m hfail
  unfold Load.install at hfail ⊢
  cases hrules : upRules m.parameters.members c.rules with
  | none => exact ⟨rfl, rfl, rfl⟩
  | some rules =>
    rw [hrules] at hfail
    cases hfail

/-- **A configuration that is rejected** leaves rule file, member file and signature alone. -/
theorem upConfig_rejected (tracker : Conntrack) (c : Config) : (upConfig tracker c).Rejects := by
  intro m hfail
  unfold upConfig at hfail ⊢
  split at hfail
  · cases hfail
  · rename_i hnew
    rw [if_neg hnew]
    -- up to the members only parameters are set
    refine Load.KeepsFiles.andThen (f := Load.interval c) (fun _ => ⟨rfl, rfl, rfl⟩) ?_ m hfail
    refine Load.KeepsFiles.andThen (f := Load.timeout c) (fun _ => ⟨rfl, rfl, rfl⟩) ?_
    refine Load.KeepsFiles.andThen (f := Load.fail c) (fun _ => ⟨rfl, rfl, rfl⟩) ?_
    refine Load.KeepsFiles.andThen (f := Load.recover c) (fun _ => ⟨rfl, rfl, rfl⟩) ?_
    refine Load.KeepsFiles.andThen (f := Load.stable c) (fun _ => ⟨rfl, rfl, rfl⟩) ?_
    refine Load.KeepsFiles.andThen (f := Load.targets c) (fun _ => ⟨rfl, rfl, rfl⟩) ?_
    refine Load.KeepsFiles.andThen (f := Load.mode c) (fun _ => ⟨rfl, rfl, rfl⟩) ?_
    exact (keepsFiles_members c).andThen ((keepsFiles_ids tracker).andThen (rejects_install c))

/-! ## What is in force afterwards -/

variable {tracker : Conntrack} {c : Config} {m : Manager}

def Manager.adjust (m : Manager) (g : Parameters → Parameters) : Manager :=
  { m with parameters := g m.parameters }

/-- A piece that makes a check and sets parameters, and does nothing else. -/
structure Load.Sets (f : Load) (valid : Bool) (g : Parameters → Parameters) : Prop where
  result : ∀ m, (f m).2 = valid
  eq : ∀ m, valid = true → (f m).1 = m.adjust g
  ids : ∀ m, (f m).1.ids = m.ids

/-- The check passes and the next piece goes on, or everything ends with the numbers as they are. -/
theorem Load.Sets.andThen_cases {f k : Load} {valid : Bool} {g : Parameters → Parameters}
    (hf : f.Sets valid g) (m : Manager) :
    (valid = true ∧ f.andThen k m = k (m.adjust g)) ∨
      (valid = false ∧ (f.andThen k m).2 = false ∧ (f.andThen k m).1.ids = m.ids) := by
  have hresult := hf.result m
  unfold Load.andThen
  dsimp only
  cases valid with
  | true =>
    rw [if_pos hresult, hf.eq m rfl]
    exact .inl ⟨rfl, rfl⟩
  | false =>
    rw [if_neg (hresult ▸ Bool.false_ne_true)]
    exact .inr ⟨rfl, hresult, hf.ids m⟩

theorem sets_assignNumber (set : Parameters → Text → Parameters) (value : Option Text)
    (default : Text) (low high : ℕ) :
    (assignNumber set value default low high).Sets (upNum value default low high).isSome
      fun p => set p (setting value default) := by
  refine ⟨fun _ => rfl, fun m h => ?_, fun _ => rfl⟩
  obtain ⟨text, htext⟩ := Option.isSome_iff_exists.mp h
  have hsetting : setting value default = text :=
    Option.some.inj (Option.ite_none_right_eq_some.mp htext).2
  simp [assignNumber, Manager.adjust, htext, hsetting]

/-- If every element has an image, leaving out those without one leaves out nothing. -/
theorem filterMap_eq_of_mapM {α β : Type} {f : α → Option β} :
    ∀ {xs : List α} {ys : List β}, xs.mapM f = some ys → xs.filterMap f = ys
  | [], ys, h => by
    rw [List.mapM_nil] at h
    exact Option.some.inj h
  | x :: xs, ys, h => by
    rw [List.mapM_cons] at h
    obtain ⟨y, hy, h⟩ := Option.bind_eq_some_iff.mp h
    obtain ⟨rest, hrest, h⟩ := Option.bind_eq_some_iff.mp h
    rw [filterMap_cons_some hy, filterMap_eq_of_mapM hrest]
    exact Option.some.inj h

/-! ## What is checked before the rules -/

namespace Config

variable (c : Config)

/-- The checks on the targets and on the mode. -/
def targetsValid : Bool :=
  c.targets ≠ [] && (tokens [32, 9, 10] c.targets).length ≤ 4 &&
    (tokens [32, 9, 10] c.targets).all upIpv4

def modeValid : Bool :=
  c.mode.getD (ascii "failover") = ascii "balance" || c.mode.getD (ascii "failover") = ascii "failover"

/-- The members of the sections that are right, in their order. -/
def sorted : List Member := (c.members.filterMap upMember).insertionSort Member.NotAfter

def membersValid : Bool :=
  (c.members.mapM upMember).isSome && c.sorted.length ≤ 64 && (c.sorted.map Member.id).Nodup

/-- The members with the numbers that are recorded for them. -/
def numbered (records : List (Text × ℕ)) : List Member :=
  c.sorted.map fun x => { x with markId := idOf records x.id }

/-- The variables that the configuration sets. -/
def parameters (members : List Member) : Parameters where
  mode := c.mode.getD (ascii "failover")
  interval := setting c.interval (ascii "10")
  timeout := setting c.timeout (ascii "2")
  fail := setting c.failThreshold (ascii "3")
  recover := setting c.recoverThreshold (ascii "3")
  stable := setting c.stableSeconds (ascii "60")
  targets := c.targets
  members

/-- The numbers that `up_ids` gives to the members, by the entries of the file. -/
def assigned (tracker : Conntrack) (entries : List (Text × ℕ)) : Option (List (Text × ℕ)) :=
  assignIds tracker.live (entries.filter fun e => (c.sorted.map Member.id).contains e.1)
    (c.sorted.map Member.id) []

end Config

/-- Everything that `up_config` checks before the rules is right: settings, members, and numbers for
them. -/
structure Readable (tracker : Conntrack) (ids : IdsFile) (c : Config) : Prop where
  interval : (upNum c.interval (ascii "10") 1 300).isSome = true
  timeout : (upNum c.timeout (ascii "2") 1 10).isSome = true
  fail : (upNum c.failThreshold (ascii "3") 1 30).isSome = true
  recover : (upNum c.recoverThreshold (ascii "3") 1 30).isSome = true
  stable : (upNum c.stableSeconds (ascii "60") 0 3600).isSome = true
  targets : c.targetsValid = true
  mode : c.modeValid = true
  members : c.membersValid = true
  works : tracker.works = true
  numbers : ∃ entries ∈ ids.entries, (c.assigned tracker entries).isSome = true

/-- The members are checked one by one and then sorted. -/
theorem sets_members (c : Config) :
    (Load.members c).Sets c.membersValid ({ · with members := c.sorted }) := by
  unfold Config.membersValid
  cases hfound : c.members.mapM upMember with
  | none =>
    refine ⟨fun m => ?_, nofun, fun m => ?_⟩ <;> simp [Load.members, hfound]
  | some found =>
    refine ⟨fun m => ?_, fun m _ => ?_, fun m => ?_⟩ <;>
    · unfold Load.members
      rw [hfound]
      rfl

/-- The numbers are assigned and recorded, and the rules are next, or nothing happens. -/
theorem ids_cases (tracker : Conntrack) (c : Config) (m : Manager) :
    let loaded := (Load.ids tracker).andThen (Load.install c)
      { m with parameters := c.parameters c.sorted }
    (∃ entries records, tracker.works = true ∧ m.ids.entries = some entries ∧
      c.assigned tracker entries = some records ∧ loaded = Load.install c
        { m with parameters := c.parameters (c.numbered records), ids := .object records }) ∨
    ((tracker.works = true → ∀ entries ∈ m.ids.entries, c.assigned tracker entries = none) ∧
      loaded.2 = false ∧ loaded.1.ids = m.ids) := by
  let t : Manager := { m with parameters := c.parameters c.sorted }
  -- without numbers nothing is installed
  have hstops : Load.ids tracker t = (t, false) →
      ((Load.ids tracker).andThen (Load.install c) t).2 = false ∧
        ((Load.ids tracker).andThen (Load.install c) t).1.ids = m.ids := by
    intro h
    unfold Load.andThen
    rw [h]
    exact ⟨rfl, rfl⟩
  cases hentries : m.ids.entries with
  | none =>
    refine .inr ⟨fun _ entries hmem => absurd hmem (Option.not_mem_none entries), hstops ?_⟩
    unfold Load.ids
    rw [show t.ids.entries = none from hentries]
  | some entries =>
    cases hworks : tracker.works with
    | false =>
      refine .inr ⟨fun h => absurd h Bool.false_ne_true, hstops ?_⟩
      unfold Load.ids
      rw [show t.ids.entries = some entries from hentries, hworks]
      rfl
    | true =>
      have hids : (∃ records, c.assigned tracker entries = some records ∧ Load.ids tracker t =
            ({ m with parameters := c.parameters (c.numbered records), ids := .object records },
              true)) ∨
          c.assigned tracker entries = none ∧ Load.ids tracker t = (t, false) := by
        unfold Load.ids
        rw [show t.ids.entries = some entries from hentries, hworks]
        dsimp only
        rw [if_neg (by decide)]
        split
        next h => exact .inr ⟨h, rfl⟩
        next records h => exact .inl ⟨records, h, rfl⟩
      rcases hids with ⟨records, hrecords, hids⟩ | ⟨hnone, hids⟩
      · refine .inl ⟨entries, records, rfl, rfl, hrecords, ?_⟩
        unfold Load.andThen
        rw [show ({ m with parameters := c.parameters c.sorted } : Manager) = t from rfl, hids]
        rfl
      · exact .inr ⟨fun _ _ hmem => Option.mem_some_iff.mp hmem ▸ hnone, hstops hids⟩

/-- **The configuration is read as far as to its rules**, or is rejected with the numbers as they
are. -/
theorem upConfig_cases (tracker : Conntrack) (hnew : m.generation ≠ some c) :
    (∃ entries records, Readable tracker m.ids c ∧ m.ids.entries = some entries ∧
      c.assigned tracker entries = some records ∧ upConfig tracker c m = Load.install c
        { m with parameters := c.parameters (c.numbered records), ids := .object records }) ∨
    (¬ Readable tracker m.ids c ∧ (upConfig tracker c m).2 = false ∧
      (upConfig tracker c m).1.ids = m.ids) := by
  unfold upConfig
  rw [if_neg hnew]
  -- one piece of the loader after the other: it is valid, or everything ends here
  obtain ⟨hinterval, heq⟩ | ⟨hbad, hends⟩ := Load.Sets.andThen_cases (f := Load.interval c)
    (sets_assignNumber ..) _
  swap
  · exact .inr ⟨fun h => absurd (hbad.symm.trans h.interval) Bool.false_ne_true, hends⟩
  rw [heq]
  obtain ⟨htimeout, heq⟩ | ⟨hbad, hends⟩ := Load.Sets.andThen_cases (f := Load.timeout c)
    (sets_assignNumber ..) _
  swap
  · exact .inr ⟨fun h => absurd (hbad.symm.trans h.timeout) Bool.false_ne_true, hends⟩
  rw [heq]
  obtain ⟨hfail, heq⟩ | ⟨hbad, hends⟩ := Load.Sets.andThen_cases (f := Load.fail c)
    (sets_assignNumber ..) _
  swap
  · exact .inr ⟨fun h => absurd (hbad.symm.trans h.fail) Bool.false_ne_true, hends⟩
  rw [heq]
  obtain ⟨hrecover, heq⟩ | ⟨hbad, hends⟩ := Load.Sets.andThen_cases (f := Load.recover c)
    (sets_assignNumber ..) _
  swap
  · exact .inr ⟨fun h => absurd (hbad.symm.trans h.recover) Bool.false_ne_true, hends⟩
  rw [heq]
  obtain ⟨hstable, heq⟩ | ⟨hbad, hends⟩ := Load.Sets.andThen_cases (f := Load.stable c)
    (sets_assignNumber ..) _
  swap
  · exact .inr ⟨fun h => absurd (hbad.symm.trans h.stable) Bool.false_ne_true, hends⟩
  rw [heq]
  obtain ⟨htargets, heq⟩ | ⟨hbad, hends⟩ := Load.Sets.andThen_cases (f := Load.targets c)
    (g := fun p => { p with targets := c.targets })
    ⟨fun _ => rfl, fun _ _ => rfl, fun _ => rfl⟩ _
  swap
  · exact .inr ⟨fun h => absurd (hbad.symm.trans h.targets) Bool.false_ne_true, hends⟩
  rw [heq]
  obtain ⟨hmode, heq⟩ | ⟨hbad, hends⟩ := Load.Sets.andThen_cases (f := Load.mode c)
    (g := fun p => { p with mode := c.mode.getD (ascii "failover") })
    ⟨fun _ => rfl, fun _ _ => rfl, fun _ => rfl⟩ _
  swap
  · exact .inr ⟨fun h => absurd (hbad.symm.trans h.mode) Bool.false_ne_true, hends⟩
  rw [heq]
  obtain ⟨hmembers, heq⟩ | ⟨hbad, hends⟩ := Load.Sets.andThen_cases (f := Load.members c)
    (sets_members c) _
  swap
  · exact .inr ⟨fun h => absurd (hbad.symm.trans h.members) Bool.false_ne_true, hends⟩
  rw [heq]
  obtain ⟨entries, records, hworks, hentries, hrecords, heq⟩ | ⟨hnone, hends⟩ :=
    ids_cases tracker c m
  · exact .inl ⟨entries, records, ⟨hinterval, htimeout, hfail, hrecover, hstable, htargets, hmode,
      hmembers, hworks, entries, hentries, hrecords ▸ rfl⟩, hentries, hrecords, heq⟩
  · refine .inr ⟨fun h => ?_, hends⟩
    obtain ⟨entries, hentries, hsome⟩ := h.numbers
    rw [hnone h.works entries hentries] at hsome
    cases hsome

theorem install_ok (h : (Load.install c m).2 = true) :
    ∃ rules, upRules m.parameters.members c.rules = some rules ∧ (Load.install c m).1 =
      { m with rules, memberFile := m.parameters.members, generation := some c } := by
  unfold Load.install at h ⊢
  cases hrules : upRules m.parameters.members c.rules with
  | none =>
    rw [hrules] at h
    cases h
  | some rules => exact ⟨rules, rfl, rfl⟩

/-- Everything that a configuration sets when it has been read to its end. -/
theorem upConfig_ok (hnew : m.generation ≠ some c) (hok : (upConfig tracker c m).2 = true) :
    ∃ found entries records rules members,
      c.members.mapM upMember = some found ∧ (found.map Member.id).Nodup ∧
      m.ids.entries = some entries ∧
      assignIds tracker.live
        (entries.filter fun e => ((found.insertionSort Member.NotAfter).map Member.id).contains e.1)
        ((found.insertionSort Member.NotAfter).map Member.id) [] = some records ∧
      members = (found.insertionSort Member.NotAfter).map
        (fun x => { x with markId := idOf records x.id }) ∧
      upRules members c.rules = some rules ∧
      (upConfig tracker c m).1 =
        { parameters := c.parameters members
          rules, memberFile := members, ids := .object records, generation := some c } := by
  obtain ⟨entries, records, hread, hentries, hrecords, heq⟩ | ⟨-, hfails, -⟩ :=
    upConfig_cases tracker hnew
  · rw [heq] at hok ⊢
    obtain ⟨rules, hrules, hinstalled⟩ := install_ok hok
    rw [hinstalled]
    have hmembers := hread.members
    simp only [Config.membersValid, Bool.and_eq_true, decide_eq_true_eq] at hmembers
    obtain ⟨⟨hsome, -⟩, hnodup⟩ := hmembers
    obtain ⟨found, hfound⟩ := Option.isSome_iff_exists.mp hsome
    -- all members are valid, so leaving out the others leaves out none
    have hsorted : c.sorted = found.insertionSort Member.NotAfter := by
      rw [Config.sorted, filterMap_eq_of_mapM hfound]
    unfold Config.assigned at hrecords
    rw [hsorted] at hrecords hnodup
    refine ⟨found, entries, records, rules, c.numbered records, hfound, ?_, hentries, hrecords, ?_,
      hrules, rfl⟩
    · exact ((perm_insertionSort _ _).map _).nodup_iff.mp hnodup
    · rw [Config.numbered, hsorted]
  · exact absurd (hfails.symm.trans hok) Bool.false_ne_true

/-- What `up_member` guarantees about a member it adds. -/
theorem upMember_ok {s : MemberSection} {x : Member} (h : upMember s = some x) :
    1 ≤ x.weight ∧ x.weight ≤ 255 ∧ x.markId = 0 := by
  unfold upMember at h
  dsimp only at h
  split at h
  · cases h
  · rename_i hvalid
    split at h
    · cases h
    · obtain ⟨kind, -, rfl⟩ := Option.map_eq_some_iff.mp h
      simp only [Bool.or_eq_true, not_or, Bool.not_eq_true', Bool.not_eq_false] at hvalid
      obtain ⟨-, hweight⟩ := hvalid
      -- the weight is checked as a number in its range
      unfold upUint at hweight
      simp only [Bool.and_eq_true, decide_eq_true_eq] at hweight
      exact ⟨hweight.1.2, hweight.2, rfl⟩

/-- **A configuration that has been read to its end** is in force. -/
theorem upConfig_accepted (hnew : m.generation ≠ some c) (hok : (upConfig tracker c m).2 = true) :
    InForce c (upConfig tracker c m).1 ∧ (upConfig tracker c m).1.generation = some c := by
  obtain ⟨found, entries, records, rules, members, hfound, -, -, -, hmembers, hrules, heq⟩ :=
    upConfig_ok hnew hok
  have hunnumbered : members.map Member.unnumbered = found.insertionSort Member.NotAfter := by
    rw [hmembers, map_map]
    refine (map_congr_left fun x hx => ?_).trans (map_id _)
    -- what `up_member` adds has no number
    have hx : x ∈ c.members.filterMap upMember := by
      rw [filterMap_eq_of_mapM hfound]
      exact (mem_insertionSort _).mp hx
    obtain ⟨s, -, hs⟩ := mem_filterMap.mp hx
    obtain ⟨-, -, hzero⟩ := upMember_ok hs
    simp [Member.unnumbered, ← hzero]
  rw [heq]
  exact ⟨⟨rfl, rfl, rfl, rfl, rfl, rfl, rfl, rfl, ⟨found, hfound, hunnumbered⟩, hrules⟩, rfl⟩

/-! ## Sequences of reloads -/

/-- A call of `up_config`: what `conntrack` says then, and the configuration there is. -/
structure Reload where
  tracker : Conntrack
  config : Config

def reload (m : Manager) (e : Reload) : Manager := (upConfig e.tracker e.config m).1

/-- Whether the reload has reported success. -/
def Reload.accepted (e : Reload) (m : Manager) : Bool := (upConfig e.tracker e.config m).2

/-- What has been written: numbers, rules and members. -/
def Manager.files (m : Manager) : IdsFile × List Rule × List Member := (m.ids, m.rules, m.memberFile)

/-- A reload is all or nothing. -/
structure AllOrNothing (m : Manager) (e : Reload) : Prop where
  success : e.accepted m = true → InForce e.config (reload m e)
  failure : e.accepted m = false → (reload m e).files = m.files
  back : e.accepted m = false → ∀ tracker accepted, m.generation = some accepted →
    (reload (reload m e) ⟨tracker, accepted⟩).parameters = m.parameters

/-- Once a configuration has been accepted, only the rules of a later one may be wrong.  When they
are, the file has the numbers of exactly its members, in their order, and its settings and members
are those in force. -/
structure Careful (m : Manager) (e : Reload) : Prop where
  readable : m.generation ≠ none → m.generation ≠ some e.config →
    Readable e.tracker m.ids e.config
  known : m.generation ≠ some e.config → Readable e.tracker m.ids e.config →
    upRules e.config.sorted e.config.rules = none →
      ∃ entries, m.ids = .object entries ∧
        entries.map Prod.fst = e.config.sorted.map Member.id ∧
        (m.generation ≠ none → m.parameters = e.config.parameters (e.config.numbered entries))

/-- The configuration accepted last is in force. -/
def Settled (m : Manager) : Prop := ∀ c, m.generation = some c → InForce c m

/-- The numbering file is no part of what is in force. -/
theorem InForce.of_eq {m' : Manager} (h : InForce c m) (hparameters : m'.parameters = m.parameters)
    (hrules : m'.rules = m.rules) (hmembers : m'.memberFile = m.memberFile) : InForce c m' where
  mode := hparameters ▸ h.mode
  interval := hparameters ▸ h.interval
  timeout := hparameters ▸ h.timeout
  fail := hparameters ▸ h.fail
  recover := hparameters ▸ h.recover
  stable := hparameters ▸ h.stable
  targets := hparameters ▸ h.targets
  members := by rw [hparameters, hmembers, h.members]
  sections := hmembers ▸ h.sections
  rules := by rw [hmembers, hrules, h.rules]

variable {e : Reload}

/-- A configuration that has been accepted already is not read again. -/
theorem reload_unchanged (h : m.generation = some e.config) :
    reload m e = m ∧ e.accepted m = true := by
  unfold reload Reload.accepted upConfig
  rw [if_pos h]
  exact ⟨rfl, rfl⟩

theorem reload_rejected (h : e.accepted m = false) :
    (reload m e).rules = m.rules ∧ (reload m e).memberFile = m.memberFile ∧
      (reload m e).generation = m.generation :=
  upConfig_rejected e.tracker e.config m h

theorem reload_accepted (hm : Settled m) (h : e.accepted m = true) :
    InForce e.config (reload m e) ∧ (reload m e).generation = some e.config := by
  by_cases hnew : m.generation = some e.config
  · rw [(reload_unchanged hnew).1]
    exact ⟨hm _ hnew, hnew⟩
  · exact upConfig_accepted hnew h

/-- Members that are all recorded keep their numbers. -/
theorem assigned_of_recorded {entries : List (Text × ℕ)} (hnodup : (c.sorted.map Member.id).Nodup)
    (h : entries.map Prod.fst = c.sorted.map Member.id) :
    c.assigned tracker entries = some entries := by
  have hfind : ∀ e ∈ entries, entries.find? (·.1 = e.1) = some e := by
    intro e he
    cases hfound : entries.find? (·.1 = e.1) with
    | none => exact absurd (by simp) (find?_eq_none.mp hfound e he)
    | some found =>
      have hname : found.1 = e.1 := by simpa using find?_some hfound
      exact congrArg some
        (inj_on_of_nodup_map (h ▸ hnodup) (mem_of_find?_eq_some hfound) he hname)
  -- the records grow by one entry of the file at a time
  have hgrows : ∀ rest records, (∀ e ∈ rest, e ∈ entries) →
      assignIds tracker.live entries (rest.map Prod.fst) records = some (records ++ rest) := by
    intro rest
    induction rest with
    | nil => simp [assignIds]
    | cons e rest ih =>
      intro records hmem
      rw [forall_mem_cons] at hmem
      rw [map_cons, assignIds, hfind e hmem.1]
      show assignIds _ _ _ (records ++ [e]) = _
      rw [ih _ hmem.2, append_assoc]
      rfl
  have hall : entries.filter (fun e => (c.sorted.map Member.id).contains e.1) = entries :=
    filter_eq_self.mpr fun e he => by
      rw [← h]
      simpa using ⟨e.2, he⟩
  rw [Config.assigned, hall, ← h]
  exact hgrows entries [] fun _ he => he

/-- Whether rules are right does not depend on the numbers of the members. -/
theorem upRules_numbered (records : List (Text × ℕ)) (sections : List RuleSection) :
    (upRules (c.numbered records) sections).isSome = (upRules c.sorted sections).isSome := by
  -- the numbers do not matter for whether a rule is valid
  have hone : ∀ s, (upRule (c.numbered records) s).isSome = (upRule c.sorted s).isSome := by
    intro s
    have hfind : ((c.numbered records).find? fun x => x.id = s.target.getD []) =
        (c.sorted.find? fun x => x.id = s.target.getD []).map
          fun x => { x with markId := idOf records x.id } := find?_map
    unfold upRule enabledRule
    rw [hfind]
    simp only [Option.isSome_map, Option.bind_eq_bind, Option.isSome_bind, apply_ite Option.isSome,
      Option.any_map]
    rfl
  have hall : ∀ members, (upRules members sections).isSome =
      sections.all fun s => (upRule members s).isSome := by
    intro members
    unfold upRules
    rw [Option.isSome_map]
    induction sections with
    | nil => rfl
    | cons s sections ih =>
      rw [mapM_cons, all_cons, ← ih]
      cases upRule members s <;> cases sections.mapM (upRule members) <;> rfl
  simp only [hall, hone]

/-- **A careful reload that fails** has left the numbers alone and, once a configuration has been
accepted, all variables too. -/
theorem reload_failed (h : Careful m e) (hfail : e.accepted m = false) :
    (reload m e).ids = m.ids ∧ (m.generation ≠ none → (reload m e).parameters = m.parameters) := by
  have hnew : m.generation ≠ some e.config := fun hsame =>
    absurd (hfail.symm.trans (reload_unchanged hsame).2) Bool.false_ne_true
  unfold Reload.accepted at hfail
  unfold reload
  obtain ⟨entries, records, hread, hentries, hrecords, heq⟩ | ⟨hunread, -, hids⟩ :=
    upConfig_cases e.tracker hnew
  · rw [heq] at hfail ⊢
    unfold Load.install at hfail ⊢
    cases hrules : upRules (e.config.numbered records) e.config.rules with
    | some rules =>
      have hrules : upRules (e.config.parameters (e.config.numbered records)).members
        e.config.rules = some rules := hrules
      rw [hrules] at hfail
      cases hfail
    | none =>
      have hwrong : upRules e.config.sorted e.config.rules = none := by
        have hsome := upRules_numbered (c := e.config) records e.config.rules
        rw [hrules] at hsome
        exact Option.not_isSome_iff_eq_none.mp (hsome ▸ Bool.false_ne_true)
      obtain ⟨known, hfile, hnames, hforce⟩ := h.known hnew hread hwrong
      have hmembers := hread.members
      simp only [Config.membersValid, Bool.and_eq_true, decide_eq_true_eq] at hmembers
      -- what is read from the file is written to it again
      obtain rfl : known = entries := by
        rw [hfile, IdsFile.entries] at hentries
        exact Option.some.inj (Option.ite_none_right_eq_some.mp hentries).2
      obtain rfl : known = records :=
        Option.some.inj ((assigned_of_recorded hmembers.2 hnames).symm.trans hrecords)
      have hrules : upRules (e.config.parameters (e.config.numbered known)).members
        e.config.rules = none := hrules
      rw [hrules]
      exact ⟨hfile.symm, fun hsome => (hforce hsome).symm⟩
  · exact ⟨hids, fun hsome => absurd (h.readable hsome hnew) hunread⟩

theorem allOrNothing_step (hm : Settled m) (h : Careful m e) : AllOrNothing m e := by
  refine ⟨fun hok => (reload_accepted hm hok).1, fun hfail => ?_, fun hfail tracker c hc => ?_⟩
  · obtain ⟨hrules, hmembers, -⟩ := reload_rejected hfail
    simp only [Manager.files, (reload_failed h hfail).1, hrules, hmembers]
  · rw [(reload_unchanged ((reload_rejected hfail).2.2.trans hc)).1]
    exact (reload_failed h hfail).2 (by simp [hc])

/-- With care a configuration that is refused leaves the last one in force. -/
theorem settled_reload (hm : Settled m) (h : Careful m e) : Settled (reload m e) := by
  intro c hc
  cases hok : e.accepted m with
  | true =>
    obtain ⟨hforce, hgeneration⟩ := reload_accepted hm hok
    cases Option.some.inj (hgeneration.symm.trans hc)
    exact hforce
  | false =>
    obtain ⟨hrules, hmembers, hgeneration⟩ := reload_rejected hok
    have hc := hgeneration.symm.trans hc
    exact (hm c hc).of_eq ((reload_failed h hok).2 (by simp [hc])) hrules hmembers

/-- **Reloads are all or nothing** in every run of careful ones.  The manager starts with any
variables and files, but has accepted nothing. -/
theorem allOrNothing_of_careful (m : Manager) {events : List Reload}
    (h : Along reload Careful { m with generation := none } events) :
    Along reload AllOrNothing { m with generation := none } events := by
  refine (along_iff_along (p := Settled) (fun c hc => by cases hc) ?_ ?_ h).mp h
  · exact fun m e hcareful hm => iff_of_true hcareful (allOrNothing_step hm hcareful)
  · exact fun m e hcareful _ hm => settled_reload hm hcareful

/-- A configuration without members and rules. -/
def plainConfig (mode interval : Text) : Config where
  mode := some mode
  interval := some interval
  timeout := none
  failThreshold := none
  recoverThreshold := none
  stableSeconds := none
  targets := ascii "223.5.5.5"
  members := []
  rules := []

/-- A manager that has just been started. -/
def booted : Manager where
  parameters := ⟨[], ascii "10", ascii "2", ascii "3", ascii "3", ascii "60", ascii "223.5.5.5", []⟩
  rules := []
  memberFile := []
  ids := .absent
  generation := none

def oneLink : Config :=
  { plainConfig (ascii "balance") (ascii "10") with
    members := [⟨some (ascii "wired"), some (ascii "wan"), none, none, none⟩] }

/-- The same with a rule for a member that there is not. -/
def oneLinkWrong : Config :=
  { oneLink with rules := [⟨none, none, none, none, none, none, some (ascii "wired:lte")⟩] }

/-- A `conntrack` without connections -/
def idle : Conntrack := ⟨true, fun _ => false⟩

/-- The second configuration is rejected for its rule, and then the first one is in force again. -/
theorem allOrNothing_wrongRule :
    Along reload AllOrNothing booted [⟨idle, oneLink⟩, ⟨idle, oneLinkWrong⟩, ⟨idle, oneLink⟩] ∧
      Reload.accepted ⟨idle, oneLinkWrong⟩ (reload booted ⟨idle, oneLink⟩) = false := by
  have hentries : (reload booted ⟨idle, oneLink⟩).ids.entries =
      some [(ascii "wired:wan", 1)] := by decide +kernel
  have hreadable : Readable idle (reload booted ⟨idle, oneLink⟩).ids oneLinkWrong :=
    ⟨by decide +kernel, by decide +kernel, by decide +kernel, by decide +kernel, by decide +kernel,
      by decide +kernel, by decide +kernel, by decide +kernel, rfl, _, hentries, by decide +kernel⟩
  -- the wrong rule is refused after everything else was read
  have hback : (reload (reload booted ⟨idle, oneLink⟩) ⟨idle, oneLinkWrong⟩).generation =
      some oneLink := by decide +kernel
  have hfirst : Careful booted ⟨idle, oneLink⟩ :=
    ⟨fun h => absurd rfl h, fun _ _ hwrong => absurd hwrong (by decide +kernel)⟩
  have hsecond : Careful (reload booted ⟨idle, oneLink⟩) ⟨idle, oneLinkWrong⟩ :=
    ⟨fun _ _ => hreadable, fun _ _ _ => ⟨[(ascii "wired:wan", 1)], by decide +kernel,
      by decide +kernel, fun _ => by decide +kernel⟩⟩
  refine ⟨allOrNothing_of_careful booted ⟨hfirst, hsecond, ⟨?_, ?_⟩, trivial⟩, by decide +kernel⟩
  · exact fun _ hnew => absurd hback hnew
  · exact fun hnew => absurd hback hnew

/-- The mode of the second configuration is wrong; the third one is the first one again. -/
def backAndForth : List Reload :=
  [⟨idle, plainConfig (ascii "balance") (ascii "10")⟩,
    ⟨idle, plainConfig (ascii "weighted") (ascii "300")⟩,
    ⟨idle, plainConfig (ascii "balance") (ascii "10")⟩]

/-- Success is reported for the first configuration again, but the mode and the interval are those
of the rejected one. -/
theorem backAndForth_not_allOrNothing : ¬ Along reload AllOrNothing booted backAndForth := by
  rintro ⟨-, -, h, -⟩
  have hmode := (h.success (by decide +kernel)).mode
  revert hmode
  decide +kernel

end QModem.Uplink
