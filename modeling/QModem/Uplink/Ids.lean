import QModem.Uplink.Accepted

/-!
# Numbers and Surviving Connections

`up_ids` of `balance.sh` again, with every query of `conntrack` on its own: the first one lists all
connections, and one more is made for each number that could be given to a new member.  A query may
fail, and a failed one prints nothing or only a part of what it should.

The first query has to succeed, but nobody looks at what it printed.  Of the later ones only the
output counts: the status of the pipeline is that of `grep`.

## Main results

- `upIds_steady`: under a `conntrack` that always answers the same, this is `up_ids` as `up_config`
  uses it in `QModem.Uplink.Config`
- `upIds_iff`: what a successful run guarantees, and when its new numbers are established
-/

namespace QModem.Uplink

open Lib List

/-! ## Queries -/

/-- An answer of `conntrack -L --mark`. -/
structure Query where
  succeeded : Bool
  /-- Whether a line that is not empty has been printed. -/
  prints : Bool
  deriving DecidableEq, Repr

/-- The answers of `conntrack`: to query number `k` of a run, when it asks for the number `n`. -/
abbrev Answers := ℕ → ℕ → Query

/-- The queries of a run up to now, each with the number it asked for. -/
abbrev Asked := List (ℕ × Query)

/-- The search for a number: those in use are passed over without a query, and the first one whose
query prints nothing is taken. -/
def searchId (answers : Answers) (previous records : List (Text × ℕ)) :
    List ℕ → Asked → Option ℕ × Asked
  | [], asked => (none, asked)
  | n :: candidates, asked =>
    if previous.any (·.2 = n) || records.any (·.2 = n) then
      searchId answers previous records candidates asked
    else
      let query := answers asked.length n
      if query.prints then searchId answers previous records candidates (asked ++ [(n, query)])
      else (some n, asked ++ [(n, query)])

/-- The loop of `up_ids` over the members. -/
def numberMembers (answers : Answers) (previous : List (Text × ℕ)) :
    List Text → List (Text × ℕ) → Asked → Option (List (Text × ℕ)) × Asked
  | [], records, asked => (some records, asked)
  | key :: keys, records, asked =>
    match previous.find? (·.1 = key) with
    | some e => numberMembers answers previous keys (records ++ [(key, e.2)]) asked
    | none =>
      match searchId answers previous records (List.range' 1 64) asked with
      | (none, asked) => (none, asked)
      | (some n, asked) => numberMembers answers previous keys (records ++ [(key, n)]) asked

/-- How `up_ids` ends. -/
structure Numbered where
  /-- The file `ids.json` -/
  file : IdsFile
  /-- The new records, if it succeeds. -/
  records : Option (List (Text × ℕ))
  asked : Asked

/-- `up_ids`.  `listing` is the output of the first query, by the numbers of the connections in it,
unless it fails. -/
def upIds (answers : Answers) (listing : Option (ℕ → Bool)) (file : IdsFile) (members : List Text) :
    Numbered :=
  match file.entries, listing with
  | some entries, some _ =>
    let previous := entries.filter fun e => members.contains e.1
    match numberMembers answers previous members [] [] with
    | (some records, asked) => ⟨.object records, some records, asked⟩
    | (none, asked) => ⟨file, none, asked⟩
  | _, _ => ⟨file, none, []⟩

/-! ## A steady `conntrack` -/

section Steady

variable {answers : Answers} {live : ℕ → Bool} (hsteady : ∀ k n, (answers k n).prints = live n)

include hsteady

/-- With a tracker that does not change its mind the search is that for the first free number. -/
theorem searchId_steady (previous records : List (Text × ℕ)) (candidates : List ℕ) (asked : Asked) :
    (searchId answers previous records candidates asked).1 = candidates.find? fun n =>
      !(previous.any (·.2 = n)) && !(records.any (·.2 = n)) && !live n := by
  induction candidates generalizing asked with
  | nil => rfl
  | cons n candidates ih =>
    rw [searchId, find?_cons]
    by_cases hused : (previous.any (·.2 = n) || records.any (·.2 = n)) = true
    · rw [if_pos hused, ih]
      have hfree : (!(previous.any (·.2 = n)) && !(records.any (·.2 = n)) && !live n) = false := by
        simp only [Bool.or_eq_true] at hused
        rcases hused with hused | hused <;> simp [hused]
      rw [hfree]
    · rw [if_neg hused]
      dsimp only
      rw [hsteady]
      simp only [Bool.or_eq_true, not_or, Bool.not_eq_true] at hused
      -- a number that is still in use by a connection is passed over
      cases hlive : live n with
      | true =>
        rw [if_pos rfl, ih]
        simp
      | false => simp [hused.1, hused.2]

/-- So is the numbering. -/
theorem numberMembers_steady (previous : List (Text × ℕ)) (keys : List Text)
    (records : List (Text × ℕ)) (asked : Asked) :
    (numberMembers answers previous keys records asked).1 =
      assignIds live previous keys records := by
  induction keys generalizing records asked with
  | nil => rfl
  | cons key keys ih =>
    rw [numberMembers, assignIds]
    cases previous.find? (·.1 = key) with
    | some e => exact ih _ _
    | none =>
      -- a member without a number in the file
      have hsearch := searchId_steady hsteady previous records (range' 1 64) asked
      rw [← freeId] at hsearch
      rw [← hsearch]
      rcases searchId answers previous records (range' 1 64) asked with ⟨_ | n, asked'⟩
      · rfl
      · exact ih _ _

end Steady

/-- What a tracker lists, if it works. -/
def Conntrack.listing (tracker : Conntrack) : Option (ℕ → Bool) :=
  if tracker.works then some tracker.live else none

variable {answers : Answers} {previous records : List (Text × ℕ)}

/-- The piece of `up_config` is `up_ids` under a tracker that always answers the same. -/
theorem upIds_steady (tracker : Conntrack) (m : Manager)
    (hsteady : ∀ k n, (answers k n).prints = tracker.live n) :
    (Load.ids tracker m).1.ids =
        (upIds answers tracker.listing m.ids (m.parameters.members.map Member.id)).file ∧
      (Load.ids tracker m).2 =
        (upIds answers tracker.listing m.ids
          (m.parameters.members.map Member.id)).records.isSome := by
  unfold Load.ids upIds Conntrack.listing
  -- the file or the listing may be unreadable; then both stop
  cases m.ids.entries with
  | none => exact ⟨rfl, rfl⟩
  | some entries =>
    cases tracker.works with
    | false => exact ⟨rfl, rfl⟩
    | true =>
      have hloop := numberMembers_steady hsteady
        (entries.filter fun e => (m.parameters.members.map Member.id).contains e.1)
        (m.parameters.members.map Member.id) [] []
      simp only [Bool.not_true, Bool.false_eq_true, if_false, if_true]
      rw [← hloop]
      rcases numberMembers answers
        (entries.filter fun e => (m.parameters.members.map Member.id).contains e.1)
        (m.parameters.members.map Member.id) [] [] with ⟨_ | records, asked⟩
      · exact ⟨rfl, rfl⟩
      · exact ⟨rfl, rfl⟩

/-! ## What a run has asked -/

/-- The numbers that a query let through, in order. -/
def Asked.granted (asked : Asked) : List ℕ := (asked.filter fun a => !a.2.prints).map Prod.fst

/-- The numbers of the members that had none before, in order. -/
def newIds (previous records : List (Text × ℕ)) : List ℕ :=
  (records.filter fun e => !(previous.map Prod.fst).contains e.1).map Prod.snd

/-- **The search**: the number it finds is fresh, and of the queries it made only the last one has
printed nothing. -/
theorem searchId_spec {candidates : List ℕ} {asked asked' : Asked} {n : ℕ}
    (hrange : ∀ c ∈ candidates, 1 ≤ c ∧ c ≤ 64)
    (h : searchId answers previous records candidates asked = (some n, asked')) :
    Fresh previous records n ∧ asked'.granted = asked.granted ++ [n] := by
  induction candidates generalizing asked with
  | nil => simp [searchId] at h
  | cons c candidates ih =>
    have hrest : ∀ x ∈ candidates, 1 ≤ x ∧ x ≤ 64 := fun x hx => hrange x (by simp [hx])
    rw [searchId] at h
    by_cases hused : (previous.any (·.2 = c) || records.any (·.2 = c)) = true
    · rw [if_pos hused] at h
      exact ih hrest h
    rw [if_neg hused] at h
    dsimp only at h
    -- only a number for which nothing was printed is granted
    cases hprints : (answers asked.length c).prints with
    | true =>
      rw [hprints, if_pos rfl] at h
      obtain ⟨hfresh, hgranted⟩ := ih hrest h
      refine ⟨hfresh, hgranted.trans ?_⟩
      simp [Asked.granted, hprints]
    | false =>
      rw [hprints, if_neg (by simp)] at h
      obtain ⟨rfl, rfl⟩ : c = n ∧ asked ++ [(c, answers asked.length c)] = asked' := by
        simpa using h
      simp only [Bool.or_eq_true, not_or, any_eq_true, decide_eq_true_eq, ← mem_map] at hused
      exact ⟨⟨hrange c (by simp), hused.1, hused.2⟩, by simp [Asked.granted, hprints]⟩

theorem newIds_concat_old {e : Text × ℕ} (h : e.1 ∈ previous.map Prod.fst) :
    newIds previous (records ++ [e]) = newIds previous records := by
  have hold : (previous.map Prod.fst).contains e.1 = true := contains_iff_mem.mpr h
  rw [newIds, filter_append, filter_cons_of_neg (by rw [hold]; simp), filter_nil,
    append_nil, newIds]

theorem newIds_concat_new {e : Text × ℕ} (h : e.1 ∉ previous.map Prod.fst) :
    newIds previous (records ++ [e]) = newIds previous records ++ [e.2] := by
  have hnew : (previous.map Prod.fst).contains e.1 = false := by
    rw [Bool.eq_false_iff, Ne, contains_iff_mem]
    exact h
  rw [newIds, filter_append, filter_cons_of_pos (by rw [hnew]; rfl), filter_nil,
    map_append, newIds, map_singleton]

theorem mem_newIds {n : ℕ} :
    n ∈ newIds previous records ↔ ∃ e ∈ records, e.1 ∉ previous.map Prod.fst ∧ e.2 = n := by
  simp only [newIds, mem_map, mem_filter, Bool.not_eq_true', Bool.eq_false_iff, Ne,
    contains_iff_mem, and_assoc]

theorem Asked.mem_granted {asked : Asked} {n : ℕ} :
    n ∈ asked.granted ↔ ∃ a ∈ asked, a.2.prints = false ∧ a.1 = n := by
  simp only [Asked.granted, mem_map, mem_filter, Bool.not_eq_true', and_assoc]

/-- **The loop over the members**: its turns give old or fresh numbers, the fresh ones are those
that a query let through, and every member with a number keeps it. -/
theorem numberMembers_spec {keys : List Text} {records out : List (Text × ℕ)}
    {asked asked' : Asked} (hnew : newIds previous records = asked.granted)
    (h : numberMembers answers previous keys records asked = (some out, asked')) :
    Assigns previous keys records out ∧ newIds previous out = asked'.granted ∧ records ⊆ out ∧
      ∀ key ∈ keys, ∀ e, previous.find? (·.1 = key) = some e → e ∈ out := by
  induction keys generalizing records asked with
  | nil =>
    obtain ⟨rfl, rfl⟩ : records = out ∧ asked = asked' := by simpa [numberMembers] using h
    exact ⟨.nil records, hnew, Subset.refl _, by simp⟩
  | cons key keys ih =>
    rw [numberMembers] at h
    cases hfound : previous.find? (·.1 = key) with
    | some e =>
      rw [hfound] at h
      have hkey : e.1 = key := by simpa using find?_some hfound
      have hmem := mem_of_find?_eq_some hfound
      subst hkey
      -- the number is an old one, so none is granted
      have hkept : newIds previous (records ++ [(e.1, e.2)]) = asked.granted :=
        (newIds_concat_old (mem_map_of_mem hmem)).trans hnew
      obtain ⟨hassigns, hgranted, hsubset, hrest⟩ := ih hkept h
      refine ⟨.cons (.inl hmem) hassigns, hgranted, fun x hx => hsubset (by simp [hx]),
        forall_mem_cons.mpr ⟨fun e' he' => ?_, hrest⟩⟩
      obtain rfl : e = e' := Option.some.inj (hfound.symm.trans he')
      exact hsubset (by simp)
    | none =>
      rw [hfound] at h
      have hnew_key : key ∉ previous.map Prod.fst := by
        intro hmem
        obtain ⟨e, he, rfl⟩ := mem_map.mp hmem
        exact find?_eq_none.mp hfound e he (decide_eq_true rfl)
      cases hsearch : searchId answers previous records (range' 1 64) asked with
      | mk result asked1 =>
        rw [hsearch] at h
        cases result with
        | none => simp at h
        | some n =>
          obtain ⟨hfresh, hasked⟩ := searchId_spec
            (fun c hc => by have := mem_range'_1.mp hc; omega) hsearch
          have hnew' : newIds previous (records ++ [(key, n)]) = asked1.granted := by
            rw [newIds_concat_new hnew_key, hnew, hasked]
          obtain ⟨hassigns, hgranted, hsubset, hrest⟩ := ih hnew' h
          refine ⟨.cons (.inr hfresh) hassigns, hgranted, fun x hx => hsubset (by simp [hx]),
            forall_mem_cons.mpr ⟨fun e' he' => ?_, hrest⟩⟩
          rw [hfound] at he'
          cases he'

/-! ## Established numbers -/

/-- The listing has been printed and has no connection with the number. -/
def ListedFree (listing : Option (ℕ → Bool)) (n : ℕ) : Prop :=
  ∃ live, listing = some live ∧ live n = false

/-- A query that succeeded has shown no connection with the number. -/
def Established (listing : Option (ℕ → Bool)) (asked : Asked) (n : ℕ) : Prop :=
  ListedFree listing n ∨ ∃ a ∈ asked, a.1 = n ∧ a.2.succeeded = true ∧ a.2.prints = false

/-- The records of a successful run. -/
structure Records (entries : List (Text × ℕ)) (members : List Text) (records : List (Text × ℕ)) :
    Prop where
  /-- Every member has a record, and nobody else. -/
  keys : records.map Prod.fst = members
  range : ∀ e ∈ records, 1 ≤ e.2 ∧ e.2 ≤ 64
  distinct : (records.map Prod.snd).Nodup
  /-- A member that had a number keeps it. -/
  kept : ∀ key ∈ members, ∀ e, entries.find? (·.1 = key) = some e → e ∈ records

theorem find?_filter_members {entries : List (Text × ℕ)} {members : List Text} {key : Text}
    (h : key ∈ members) :
    (entries.filter fun e => members.contains e.1).find? (·.1 = key) =
      entries.find? (·.1 = key) := by
  rw [find?_filter]
  congr 1
  funext e
  by_cases hkey : e.1 = key
  · simp [hkey, h]
  · simp [hkey]

/-- **Numbers of the members**: for every file that passes the check, every list of distinct members
and every behaviour of `conntrack`, a run that fails leaves the file as it was, and one that
succeeds gives different numbers from 1 to 64 and keeps the old ones.  All new numbers are
established exactly when no query has let a number through by failing, except numbers that the
listing does not have. -/
theorem upIds_iff (answers : Answers) (listing : Option (ℕ → Bool)) {file : IdsFile}
    {entries : List (Text × ℕ)} {members : List Text} (hentries : file.entries = some entries)
    (hmembers : members.Nodup) :
    ((upIds answers listing file members).records = none →
        (upIds answers listing file members).file = file) ∧
      ∀ records, (upIds answers listing file members).records = some records →
        (upIds answers listing file members).file = .object records ∧
        Records entries members records ∧
        ((∀ e ∈ records, e.1 ∉ entries.map Prod.fst →
            Established listing (upIds answers listing file members).asked e.2) ↔
          ∀ a ∈ (upIds answers listing file members).asked, a.2.prints = false →
            a.2.succeeded = true ∨ ListedFree listing a.1) := by
  unfold upIds
  rw [hentries]
  cases listing with
  | none => exact ⟨fun _ => rfl, fun records h => by cases h⟩
  | some live =>
    set previous := entries.filter fun e => members.contains e.1 with hprevious
    dsimp only
    cases hloop : numberMembers answers previous members [] [] with
    | mk result asked =>
      cases result with
      | none => exact ⟨fun _ => rfl, fun records h => by cases h⟩
      | some out =>
        refine ⟨fun h => absurd h (by simp), ?_⟩
        rintro records ⟨⟩
        obtain ⟨hvalues, hdistinct⟩ := entries_spec hentries
        obtain ⟨hassigns, hgranted, -, hkept⟩ := numberMembers_spec rfl hloop
        obtain ⟨hnumbering, hkeys⟩ := hassigns.numbering
          (hdistinct.sublist (filter_sublist.map _))
          (fun e he => hvalues e (mem_of_mem_filter he)) hmembers (numbering_nil _)
        have hkeys' : out.map Prod.fst = members := hkeys
        refine ⟨rfl, ⟨hkeys', hnumbering.range, hnumbering.distinct, ?_⟩, ?_⟩
        · intro key hkey e he
          apply hkept key hkey e
          rw [hprevious, find?_filter_members hkey]
          exact he
        · -- the new records are those that the file does not know
          have hnew : ∀ n, n ∈ asked.granted ↔ ∃ e ∈ out, e.1 ∉ entries.map Prod.fst ∧ e.2 = n := by
            intro n
            rw [← hgranted, mem_newIds]
            constructor
            · rintro ⟨e, he, hunknown, heq⟩
              refine ⟨e, he, fun hmem => hunknown ?_, heq⟩
              obtain ⟨x, hx, hkey⟩ := mem_map.mp hmem
              have hmember : e.1 ∈ members := hkeys' ▸ mem_map_of_mem he
              exact mem_map.mpr ⟨x, mem_filter.mpr ⟨hx, by simpa [hkey] using hmember⟩, hkey⟩
            · rintro ⟨e, he, hunknown, heq⟩
              refine ⟨e, he, fun hmem => hunknown ?_, heq⟩
              obtain ⟨x, hx, hkey⟩ := mem_map.mp hmem
              exact mem_map.mpr ⟨x, mem_of_mem_filter hx, hkey⟩
          have hgranted_nodup : asked.granted.Nodup := by
            rw [← hgranted]
            exact hnumbering.distinct.sublist (filter_sublist.map _)
          constructor
          · intro hestablished a ha hprints
            obtain ⟨e, he, hunknown, heq⟩ :=
              (hnew a.1).mp (Asked.mem_granted.mpr ⟨a, ha, hprints, rfl⟩)
            rcases hestablished e he hunknown with hlisted | ⟨b, hb, hnumber, hsucceeded, hquiet⟩
            · exact .inr (heq ▸ hlisted)
            · -- no number is let through twice
              have hsame : b = a := inj_on_of_nodup_map hgranted_nodup
                (mem_filter.mpr ⟨hb, by simp [hquiet]⟩)
                (mem_filter.mpr ⟨ha, by simp [hprints]⟩) (hnumber.trans heq)
              exact .inl (hsame ▸ hsucceeded)
          · intro hqueries e he hunknown
            obtain ⟨a, ha, hprints, heq⟩ :=
              Asked.mem_granted.mp ((hnew e.2).mpr ⟨e, he, hunknown, rfl⟩)
            rcases hqueries a ha hprints with hsucceeded | hlisted
            · exact .inr ⟨a, ha, heq, hsucceeded, hprints⟩
            · exact .inl (heq ▸ hlisted)

/-- A `conntrack` that still has connections with the number 2. -/
def busyTracker : Answers := fun _ n => ⟨true, n = 2⟩

/-- The member `modem:a` keeps its number.  The one of `modem:b`, which is gone, is still in use, so
the new member `modem:c` gets the next one, which is established. -/
theorem upIds_kept_and_new :
    let entries := [(ascii "modem:a", 1), (ascii "modem:b", 2)]
    let members := [ascii "modem:a", ascii "modem:c"]
    let run := upIds busyTracker (some (· = 2)) (.object entries) members
    (IdsFile.object entries).entries = some entries ∧ members.Nodup ∧
      run.records = some [(ascii "modem:a", 1), (ascii "modem:c", 3)] ∧
      Records entries members [(ascii "modem:a", 1), (ascii "modem:c", 3)] ∧
      Established (some (· = 2)) run.asked 3 := by
  intro entries members run
  have hentries : (IdsFile.object entries).entries = some entries := by decide
  have hmembers : members.Nodup := by decide
  have hrecords : run.records = some [(ascii "modem:a", 1), (ascii "modem:c", 3)] := by
    decide +kernel
  have hrun := (upIds_iff busyTracker (some (· = 2)) hentries hmembers).2 _ hrecords
  refine ⟨hentries, hmembers, hrecords, hrun.2.1, ?_⟩
  -- every question was answered, so the new number is free
  have hasked : ∀ a ∈ run.asked, a.2.succeeded = true := by decide +kernel
  exact hrun.2.2.mpr (fun a ha _ => .inl (hasked a ha)) _ (mem_cons_of_mem _ mem_cons_self)
    (by decide)

/-- A `conntrack` whose queries by mark fail without a word. -/
def brokenTracker : Answers := fun _ _ => ⟨false, false⟩

/-- The listing shows a connection with the number 1, the query for it fails, and a new member gets
the number all the same. -/
theorem failedQuery_grants :
    let run := upIds brokenTracker (some (· = 1)) .absent [ascii "modem:a"]
    run.records = some [(ascii "modem:a", 1)] ∧ run.asked = [(1, ⟨false, false⟩)] ∧
      ¬ Established (some (· = 1)) run.asked 1 := by
  refine ⟨by decide, by decide, ?_⟩
  rintro (⟨live, hlive, hfree⟩ | ⟨a, ha, -, hsucceeded, -⟩)
  · obtain rfl := Option.some.inj hlive
    simp at hfree
  · obtain rfl : a = (1, ⟨false, false⟩) := by simpa using (show a ∈ [(1, ⟨false, false⟩)] from ha)
    simp at hsucceeded

end QModem.Uplink
