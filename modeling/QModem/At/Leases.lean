import QModem.At.LineQueue
import QModem.Lib.CMemory
import QModem.Lib.Digits

/-!
# Leases on AT Ports

The lease table of `control.c` in `ubus_at_daemon`.  An owner takes a lease on a port for some
seconds and gets a token, with which it can renew or release the lease.  A lease ends when it is
released or when its time is over; leases whose time is over are removed by the next call.

`LeaseLog` is the table together with the leases that were granted, as the callers see them.

## Main results

- `LeaseLog.leases_sound`: the table holds the leases that are neither released nor over, at most
  one for a port, no token is given out twice, the token of a lease that has ended has no effect,
  and a port is granted to everyone or to the owner of its lease
-/

namespace QModem.At

open Lib List

/-! ## The table -/

/-- `at_lease_t` -/
structure Lease where
  port : Text
  owner : Text
  token : Text
  expiresMs : ℕ
  deriving DecidableEq

/-- The leases of `at_daemon_ctx_t`. -/
structure LeaseTable where
  daemonEpoch : ℕ
  nextLeaseId : ℕ := 0
  leases : List Lease := []
  deriving DecidableEq

/-- `MAX_PORT_PATH_SIZE` -/
def maxPortPathSize : ℕ := 64

/-- `valid_component` -/
def validComponent (value : Text) (maximum : ℕ) : Bool := 0 < value.length && value.length < maximum

/-- A number printed with `%llx`. -/
def hexText (n : ℕ) : Text := (Nat.toDigits 16 n).map fun c => UInt8.ofNat c.toNat

/-- The token `%llx-%llx` of a lease. -/
def leaseToken (daemonEpoch leaseId : ℕ) : Text := hexText daemonEpoch ++ ascii "-" ++ hexText leaseId

/-- Replaces the first lease that is selected, or unlinks it. -/
def alterFirst (p : Lease → Bool) (f : Lease → Option Lease) : List Lease → Option (List Lease)
  | [] => none
  | lease :: rest =>
    if p lease then some ((f lease).toList ++ rest) else (alterFirst p f rest).map (lease :: ·)

/-- The calls on the table. -/
inductive LeaseCall where
  /-- `allocated` says that `calloc` succeeds. -/
  | acquire (port owner : Text) (ttl : ℕ) (allocated : Bool)
  | renew (port owner token : Text) (ttl : ℕ)
  | release (port owner token : Text)
  | authorize (port : Text) (owner : Option Text)

/-- The token a lease is to be changed with. -/
def LeaseCall.token? : LeaseCall → Option Text
  | .renew _ _ token _ => some token
  | .release _ _ token => some token
  | _ => none

inductive LeaseReply where
  | acquired (token : Text) (expiresMs : ℕ)
  | renewed (expiresMs : ℕ)
  | released
  | granted
  /-- A negative return value. -/
  | refused (rc : ℤ)
  deriving DecidableEq

namespace LeaseTable

/-- `expire_leases` -/
def expireLeases (t : LeaseTable) (now : ℕ) : LeaseTable :=
  { t with leases := t.leases.filter (now < ·.expiresMs) }

/-- `at_lease_acquire` -/
def acquire (t : LeaseTable) (now : ℕ) (port owner : Text) (ttl : ℕ) (allocated : Bool) :
    LeaseTable × LeaseReply :=
  if !validComponent port maxPortPathSize || !validComponent owner 64 || ttl < 1 || 300 < ttl then
    (t, .refused (-1))
  else
    let t := t.expireLeases now
    if t.leases.any (·.port = port) then (t, .refused (-2))
    else if !allocated then (t, .refused (-3))
    else
      let lease : Lease :=
        { port, owner
          token := leaseToken t.daemonEpoch (t.nextLeaseId + 1)
          expiresMs := now + ttl * 1000 }
      ({ t with nextLeaseId := t.nextLeaseId + 1, leases := lease :: t.leases },
        .acquired lease.token lease.expiresMs)

/-- The lease a caller means. -/
def selects (port owner token : Text) (lease : Lease) : Bool :=
  lease.port = port && lease.owner = owner && lease.token = token

/-- `at_lease_renew` -/
def renew (t : LeaseTable) (now : ℕ) (port owner token : Text) (ttl : ℕ) :
    LeaseTable × LeaseReply :=
  if !validComponent port maxPortPathSize || !validComponent owner 64 || !validComponent token 96 ||
      ttl < 1 || 300 < ttl then (t, .refused (-1))
  else
    let t := t.expireLeases now
    match alterFirst (selects port owner token)
      (fun lease => some { lease with expiresMs := now + ttl * 1000 }) t.leases with
    | some leases => ({ t with leases }, .renewed (now + ttl * 1000))
    | none => (t, .refused (-2))

/-- `at_lease_release` -/
def release (t : LeaseTable) (now : ℕ) (port owner token : Text) : LeaseTable × LeaseReply :=
  let t := t.expireLeases now
  match alterFirst (selects port owner token) (fun _ => none) t.leases with
  | some leases => ({ t with leases }, .released)
  | none => (t, .refused (-1))

/-- `at_lease_authorize` -/
def authorize (t : LeaseTable) (now : ℕ) (port : Text) (owner : Option Text) :
    LeaseTable × LeaseReply :=
  let t := t.expireLeases now
  match t.leases.find? (·.port = port) with
  | some lease => (t, if owner = some lease.owner then .granted else .refused (-1))
  | none => (t, .granted)

def call (t : LeaseTable) (now : ℕ) : LeaseCall → LeaseTable × LeaseReply
  | .acquire port owner ttl allocated => t.acquire now port owner ttl allocated
  | .renew port owner token ttl => t.renew now port owner token ttl
  | .release port owner token => t.release now port owner token
  | .authorize port owner => t.authorize now port owner

def unexpired (t : LeaseTable) (now : ℕ) : List Lease := t.leases.filter (now < ·.expiresMs)

end LeaseTable

/-! ## Histories -/

/-- A lease that was granted, as its owner has been told. -/
structure Grant extends Lease where
  released : Bool
  deriving DecidableEq

/-- The lease has not ended. -/
def Grant.live (g : Grant) (now : ℕ) : Bool := !g.released && now < g.expiresMs

/-- The table, the time, and the leases that were granted. -/
structure LeaseLog where
  table : LeaseTable
  now : ℕ
  grants : List Grant

/-- What a reply says about the leases that were granted. -/
def observe (grants : List Grant) : LeaseCall → LeaseReply → List Grant
  | .acquire port owner _ _, .acquired token expiresMs =>
    grants ++ [⟨{ port, owner, token, expiresMs }, false⟩]
  | .renew _ _ token _, .renewed expiresMs =>
    grants.map fun g => if g.token = token then { g with expiresMs } else g
  | .release _ _ token, .released =>
    grants.map fun g => if g.token = token then { g with released := true } else g
  | _, _ => grants

/-- A call, and the time since the last one. -/
abbrev TimedCall := ℕ × LeaseCall

namespace LeaseLog

def initial (daemonEpoch : ℕ) : LeaseLog := ⟨{ daemonEpoch }, 0, []⟩

def result (h : LeaseLog) (c : TimedCall) : LeaseTable × LeaseReply := h.table.call (h.now + c.1) c.2

def step (h : LeaseLog) (c : TimedCall) : LeaseLog where
  table := (h.result c).1
  now := h.now + c.1
  grants := observe h.grants c.2 (h.result c).2

/-- The table holds exactly the leases that have not ended, one for a port, and no token was given
out twice. -/
structure Sound (h : LeaseLog) : Prop where
  agrees : ∀ lease, lease ∈ h.table.unexpired h.now ↔
    ∃ g ∈ h.grants, g.live h.now = true ∧ g.toLease = lease
  onePerPort : ((h.table.unexpired h.now).map (·.port)).Nodup
  exclusive : ∀ g ∈ h.grants, ∀ g' ∈ h.grants, g.live h.now = true → g'.live h.now = true →
    g.port = g'.port → g = g'
  tokens : (h.grants.map (·.token)).Nodup

/-- The token of a lease that has ended by the time of the call. -/
def Ended (h : LeaseLog) (now : ℕ) (token : Text) : Prop :=
  ∃ g ∈ h.grants, g.token = token ∧ g.live now = false

/-- Tokens of leases that have ended have no effect, and a port is granted exactly to those who may
use it. -/
structure Respects (h : LeaseLog) (c : TimedCall) : Prop where
  ended : ∀ token, c.2.token? = some token → h.Ended (h.now + c.1) token →
    (∃ rc, (h.result c).2 = .refused rc) ∧
      (h.result c).1.unexpired (h.now + c.1) = h.table.unexpired (h.now + c.1)
  authorized : ∀ port owner, c.2 = .authorize port owner →
    ((h.result c).2 = .granted ↔
      ∀ g ∈ h.grants, g.live (h.now + c.1) = true → g.port = port → owner = some g.owner)

end LeaseLog

/-! ## Tokens -/

theorem hexText_injective : Function.Injective hexText := by
  refine toDigits_map_injective (by decide) ?_
  decide

/-- Different leases get different tokens. -/
theorem leaseToken_injective (daemonEpoch : ℕ) : Function.Injective (leaseToken daemonEpoch) := by
  intro m n h
  exact hexText_injective (append_cancel_left h)

/-! ## What a call does -/

/-- The first lease that is selected is changed or taken away. -/
theorem alterFirst_eq_some {p : Lease → Bool} {f : Lease → Option Lease} {leases leases' : List Lease}
    (h : alterFirst p f leases = some leases') :
    ∃ before lease after, leases = before ++ lease :: after ∧ p lease = true ∧
      leases' = before ++ ((f lease).toList ++ after) := by
  induction leases generalizing leases' with
  | nil => cases h
  | cons first rest ih =>
    rw [alterFirst] at h
    split at h
    · -- the first lease is the one
      next hp =>
      cases h
      exact ⟨[], first, rest, rfl, hp, rfl⟩
    · obtain ⟨rest', hrest, rfl⟩ := Option.map_eq_some_iff.mp h
      obtain ⟨before, lease, after, rfl, hp, rfl⟩ := ih hrest
      exact ⟨first :: before, lease, after, rfl, hp, rfl⟩

namespace LeaseTable

/-- The cases of a call at a given time. -/
inductive Effect (t : LeaseTable) (now : ℕ) : LeaseCall → LeaseTable × LeaseReply → Prop where
  /-- The arguments are not valid. -/
  | rejected (c : LeaseCall) : Effect t now c (t, .refused (-1))
  | refused (c : LeaseCall) (rc : ℤ) : Effect t now c (t.expireLeases now, .refused rc)
  | granted (port : Text) (owner : Option Text) :
      Effect t now (.authorize port owner) (t.expireLeases now, .granted)
  | acquired (port owner : Text) (ttl : ℕ) (allocated : Bool) (lease : Lease)
      (hport : lease.port = port) (howner : lease.owner = owner)
      (htoken : lease.token = leaseToken t.daemonEpoch (t.nextLeaseId + 1))
      (hfits : port.length < maxPortPathSize) (hfree : ∀ x ∈ t.unexpired now, x.port ≠ port) :
      Effect t now (.acquire port owner ttl allocated)
        (⟨t.daemonEpoch, t.nextLeaseId + 1, lease :: t.unexpired now⟩,
          .acquired lease.token lease.expiresMs)
  | renewed (ttl : ℕ) (before after : List Lease) (lease : Lease) (expiresMs : ℕ)
      (hleases : t.unexpired now = before ++ lease :: after) :
      Effect t now (.renew lease.port lease.owner lease.token ttl)
        (⟨t.daemonEpoch, t.nextLeaseId, before ++ { lease with expiresMs } :: after⟩,
          .renewed expiresMs)
  | released (before after : List Lease) (lease : Lease)
      (hleases : t.unexpired now = before ++ lease :: after) :
      Effect t now (.release lease.port lease.owner lease.token)
        (⟨t.daemonEpoch, t.nextLeaseId, before ++ after⟩, .released)

theorem selects_iff {port owner token : Text} {lease : Lease} :
    selects port owner token lease = true ↔
      lease.port = port ∧ lease.owner = owner ∧ lease.token = token := by
  simp [selects, and_assoc]

/-- **Calls**: a call does one of the things that `Effect` lists. -/
theorem effect_call (t : LeaseTable) (now : ℕ) (c : LeaseCall) : Effect t now c (t.call now c) := by
  cases c with
  | acquire port owner ttl allocated =>
    show Effect t now _ (t.acquire now port owner ttl allocated)
    unfold acquire
    split
    · exact .rejected _
    next hvalid =>
    dsimp only
    split
    · exact .refused _ _
    next hfree =>
    split
    · exact .refused _ _
    · refine .acquired port owner ttl allocated
        ⟨port, owner, leaseToken t.daemonEpoch (t.nextLeaseId + 1), now + ttl * 1000⟩ rfl rfl rfl
        ?_ ?_
      · -- the sizes of both names were checked at the start
        simp only [validComponent, Bool.or_eq_true, Bool.not_eq_true', not_or] at hvalid
        simp_all
      · simpa [expireLeases, unexpired] using hfree
  | renew port owner token ttl =>
    show Effect t now _ (t.renew now port owner token ttl)
    unfold renew
    split
    · exact .rejected _
    dsimp only
    split
    · next leases hleases =>
      obtain ⟨before, lease, after, hsplit, hselected, rfl⟩ := alterFirst_eq_some hleases
      obtain ⟨rfl, rfl, rfl⟩ := selects_iff.mp hselected
      exact .renewed ttl before after lease (now + ttl * 1000) hsplit
    · exact .refused _ _
  | release port owner token =>
    show Effect t now _ (t.release now port owner token)
    unfold release
    dsimp only
    split
    · next leases hleases =>
      obtain ⟨before, lease, after, hsplit, hselected, rfl⟩ := alterFirst_eq_some hleases
      obtain ⟨rfl, rfl, rfl⟩ := selects_iff.mp hselected
      exact .released before after lease hsplit
    · exact .refused _ _
  | authorize port owner =>
    show Effect t now _ (t.authorize now port owner)
    unfold authorize
    dsimp only
    split
    · -- the port has a lease that has not run out, and the owner has to be the same
      split
      · exact .granted port owner
      · exact .refused _ _
    · exact .granted port owner

theorem unexpired_expireLeases (t : LeaseTable) (now : ℕ) :
    (t.expireLeases now).unexpired now = t.unexpired now := by
  simp [unexpired, expireLeases]

/-- There is at most one lease for a port, and the names of ports fit. -/
structure WellFormed (t : LeaseTable) : Prop where
  ports : (t.leases.map (·.port)).Nodup
  fits : ∀ lease ∈ t.leases, lease.port.length < maxPortPathSize

namespace WellFormed

variable {t : LeaseTable} {now : ℕ}

theorem sublist (h : t.WellFormed) {leases : List Lease} (hsub : leases.Sublist t.leases)
    {nextLeaseId : ℕ} : WellFormed ⟨t.daemonEpoch, nextLeaseId, leases⟩ :=
  ⟨h.ports.sublist (hsub.map _), fun lease hlease => h.fits lease (hsub.subset hlease)⟩

/-- No call leaves two leases for a port or a name that is too long. -/
theorem effect (h : t.WellFormed) {c : LeaseCall} {r : LeaseTable × LeaseReply}
    (heffect : Effect t now c r) : r.1.WellFormed := by
  have hrest : WellFormed (t.expireLeases now) := h.sublist filter_sublist
  cases heffect with
  | rejected => exact h
  | refused => exact hrest
  | granted => exact hrest
  | acquired port _ _ _ lease hport _ _ hfits hfree =>
    subst hport
    -- no lease for the port was left
    refine ⟨nodup_cons.mpr ⟨?_, hrest.ports⟩, forall_mem_cons.mpr ⟨hfits, hrest.fits⟩⟩
    simpa using hfree
  | renewed _ before after lease expiresMs hleases =>
    have hports := hrest.ports
    have hfits := hrest.fits
    rw [expireLeases, ← unexpired, hleases] at hports hfits
    refine ⟨by simpa using hports, ?_⟩
    simp only [forall_mem_append, forall_mem_cons] at hfits ⊢
    exact hfits
  | released before after lease hleases =>
    refine hrest.sublist ?_
    -- a lease that is released is only taken away
    show (before ++ after).Sublist (t.unexpired now)
    rw [hleases]
    exact (sublist_cons_self lease after).append_left before

theorem call (h : t.WellFormed) (now : ℕ) (c : LeaseCall) : (t.call now c).1.WellFormed :=
  h.effect (t.effect_call now c)

/-- The lease of a port is the only one. -/
theorem lease_eq (h : t.WellFormed) {x y : Lease} (hx : x ∈ t.leases) (hy : y ∈ t.leases)
    (hport : x.port = y.port) : x = y :=
  inj_on_of_nodup_map h.ports hx hy hport

end WellFormed

end LeaseTable

/-! ## The invariant -/

theorem observe_refused (grants : List Grant) (c : LeaseCall) (rc : ℤ) :
    observe grants c (.refused rc) = grants := by
  cases c <;> rfl

namespace LeaseLog

/-- The leases of the table were granted and not released, those that have not ended are in it, and
tokens are numbered. -/
structure Kept (h : LeaseLog) : Prop where
  wellFormed : h.table.WellFormed
  granted : ∀ lease ∈ h.table.leases, ∃ g ∈ h.grants, g.released = false ∧ g.toLease = lease
  present : ∀ g ∈ h.grants, g.live h.now = true → g.toLease ∈ h.table.leases
  numbered : h.grants.map (·.token) =
    (List.range h.table.nextLeaseId).map fun i => leaseToken h.table.daemonEpoch (i + 1)

theorem kept_initial (daemonEpoch : ℕ) : (initial daemonEpoch).Kept :=
  ⟨⟨nodup_nil, nofun⟩, nofun, nofun, rfl⟩

theorem live_iff {g : Grant} {now : ℕ} :
    g.live now = true ↔ g.released = false ∧ now < g.expiresMs := by
  simp [Grant.live]

theorem live_of_le {g : Grant} {now now' : ℕ} (hle : now ≤ now') (h : g.live now' = true) :
    g.live now = true := by
  rw [live_iff] at h ⊢
  exact ⟨h.1, hle.trans_lt h.2⟩

namespace Kept

variable {h : LeaseLog}

variable (hk : h.Kept)

include hk

theorem tokens_nodup : (h.grants.map (·.token)).Nodup := by
  rw [hk.numbered]
  refine Nodup.map (fun m n hmn => ?_) nodup_range
  exact Nat.succ_injective (leaseToken_injective _ hmn)

/-- There is one grant for a token. -/
theorem grant_eq {g g' : Grant} (hg : g ∈ h.grants) (hg' : g' ∈ h.grants)
    (htoken : g.token = g'.token) : g = g' :=
  inj_on_of_nodup_map hk.tokens_nodup hg hg' htoken

/-- There is one lease for a token. -/
theorem lease_eq {x y : Lease} (hx : x ∈ h.table.leases) (hy : y ∈ h.table.leases)
    (htoken : x.token = y.token) : x = y := by
  obtain ⟨g, hg, -, rfl⟩ := hk.granted x hx
  obtain ⟨g', hg', -, rfl⟩ := hk.granted y hy
  rw [hk.grant_eq hg hg' htoken]

/-- Time goes on. -/
theorem later (elapsed : ℕ) : Kept { h with now := h.now + elapsed } :=
  { hk with present := fun g hg hlive => hk.present g hg (live_of_le (Nat.le_add_right _ _) hlive) }

/-- Leases whose time is over can be removed. -/
theorem expire : Kept { h with table := h.table.expireLeases h.now } where
  wellFormed := hk.wellFormed.sublist filter_sublist
  granted lease hmem := hk.granted lease (mem_filter.mp hmem).1
  present g hg hlive :=
    mem_filter.mpr ⟨hk.present g hg hlive, decide_eq_true (live_iff.mp hlive).2⟩
  numbered := hk.numbered

/-- A grant has a token that was never given out before. -/
theorem acquire {lease : Lease}
    (htoken : lease.token = leaseToken h.table.daemonEpoch (h.table.nextLeaseId + 1))
    (hwf : LeaseTable.WellFormed
      ⟨h.table.daemonEpoch, h.table.nextLeaseId + 1, lease :: h.table.leases⟩) :
    Kept ⟨⟨h.table.daemonEpoch, h.table.nextLeaseId + 1, lease :: h.table.leases⟩, h.now,
      h.grants ++ [⟨lease, false⟩]⟩ where
  wellFormed := hwf
  granted x hx := by
    rcases mem_cons.mp hx with rfl | hx
    · exact ⟨⟨x, false⟩, by simp, rfl, rfl⟩
    · obtain ⟨g, hg, hgx⟩ := hk.granted x hx
      exact ⟨g, mem_append_left _ hg, hgx⟩
  present g hg hlive := by
    rcases mem_append.mp hg with hg | hg
    · exact mem_cons_of_mem _ (hk.present g hg hlive)
    · obtain rfl := mem_singleton.mp hg
      exact mem_cons_self
  -- tokens are numbered in the order of the grants
  numbered := by
    rw [map_append, hk.numbered, range_succ, map_append]
    simp [htoken]

/-- The other leases have other tokens. -/
theorem token_ne {before after : List Lease} {lease : Lease}
    (hleases : h.table.leases = before ++ lease :: after) {x : Lease} (hx : x ∈ before ++ after) :
    x.token ≠ lease.token := by
  intro htoken
  have hmem : x ∈ h.table.leases := by
    rw [hleases]
    simp only [mem_append, mem_cons] at hx ⊢
    tauto
  obtain rfl := hk.lease_eq hmem (by simp [hleases]) htoken
  have hports := hk.wellFormed.ports
  rw [hleases, map_append, map_cons, nodup_middle, ← map_append] at hports
  exact (nodup_cons.mp hports).1 (mem_map_of_mem hx)

/-- A change of one lease, and of the grant with its token. -/
theorem alter {before after : List Lease} {lease : Lease}
    (hleases : h.table.leases = before ++ lease :: after) {r : Option Lease} (f : Grant → Grant)
    (htoken : ∀ g, (f g).token = g.token)
    (hf : ∀ g ∈ h.grants, g.released = false → g.toLease = lease →
      (∀ x ∈ r, (f g).released = false ∧ (f g).toLease = x) ∧
      ((f g).live h.now = true → (f g).toLease ∈ r))
    (hwf : LeaseTable.WellFormed
      ⟨h.table.daemonEpoch, h.table.nextLeaseId, before ++ (r.toList ++ after)⟩) :
    Kept ⟨⟨h.table.daemonEpoch, h.table.nextLeaseId, before ++ (r.toList ++ after)⟩, h.now,
      h.grants.map fun g => if g.token = lease.token then f g else g⟩ where
  wellFormed := hwf
  granted x hx := by
    have hother : x ∈ r ∨ x ∈ before ++ after := by
      simp only [mem_append, Option.mem_toList] at hx ⊢
      tauto
    rcases hother with hnew | hother
    · obtain ⟨g, hg, hheld, hlease⟩ := hk.granted lease (by simp [hleases])
      refine ⟨f g, mem_map.mpr ⟨g, hg, ?_⟩, (hf g hg hheld hlease).1 x hnew⟩
      rw [if_pos (by rw [← hlease])]
    · have hmem : x ∈ h.table.leases := by
        rw [hleases]
        simp only [mem_append, mem_cons] at hother ⊢
        tauto
      obtain ⟨g, hg, hheld, rfl⟩ := hk.granted x hmem
      refine ⟨g, mem_map.mpr ⟨g, hg, ?_⟩, hheld, rfl⟩
      rw [if_neg (hk.token_ne hleases hother)]
  present g' hg' hlive := by
    obtain ⟨g, hg, rfl⟩ := mem_map.mp hg'
    simp only [mem_append, Option.mem_toList]
    split at hlive
    · next hsame =>
      -- The grant of the lease that is changed is the only one with its token.
      obtain ⟨g', hg', hheld, hlease⟩ := hk.granted lease (by simp [hleases])
      obtain rfl := hk.grant_eq hg hg' (by rw [hsame, ← hlease])
      rw [if_pos hsame]
      exact .inr (.inl ((hf g hg hheld hlease).2 hlive))
    · next hother =>
      rw [if_neg hother]
      have hmem := hk.present g hg hlive
      rw [hleases] at hmem
      simp only [mem_append, mem_cons] at hmem
      rcases hmem with hmem | hmem | hmem
      · exact .inl hmem
      · exact absurd (by rw [hmem]) hother
      · exact .inr (.inr hmem)
  numbered := by
    rw [map_map, ← hk.numbered]
    refine map_congr_left fun g _ => ?_
    simp only [Function.comp]
    split
    · exact htoken g
    · rfl

/-- One step, from the cases of a call. -/
theorem step (c : TimedCall) : (h.step c).Kept := by
  obtain ⟨elapsed, call⟩ := c
  have heffect := h.table.effect_call (h.now + elapsed) call
  have hnow := (hk.later elapsed).expire
  have hwf := hk.wellFormed.call (h.now + elapsed) call
  unfold LeaseLog.step result
  -- one case for each thing a call can do
  generalize h.table.call (h.now + elapsed) call = r at heffect hwf ⊢
  cases heffect with
  | rejected =>
    rw [observe_refused]
    exact hk.later elapsed
  | refused =>
    rw [observe_refused]
    exact hnow
  | granted => exact hnow
  | acquired _ _ _ _ lease hport howner htoken =>
    subst hport howner
    exact hnow.acquire htoken hwf
  | renewed _ before after lease expiresMs hleases =>
    -- the grant behind the token gets the new time
    refine hnow.alter hleases (r := some _) (fun g => { g with expiresMs }) (fun _ => rfl) ?_ hwf
    rintro g - hheld rfl
    refine ⟨?_, fun _ => rfl⟩
    rintro x ⟨⟩
    exact ⟨hheld, rfl⟩
  | released before after lease hleases =>
    refine hnow.alter hleases (r := none) (fun g => { g with released := true }) (fun _ => rfl) ?_ hwf
    intro g _ _ _
    exact ⟨nofun, nofun⟩

/-- The table agrees with the live grants, one for a port, under tokens of their own. -/
theorem sound : h.Sound where
  agrees lease := by
    rw [LeaseTable.unexpired, mem_filter]
    constructor
    · rintro ⟨hmem, hlater⟩
      obtain ⟨g, hg, hheld, rfl⟩ := hk.granted lease hmem
      exact ⟨g, hg, live_iff.mpr ⟨hheld, of_decide_eq_true hlater⟩, rfl⟩
    · rintro ⟨g, hg, hlive, rfl⟩
      exact ⟨hk.present g hg hlive, decide_eq_true (live_iff.mp hlive).2⟩
  onePerPort := hk.wellFormed.ports.sublist (filter_sublist.map _)
  exclusive g hg g' hg' hlive hlive' hport := by
    have hlease := hk.wellFormed.lease_eq (hk.present g hg hlive) (hk.present g' hg' hlive') hport
    exact hk.grant_eq hg hg' (by rw [hlease])
  tokens := hk.tokens_nodup

/-- No lease of the table has the token of a lease that has ended. -/
theorem token_ne_of_ended {token : Text} (hended : h.Ended h.now token) {l : Lease}
    (hlease : l ∈ h.table.unexpired h.now) : l.token ≠ token := by
  obtain ⟨g, hg, rfl, hover⟩ := hended
  obtain ⟨g', hg', hlive, rfl⟩ := (hk.sound.agrees l).mp hlease
  intro htoken
  rw [hk.grant_eq hg' hg htoken, hover] at hlive
  cases hlive

/-- A token that has ended is refused, and nothing changes by it. -/
theorem ended (c : TimedCall) {token : Text} (htoken : c.2.token? = some token)
    (hended : h.Ended (h.now + c.1) token) :
    (∃ rc, (h.result c).2 = .refused rc) ∧
      (h.result c).1.unexpired (h.now + c.1) = h.table.unexpired (h.now + c.1) := by
  obtain ⟨elapsed, call⟩ := c
  have heffect := h.table.effect_call (h.now + elapsed) call
  unfold result
  generalize h.table.call (h.now + elapsed) call = r at heffect ⊢
  cases heffect with
  | rejected => exact ⟨⟨_, rfl⟩, rfl⟩
  | refused => exact ⟨⟨_, rfl⟩, h.table.unexpired_expireLeases _⟩
  | granted => cases htoken
  | acquired => cases htoken
  -- a lease that is still there has another token
  | renewed _ before after lease _ hleases =>
    cases htoken
    exact absurd rfl ((hk.later elapsed).token_ne_of_ended hended (l := lease) (by simp [hleases]))
  | released before after lease hleases =>
    cases htoken
    exact absurd rfl ((hk.later elapsed).token_ne_of_ended hended (l := lease) (by simp [hleases]))

/-- A command is let through exactly if all live grants for its port are those of its owner. -/
theorem authorized (c : TimedCall) {port : Text} {owner : Option Text}
    (hcall : c.2 = .authorize port owner) :
    (h.result c).2 = .granted ↔
      ∀ g ∈ h.grants, g.live (h.now + c.1) = true → g.port = port → owner = some g.owner := by
  obtain ⟨elapsed, call⟩ := c
  subst hcall
  have hsound := (hk.later elapsed).sound
  show (h.table.authorize (h.now + elapsed) port owner).2 = .granted ↔ _
  unfold LeaseTable.authorize
  dsimp only
  split
  · next lease hfound =>
    -- The lease that is found is the one of the port.
    obtain ⟨g, hg, hlive, rfl⟩ := (hsound.agrees lease).mp (mem_of_find?_eq_some hfound)
    have hport : g.port = port := by simpa using find?_some hfound
    have hany : (∀ g' ∈ h.grants, g'.live (h.now + elapsed) = true → g'.port = port →
        owner = some g'.owner) ↔ owner = some g.owner := by
      refine ⟨fun hall => hall g hg hlive hport, fun howner g' hg' hlive' hport' => ?_⟩
      rwa [hsound.exclusive g' hg' g hg hlive' hlive (hport'.trans hport.symm)]
    rw [hany]
    split
    · next howner => exact iff_of_true rfl howner
    · next howner => exact iff_of_false nofun howner
  · next hfree =>
    refine iff_of_true rfl fun g hg hlive hport => ?_
    have hmem := (hsound.agrees g.toLease).mpr ⟨g, hg, hlive, rfl⟩
    exact absurd (decide_eq_true hport) (find?_eq_none.mp hfree g.toLease hmem)

end Kept

/-- In every sequence of calls the table holds exactly the leases that have not ended, with at most
one for a port and no token given out twice; tokens of leases that have ended have no effect, and a
port is granted exactly when it has no lease or to its owner. -/
theorem leases_sound (daemonEpoch : ℕ) (calls : List TimedCall) :
    Throughout step Sound (initial daemonEpoch) calls ∧
      Along step Respects (initial daemonEpoch) calls := by
  have hkept : Throughout step Kept (initial daemonEpoch) calls :=
    throughout_of_step (kept_initial daemonEpoch) fun h c _ hk => hk.step c
  refine ⟨hkept.imp fun h hk => hk.sound, hkept.along fun h c hk => ⟨?_, ?_⟩⟩
  · intro token
    exact hk.ended c
  · intro port owner
    exact hk.authorized c

end LeaseLog

end QModem.At
