import QModem.Lib.Run
import QModem.Uplink.Config

/-!
# The Lease on the Firewall Options

`up_firewall_acquire` and `up_firewall_restore` of `settings.sh`.  While the manager runs, three
options of the firewall are `0`; what they were is kept in `firewall.json`, and a restore gives it
back.

A round is cut into its statements.  Each of them may be the last one before a crash, and each `uci`
or firewall command may fail, in which case it changes and prints nothing.  What `uci` has staged
counts as the value of an option, so a commit changes nothing that is modelled here; it matters
because a restore that cannot commit keeps its records.

The user changes options between the rounds, which hold the lock.  Values are texts without a line
end at their end, and the name of the section does not change.

## Main results

- `restore_keeps_edited`: a restore does not touch an option that is not `0`
- `leased_run`: along every run, each option is what the user gave it or its record says so
- `firewallLease_iff`: what a restore that completes leaves
-/

namespace QModem.Uplink

open Lib

/-! ## Options and records -/

inductive FirewallOption where
  | flowOffloading
  | flowOffloadingHw
  | fullcone
  deriving DecidableEq, Repr

/-- The options in the order of the loops; `jq` sorts the keys in the same way. -/
def leasedOptions : List FirewallOption := [.flowOffloading, .flowOffloadingHw, .fullcone]

/-- The options, and the file with their records, if there is one.  A record is `none` for `null`.
-/
structure Firewall where
  options : FirewallOption → Option Text
  records : Option (FirewallOption → Option (Option Text))

namespace Firewall

/-- The record of an option, if the file has one. -/
def recordOf (m : Firewall) (o : FirewallOption) : Option (Option Text) := m.records.bind (· o)

/-- `uci set` and `uci delete` -/
def put (m : Firewall) (o : FirewallOption) (value : Option Text) : Firewall :=
  { m with options := fun x => if x = o then value else m.options x }

def note (m : Firewall) (o : FirewallOption) (value : Option Text) : Firewall :=
  { m with records := some fun x => if x = o then some value else m.recordOf x }

end Firewall

open Firewall

/-! ## Rounds -/

/-- How a statement ends. -/
inductive Outcome where
  | works
  | fails
  /-- The manager is gone before the statement. -/
  | crash
  deriving DecidableEq, Repr

def zeroText : Text := ascii "0"
def absentText : Text := ascii "__absent__"

/-- The statements of `up_firewall_acquire` from the loop on.  Writing the records does not fail. -/
structure AcquireScript where
  get : FirewallOption → Outcome
  save : FirewallOption → Outcome
  set : FirewallOption → Outcome
  commit : Outcome
  reload : Outcome

/-- `value=$(uci -q get "$key" || echo __absent__)` -/
def readOption (get : Outcome) (m : Firewall) (o : FirewallOption) : Text :=
  if get = .works then (m.options o).getD absentText else absentText

/-- The record that a round leaves for an option: an old one stays when the option is `0`. -/
def leaseRecord (m : Firewall) (o : FirewallOption) (value : Text) : Firewall :=
  if (m.recordOf o).isNone || value ≠ zeroText then
    m.note o (if value = absentText then none else some value)
  else m

/-- The loop of `up_firewall_acquire`, and whether the function returns zero. -/
def acquireFrom (s : AcquireScript) : List FirewallOption → Bool → Firewall → Firewall × Bool
  | [], changed, m => (m, !changed || s.commit = .works && s.reload = .works)
  | o :: rest, changed, m =>
    if s.get o = .crash then (m, false)
    else
      let value := readOption (s.get o) m o
      if s.save o = .crash then (m, false)
      else
        let m := leaseRecord m o value
        if value = zeroText then acquireFrom s rest changed m
        else if s.set o = .works then acquireFrom s rest true (m.put o (some zeroText))
        else (m, false)

/-- `up_firewall_acquire`; `starts` says whether the checks in front of the loop let it through. -/
def upFirewallAcquire (starts : Bool) (s : AcquireScript) (m : Firewall) : Firewall × Bool :=
  if starts then acquireFrom s leasedOptions false m else (m, false)

/-- The statements of `up_firewall_restore`; `change` is the `uci set` or `uci delete`. -/
structure RestoreScript where
  get : FirewallOption → Outcome
  change : FirewallOption → Outcome
  commit : Outcome
  reload : Outcome
  remove : Outcome

/-- The loop of `up_firewall_restore` and what follows it, and whether it completes. -/
def restoreFrom (s : RestoreScript) : List FirewallOption → Bool → Firewall → Firewall × Bool
  | [], changed, m =>
    if changed && (s.commit ≠ .works || s.reload ≠ .works) then (m, false)
    else if s.remove = .crash then (m, false)
    else ({ m with records := none }, true)
  | o :: rest, changed, m =>
    match m.recordOf o with
    | none => restoreFrom s rest changed m
    | some record =>
      if s.get o = .crash then (m, false)
      else if s.get o = .fails || m.options o ≠ some zeroText then restoreFrom s rest changed m
      else if s.change o = .crash then (m, false)
      else match record with
        -- a failed delete is ignored
        | none => restoreFrom s rest true (if s.change o = .works then m.put o none else m)
        | some value =>
          if s.change o = .works then restoreFrom s rest true (m.put o (some value)) else (m, false)

/-- `up_firewall_restore`: without a file there is nothing to do. -/
def upFirewallRestore (s : RestoreScript) (m : Firewall) : Firewall × Bool :=
  if m.records.isNone then (m, true) else restoreFrom s leasedOptions false m

/-! ## Runs -/

/-- What happens to the options. -/
inductive LeaseEvent where
  | acquire (starts : Bool) (s : AcquireScript)
  | restore (s : RestoreScript)
  /-- The user sets an option or deletes it. -/
  | edit (o : FirewallOption) (value : Option Text) (nonzero : value ≠ some zeroText)

/-- The firewall, and the value the user last gave each option. -/
structure Lease where
  firewall : Firewall
  user : FirewallOption → Option Text

/-- The options as the user has them before the manager first runs. -/
def Lease.start (options : FirewallOption → Option Text) : Lease := ⟨⟨options, none⟩, options⟩

def Lease.step (l : Lease) : LeaseEvent → Lease
  | .acquire starts s => { l with firewall := (upFirewallAcquire starts s l.firewall).1 }
  | .restore s => { l with firewall := (upFirewallRestore s l.firewall).1 }
  | .edit o value _ =>
    { firewall := l.firewall.put o value, user := fun x => if x = o then value else l.user x }

/-! ## Frame -/

namespace Firewall

variable (m : Firewall) (o x : FirewallOption) (value : Option Text)

@[simp] theorem put_self : (m.put o value).options o = value := by
  simp [put]

@[simp] theorem put_other {o x : FirewallOption} (h : x ≠ o) (value : Option Text) :
    (m.put o value).options x = m.options x := by
  simp [put, h]

@[simp] theorem put_options : m.put o (m.options o) = m := by
  have hsame : (fun x => if x = o then m.options o else m.options x) = m.options := by
    funext x
    by_cases h : x = o <;> simp [h]
  unfold put
  rw [hsame]

@[simp] theorem recordOf_put :
    (m.put o value).recordOf x = m.recordOf x := rfl

@[simp] theorem recordOf_note :
    (m.note o value).recordOf x = if x = o then some value else m.recordOf x := rfl

end Firewall

@[simp] theorem options_leaseRecord (m : Firewall) (o : FirewallOption) (value : Text) :
    (leaseRecord m o value).options = m.options := by
  unfold leaseRecord
  split <;> rfl

theorem recordOf_leaseRecord_other (m : Firewall) {o x : FirewallOption} (h : x ≠ o)
    (value : Text) :
    (leaseRecord m o value).recordOf x = m.recordOf x := by
  unfold leaseRecord
  split
  · simp [h]
  · rfl

/-! ## The invariant -/

/-- What can be said of an option at every statement: it is what the user gave it, or it is `0` and
its record is what the user gave it.  An option that the user has at `0` has no other record. -/
structure Recoverable (m : Firewall) (user : FirewallOption → Option Text) (o : FirewallOption) :
    Prop where
  value : m.options o = user o ∨ m.options o = some zeroText ∧ m.recordOf o = some (user o)
  zero : user o = some zeroText → m.recordOf o = none ∨ m.recordOf o = some (some zeroText)

section

variable {m m' : Firewall} {user : FirewallOption → Option Text} {o : FirewallOption}

section

variable (h : Recoverable m user o)

include h

/-- Only the option and its record matter. -/
theorem Recoverable.congr (hoption : m'.options o = m.options o)
    (hrecord : m'.recordOf o = m.recordOf o) : Recoverable m' user o := by
  constructor
  · rw [hoption, hrecord]
    exact h.value
  · rw [hrecord]
    exact h.zero

/-- An option that is not `0` is the user's. -/
theorem Recoverable.eq_of_ne (hne : m.options o ≠ some zeroText) : m.options o = user o := by
  rcases h.value with hvalue | hleased
  · exact hvalue
  · exact absurd hleased.1 hne

/-- An option without a record is the user's. -/
theorem Recoverable.eq_of_no_record (hrecord : m.recordOf o = none) : m.options o = user o := by
  rcases h.value with hvalue | hleased
  · exact hvalue
  · rw [hrecord] at hleased
    exact absurd hleased.2 (by simp)

/-- The record of an option that is `0` is the user's value. -/
theorem Recoverable.record_eq (hzero : m.options o = some zeroText) {record : Option Text}
    (hrecord : m.recordOf o = some record) : record = user o := by
  rcases h.value with hvalue | hleased
  · -- the user has the option at `0`, and so does the record
    have huser : user o = some zeroText := hvalue.symm.trans hzero
    rcases h.zero huser with hnone | hsome
    · rw [hnone] at hrecord
      contradiction
    · rw [hsome, Option.some_inj] at hrecord
      rw [huser, hrecord]
  · rw [hleased.2, Option.some_inj] at hrecord
    exact hrecord.symm

end

theorem Recoverable.of_eq (h : m.options o = user o) (hne : user o ≠ some zeroText) :
    Recoverable m user o := ⟨.inl h, fun hzero => absurd hzero hne⟩

end

/-! ## Acquiring -/

/-- What a round has to find for each option: the command that reads it fails only on one that is
not there, and its value is not the word that stands for a missing one. -/
def Legible (s : AcquireScript) (m : Firewall) (o : FirewallOption) : Prop :=
  (s.get o = .fails → m.options o = none) ∧ m.options o ≠ some absentText

section

variable {s : AcquireScript} {m : Firewall} {user : FirewallOption → Option Text}
  {o : FirewallOption}

/-- A legible option is read as it is. -/
theorem readOption_eq (hlegible : Legible s m o) (hget : s.get o ≠ .crash) :
    (if readOption (s.get o) m o = absentText then none else some (readOption (s.get o) m o)) =
      m.options o := by
  unfold readOption
  cases hoption : m.options o with
  | none => simp
  | some value =>
    -- the command cannot have failed
    have hworks : s.get o = .works := by
      cases houtcome : s.get o with
      | works => rfl
      | fails => simp [hlegible.1 houtcome] at hoption
      | crash => exact absurd houtcome hget
    have hvalue : value ≠ absentText := fun h => hlegible.2 (by rw [hoption, h])
    simp [hworks, hvalue]

/-- An option is read as `0` only if it is `0`. -/
theorem readOption_eq_zero (hlegible : Legible s m o) (hget : s.get o ≠ .crash) :
    readOption (s.get o) m o = zeroText ↔ m.options o = some zeroText := by
  have hne : zeroText ≠ absentText := by decide
  rw [← readOption_eq hlegible hget]
  constructor
  · intro h
    rw [h, if_neg hne]
  · intro h
    split at h
    · contradiction
    · exact Option.some_inj.mp h

/-- The record is written before the option changes. -/
theorem recordOf_leaseRecord (hlegible : Legible s m o) (hget : s.get o ≠ .crash)
    (hne : m.options o ≠ some zeroText) :
    (leaseRecord m o (readOption (s.get o) m o)).recordOf o = some (m.options o) := by
  have hvalue : readOption (s.get o) m o ≠ zeroText :=
    fun h => hne ((readOption_eq_zero hlegible hget).mp h)
  unfold leaseRecord
  rw [if_pos (by simp [hvalue]), recordOf_note, if_pos rfl, readOption_eq hlegible hget]

/-- The record is written before the option, so it can be recovered at every point. -/
theorem Recoverable.leaseRecord (h : Recoverable m user o) (hlegible : Legible s m o)
    (hget : s.get o ≠ .crash) :
    Recoverable (leaseRecord m o (readOption (s.get o) m o)) user o := by
  by_cases hzero : m.options o = some zeroText
  · -- an old record stays; a new one is `0`, and then the user has the option there
    have hvalue := (readOption_eq_zero hlegible hget).mpr hzero
    cases hrecord : m.recordOf o with
    | none =>
      have hne : zeroText ≠ absentText := by decide
      have hnew : (Uplink.leaseRecord m o zeroText).recordOf o = some (some zeroText) := by
        unfold Uplink.leaseRecord
        rw [if_pos (by simp [hrecord]), recordOf_note, if_pos rfl, if_neg hne]
      rw [hvalue]
      refine ⟨.inl ?_, fun _ => .inr hnew⟩
      rw [options_leaseRecord]
      exact h.eq_of_no_record hrecord
    | some record =>
      have hsame : Uplink.leaseRecord m o (readOption (s.get o) m o) = m := by
        unfold Uplink.leaseRecord
        exact if_neg (by simp [hvalue, hrecord])
      rw [hsame]
      exact h
  · have huser := h.eq_of_ne hzero
    exact .of_eq (by simpa using huser) (huser ▸ hzero)

/-- The option is set to `0` after its record is there. -/
theorem Recoverable.leased (h : Recoverable m user o) (hlegible : Legible s m o)
    (hget : s.get o ≠ .crash) (hne : m.options o ≠ some zeroText) :
    Recoverable ((Uplink.leaseRecord m o (readOption (s.get o) m o)).put o (some zeroText)) user
      o := by
  have huser := h.eq_of_ne hne
  constructor
  · right
    rw [put_self, recordOf_put, recordOf_leaseRecord hlegible hget hne, huser]
    exact ⟨rfl, rfl⟩
  · intro hzero
    exact absurd (huser.trans hzero) hne

/-- **Step**: every statement of a round keeps every option recoverable. -/
theorem acquireFrom_recoverable {os : List FirewallOption} (hnodup : os.Nodup) (changed : Bool)
    (hlegible : ∀ o ∈ os, Legible s m o) (h : ∀ o, Recoverable m user o) (x : FirewallOption) :
    Recoverable (acquireFrom s os changed m).1 user x := by
  induction os generalizing m changed with
  | nil => exact h x
  | cons o rest ih =>
    obtain ⟨hnotMem, hnodup⟩ := List.nodup_cons.mp hnodup
    have hlegibleO := hlegible o List.mem_cons_self
    -- what the rest of the loop meets is not what this turn changes
    have hrest {m' : Firewall} (hsame : ∀ y, y ≠ o → m'.options y = m.options y) :
        ∀ y ∈ rest, Legible s m' y := by
      intro y hy
      have hne : y ≠ o := fun heq => hnotMem (heq ▸ hy)
      unfold Legible
      rw [hsame y hne]
      exact hlegible y (List.mem_cons_of_mem o hy)
    unfold acquireFrom
    split
    · exact h x
    next hget =>
    dsimp only
    split
    · exact h x
    have hrecorded (y : FirewallOption) :
        Recoverable (leaseRecord m o (readOption (s.get o) m o)) user y := by
      by_cases hy : y = o
      · rw [hy]
        exact (h o).leaseRecord hlegibleO hget
      · exact (h y).congr (by simp) (recordOf_leaseRecord_other m hy _)
    split
    · exact ih hnodup _ (hrest fun y _ => by simp) hrecorded
    next hvalue =>
    split
    · apply ih hnodup
      · apply hrest
        intro y hy
        simp [hy]
      · intro y
        by_cases hy : y = o
        · rw [hy]
          have hne := mt (readOption_eq_zero hlegibleO hget).mpr hvalue
          exact (h o).leased hlegibleO hget hne
        · exact (hrecorded y).congr (by simp [hy]) rfl
    · exact hrecorded x

end

/-! ## Restoring -/

/-- The value that a restore which completes leaves an option at. -/
def restored (s : RestoreScript) (m : Firewall) (o : FirewallOption) : Option Text :=
  match m.recordOf o with
  | none => m.options o
  | some record =>
    if s.get o = .works ∧ m.options o = some zeroText then
      if record = none ∧ s.change o ≠ .works then m.options o else record
    else m.options o

section

variable {s : RestoreScript} {m : Firewall} {user : FirewallOption → Option Text}
  {o : FirewallOption}

theorem restored_of_ne (hne : m.options o ≠ some zeroText) : restored s m o = m.options o := by
  unfold restored
  split
  · rfl
  · rw [if_neg fun h => hne h.2]

theorem restored_congr {m' : Firewall} (hoption : m'.options o = m.options o)
    (hrecord : m'.recordOf o = m.recordOf o) : restored s m' o = restored s m o := by
  unfold restored
  rw [hoption, hrecord]

/-- The commands that a restore must not lose for an option that is leased from a value other than
`0`: the one that reads it, and the one that deletes it when it was not there. -/
def GivesBack (s : RestoreScript) (m : Firewall) (o : FirewallOption) : Prop :=
  ∀ record, m.recordOf o = some record → m.options o = some zeroText → record ≠ some zeroText →
    s.get o = .works ∧ (record = none → s.change o = .works)

/-- The value of a recoverable option is given back exactly if none of these commands is lost. -/
theorem restored_eq_user_iff (h : Recoverable m user o) :
    restored s m o = user o ↔ GivesBack s m o := by
  by_cases hzero : m.options o = some zeroText
  swap
  · rw [restored_of_ne hzero]
    exact iff_of_true (h.eq_of_ne hzero) fun _ _ hzero' => absurd hzero' hzero
  cases hrecord : m.recordOf o with
  | none =>
    simp [restored, GivesBack, hrecord, h.eq_of_no_record hrecord]
  | some record =>
    rw [← h.record_eq hzero hrecord]
    simp only [restored, GivesBack, hrecord, hzero, and_true, Option.some_inj, forall_eq',
      forall_const]
    -- a value that was `0` before needs no command
    by_cases hsame : record = some zeroText
    · simp [hsame]
    · have hsame' : some zeroText ≠ record := fun heq => hsame heq.symm
      by_cases hget : s.get o = .works
      · by_cases hlost : record = none ∧ s.change o ≠ .works
        · simp [hget, hlost]
        · simp only [hget, if_true, if_neg hlost, hsame, ne_eq, not_false_eq_true, true_and,
            forall_const, true_iff]
          intro hnone
          by_contra hchange
          exact hlost ⟨hnone, hchange⟩
      · simp [hget, hsame, hsame']

variable (s m)

/-- A restore leaves an option alone, or it was `0` and gets its record. -/
theorem restored_cases (o : FirewallOption) :
    restored s m o = m.options o ∨
      m.options o = some zeroText ∧ m.recordOf o = some (restored s m o) := by
  unfold restored
  cases m.recordOf o with
  | none => exact .inl rfl
  | some record =>
    dsimp only
    split
    next hgot =>
      split
      · exact .inl rfl
      · exact .inr ⟨hgot.2, rfl⟩
    · exact .inl rfl

/-- One turn of the loop: the restore ends here, or the option has its value and the loop goes on.
-/
theorem restoreFrom_cons (o : FirewallOption) (rest : List FirewallOption) (changed : Bool)
    (m : Firewall) :
    restoreFrom s (o :: rest) changed m = (m, false) ∨
      ∃ changed', restoreFrom s (o :: rest) changed m =
        restoreFrom s rest changed' (m.put o (restored s m o)) := by
  rw [restoreFrom]
  cases hrecord : m.recordOf o with
  | none =>
    right
    exact ⟨changed, by simp [restored, hrecord]⟩
  | some record =>
    dsimp only
    split
    · exact .inl rfl
    next hcrash =>
    split
    next hskip =>
      -- the option is not `0`, or nobody could tell
      right
      have hsame : restored s m o = m.options o := by
        have hnot : ¬(s.get o = .works ∧ m.options o = some zeroText) := by
          rintro ⟨hget, hzero⟩
          simp [hget, hzero] at hskip
        simp only [restored, hrecord]
        exact if_neg hnot
      exact ⟨changed, by rw [hsame, put_options]⟩
    next hread =>
    have hgot : s.get o = .works ∧ m.options o = some zeroText := by
      cases hget : s.get o <;> simp_all
    split
    · exact .inl rfl
    cases record with
    | none =>
      right
      refine ⟨true, ?_⟩
      by_cases hchange : s.change o = .works
      · simp [restored, hrecord, hgot, hchange]
      · simp [restored, hrecord, hgot, hchange]
        rw [← hgot.2, put_options]
    | some value =>
      dsimp only
      split
      · exact .inr ⟨true, by simp [restored, hrecord, hgot]⟩
      · exact .inl rfl

/-- What the end of the loop does. -/
theorem restoreFrom_nil (changed : Bool) (m : Firewall) :
    restoreFrom s [] changed m = (m, false) ∨
      restoreFrom s [] changed m = ({ m with records := none }, true) := by
  unfold restoreFrom
  split
  · exact .inl rfl
  · split
    · exact .inl rfl
    · exact .inr rfl

variable {s m}

/-- A turn leaves every option recoverable. -/
theorem Recoverable.put_restored {x : FirewallOption} (hx : Recoverable m user x)
    (h : Recoverable m user o) : Recoverable (m.put o (restored s m o)) user x := by
  rcases restored_cases s m o with hsame | ⟨hzero, hrecord⟩
  · rw [hsame, put_options]
    exact hx
  · by_cases heq : x = o
    · rw [heq]
      refine ⟨.inl ?_, h.zero⟩
      rw [put_self]
      exact h.record_eq hzero hrecord
    · exact hx.congr (by simp [heq]) rfl

/-- A restore that completes leaves each option at its value and no records. -/
theorem restoreFrom_complete {os : List FirewallOption} (hnodup : os.Nodup) {changed : Bool}
    (hcomplete : (restoreFrom s os changed m).2 = true) :
    (restoreFrom s os changed m).1.records = none ∧
      ∀ x, (restoreFrom s os changed m).1.options x =
        if x ∈ os then restored s m x else m.options x := by
  induction os generalizing m changed with
  | nil =>
    rcases restoreFrom_nil s changed m with hstop | hend
    · rw [hstop] at hcomplete
      contradiction
    · rw [hend]
      exact ⟨rfl, fun x => by simp⟩
  | cons o rest ih =>
    obtain ⟨hnotMem, hnodup⟩ := List.nodup_cons.mp hnodup
    rcases restoreFrom_cons s o rest changed m with hstop | ⟨changed', hgo⟩
    · rw [hstop] at hcomplete
      contradiction
    · rw [hgo] at hcomplete ⊢
      obtain ⟨hnone, hoptions⟩ := ih hnodup hcomplete
      refine ⟨hnone, fun x => ?_⟩
      rw [hoptions x]
      by_cases hx : x = o
      · simp [hx, hnotMem]
      · -- the value of another option does not depend on this one
        have hother : restored s (m.put o (restored s m o)) x = restored s m x :=
          restored_congr (by simp [hx]) rfl
        simp [hx, hother]

/-- A restore that stops, wherever that is, leaves every option recoverable. -/
theorem restoreFrom_recoverable {os : List FirewallOption} {changed : Bool}
    (h : ∀ o, Recoverable m user o) (hstopped : (restoreFrom s os changed m).2 = false)
    (x : FirewallOption) : Recoverable (restoreFrom s os changed m).1 user x := by
  induction os generalizing m changed with
  | nil =>
    rcases restoreFrom_nil s changed m with hstop | hend
    · rw [hstop]
      exact h x
    · rw [hend] at hstopped
      contradiction
  | cons o rest ih =>
    -- the run stops at this option, or goes on to the next one
    rcases restoreFrom_cons s o rest changed m with hstop | ⟨changed', hgo⟩
    · rw [hstop]
      exact h x
    · rw [hgo] at hstopped ⊢
      exact ih (fun y => (h y).put_restored (h o)) hstopped

/-- A restore does not touch an option that is not `0`. -/
theorem restore_keeps_edited (s : RestoreScript) (m : Firewall)
    (hne : m.options o ≠ some zeroText) : (upFirewallRestore s m).1.options o = m.options o := by
  have hloop (os : List FirewallOption) (changed : Bool) (m : Firewall)
      (hne : m.options o ≠ some zeroText) :
      (restoreFrom s os changed m).1.options o = m.options o := by
    induction os generalizing m changed with
    | nil =>
      rcases restoreFrom_nil s changed m with hstop | hend
      · rw [hstop]
      · rw [hend]
    | cons x rest ih =>
      rcases restoreFrom_cons s x rest changed m with hstop | ⟨changed', hgo⟩
      · rw [hstop]
      · -- the turn of the option itself puts back what it finds
        have hsame : (m.put x (restored s m x)).options o = m.options o := by
          by_cases hx : o = x
          · rw [← hx, put_self, restored_of_ne hne]
          · rw [put_other m hx]
        rw [hgo, ih changed' _ (hsame ▸ hne), hsame]
  unfold upFirewallRestore
  split
  · rfl
  · exact hloop leasedOptions false m hne

end

/-! ## Runs that give everything back -/

theorem nodup_leasedOptions : leasedOptions.Nodup := by decide

theorem mem_leasedOptions (o : FirewallOption) : o ∈ leasedOptions := by
  cases o <;> decide

/-- The events that lose nothing: a round reads each option as it is, and a restore that completes
does not miss a command it needs. -/
def Heedful (l : Lease) : LeaseEvent → Prop
  | .acquire _ s => ∀ o, Legible s l.firewall o
  | .restore s => (upFirewallRestore s l.firewall).2 = true → ∀ o, GivesBack s l.firewall o
  | .edit _ _ _ => True

/-- A restore that completes leaves no records, and each option at its value. -/
theorem upFirewallRestore_complete {s : RestoreScript} {m : Firewall}
    (hcomplete : (upFirewallRestore s m).2 = true) :
    (upFirewallRestore s m).1.records = none ∧
      ∀ o, (upFirewallRestore s m).1.options o = restored s m o := by
  unfold upFirewallRestore at hcomplete ⊢
  split
  next hnone =>
    have hrecords : m.records = none := Option.isNone_iff_eq_none.mp hnone
    exact ⟨hrecords, fun o => by simp [restored, recordOf, hrecords]⟩
  next hsome =>
    rw [if_neg hsome] at hcomplete
    obtain ⟨hnone, hoptions⟩ := restoreFrom_complete nodup_leasedOptions hcomplete
    exact ⟨hnone, fun o => by rw [hoptions o, if_pos (mem_leasedOptions o)]⟩

/-- **Step**: an event that loses nothing leaves every option recoverable. -/
theorem recoverable_step {l : Lease} {e : LeaseEvent} (hheedful : Heedful l e)
    (h : ∀ o, Recoverable l.firewall l.user o) (o : FirewallOption) :
    Recoverable (l.step e).firewall (l.step e).user o := by
  cases e with
  | acquire starts s =>
    change Recoverable (upFirewallAcquire starts s l.firewall).1 l.user o
    unfold upFirewallAcquire
    split
    · exact acquireFrom_recoverable nodup_leasedOptions false (fun o _ => hheedful o) h o
    · exact h o
  | restore s =>
    change Recoverable (upFirewallRestore s l.firewall).1 l.user o
    cases hcomplete : (upFirewallRestore s l.firewall).2 with
    | true =>
      -- the options are the user's, and there are no records any more
      obtain ⟨hnone, hoptions⟩ := upFirewallRestore_complete hcomplete
      constructor
      · left
        rw [hoptions o]
        exact (restored_eq_user_iff (h o)).mpr (hheedful hcomplete o)
      · intro _
        left
        simp [recordOf, hnone]
    | false =>
      unfold upFirewallRestore at hcomplete ⊢
      split
      · exact h o
      next hsome =>
        rw [if_neg hsome] at hcomplete
        exact restoreFrom_recoverable h hcomplete o
  | edit x value nonzero =>
    by_cases hx : o = x
    · rw [hx]
      exact .of_eq (by simp [Lease.step]) (by simpa [Lease.step] using nonzero)
    · have hfirewall : Recoverable (l.firewall.put x value) l.user o :=
        (h o).congr (by simp [hx]) rfl
      constructor
      · simpa [Lease.step, hx] using hfirewall.value
      · simpa [Lease.step, hx] using hfirewall.zero

/-- **Run**: along every run whose events lose nothing, each option is recoverable. -/
theorem leased_run {options : FirewallOption → Option Text} {events : List LeaseEvent}
    (hheedful : Along Lease.step Heedful (Lease.start options) events) (o : FirewallOption) :
    Recoverable (run Lease.step (Lease.start options) events).firewall
      (run Lease.step (Lease.start options) events).user o := by
  apply run_invariant (p := fun l => ∀ o, Recoverable l.firewall l.user o) _ _ hheedful
  · intro o
    exact ⟨.inl rfl, fun _ => .inl rfl⟩
  · exact fun l e hheedful h => recoverable_step hheedful h

/-- **The lease**: after a run whose events lost nothing, a restore that completes leaves each
option as the user last gave it exactly if it misses no command it needs.  No restore changes an
option that is not `0`. -/
theorem firewallLease_iff (options : FirewallOption → Option Text) (events : List LeaseEvent)
    (hheedful : Along Lease.step Heedful (Lease.start options) events) (s : RestoreScript) :
    let l := run Lease.step (Lease.start options) events
    ((upFirewallRestore s l.firewall).2 = true →
      ((∀ o, (upFirewallRestore s l.firewall).1.options o = l.user o) ↔
        ∀ o, GivesBack s l.firewall o)) ∧
    ∀ o, l.firewall.options o ≠ some zeroText →
      (upFirewallRestore s l.firewall).1.options o = l.firewall.options o := by
  intro l
  constructor
  · -- after a restore that has come to its end each option stands for itself
    intro hcomplete
    apply forall_congr'
    intro o
    rw [(upFirewallRestore_complete hcomplete).2 o]
    exact restored_eq_user_iff (leased_run hheedful o)
  · exact fun o hne => restore_keeps_edited s l.firewall hne

/-- A round in which every command works. -/
def AcquireScript.smooth : AcquireScript :=
  ⟨fun _ => .works, fun _ => .works, fun _ => .works, .works, .works⟩

/-- A restore in which every command works. -/
def RestoreScript.smooth : RestoreScript :=
  ⟨fun _ => .works, fun _ => .works, .works, .works, .works⟩

/-- One option is given, and the others are not there. -/
def onlyOption (o : FirewallOption) (value : Text) : FirewallOption → Option Text :=
  fun x => if x = o then some value else none

/-- A round crashes in its second turn, and the user sets `fullcone` before the restart; another
option is set while it is leased. -/
theorem firewallLease_crashed :
    let l := run Lease.step (Lease.start (onlyOption .fullcone (ascii "1")))
      [.acquire true { AcquireScript.smooth with
          set := fun o => if o = .flowOffloadingHw then .crash else .works },
        .edit .fullcone (some (ascii "2")) (by decide), .acquire true .smooth,
        .edit .flowOffloading (some (ascii "1")) (by decide)]
    (∀ o, (upFirewallRestore .smooth l.firewall).1.options o = l.user o) ∧
      l.user .fullcone = some (ascii "2") := by
  refine ⟨((firewallLease_iff _ _ ?_ .smooth).1 (by decide)).mpr ?_, by decide⟩
  · -- both acquisitions find every option readable
    refine ⟨?_, trivial, ?_, trivial, trivial⟩
    · intro o
      cases o <;> exact ⟨by decide, by decide⟩
    · intro o
      cases o <;> exact ⟨by decide, by decide⟩
  · intro o record _ _ _
    exact ⟨rfl, fun _ => rfl⟩

/-- Four ways to lose the value of an option: it is the word for a missing one; a command that reads
it fails while it is leased; the restore cannot read it, or cannot delete it, and removes its record
all the same. -/
theorem firewallLease_lost :
    let loses := fun (options : FirewallOption → Option Text) (a : AcquireScript)
        (s : RestoreScript) =>
      let l := run Lease.step (Lease.start options) [.acquire true a]
      (upFirewallRestore s l.firewall).2 = true ∧
        (upFirewallRestore s l.firewall).1.options .fullcone ≠ l.user .fullcone
    loses (onlyOption .fullcone absentText) .smooth .smooth ∧
    loses (onlyOption .fullcone (ascii "1"))
      { AcquireScript.smooth with get := fun _ => .fails } .smooth ∧
    loses (onlyOption .fullcone (ascii "1")) .smooth
      { RestoreScript.smooth with get := fun _ => .fails } ∧
    loses (fun _ => none) .smooth { RestoreScript.smooth with change := fun _ => .fails } := by
  decide

end QModem.Uplink
