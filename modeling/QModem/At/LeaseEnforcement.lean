import QModem.At.Ports

/-!
# Enforcement of Leases

A lease is meant to keep other callers off a port.  `sendat` asks the lease table before it writes,
but `open` and `close` do not, and `sendat` asks for the path it was given while the instance it
then creates has the path cut to its first 63 bytes.

## Main results

- `Daemon.enforced_iff`: leases are respected all along a run exactly if every call that names a
  leased port without its owner finds nothing to do there
- `intruder_not_enforced`: `close` destroys the instance of a leased port
-/

namespace QModem.At

open Lib List

/-! ## What a lease is to prevent -/

/-- The instance a call is about. -/
def Call.target : Call → Option PortPath
  | .open atPort _ => some (.ofText atPort)
  | .sendat atPort _ _ _ _ => some (.ofText atPort)
  | .close atPort => some (.ofText atPort)
  | .lease _ => none

def Device.openable (device : Device) : Bool := device.present && device.opens

namespace Daemon

/-- A call that does not carry the owner of a lease has no effect on the port of the lease. -/
def Enforced (d : Daemon) : Event → Prop
  | .request elapsed r answers => ∀ lease ∈ d.table.unexpired (d.now + elapsed),
    r.owner ≠ some lease.owner →
      ∀ e ∈ (d.outcome (.request elapsed r answers)).effects, e.path.val ≠ lease.port
  | _ => True

/-- There is nothing to do for a call. -/
def Inert (d : Daemon) (answers : Answers) : Call → Prop
  | .open atPort settings =>
    match d.findPortInstance atPort with
    | some port => port.alreadyOpen settings answers.send.device = true ∨
        port.hasFd = false ∧ answers.send.device.openable = false
    | none => answers.present = false ∨ answers.allocated = false
  | .sendat atPort _ _ _ _ => atPort.length < maxPortPathSize ∨ answers.allocated = false ∨
      answers.send.device.openable = false
  | .close atPort => d.findPortInstance atPort = none
  | .lease _ => True

/-- Calls that name a leased port without its owner find nothing to do. -/
def Careful (d : Daemon) : Event → Prop
  | .request elapsed r answers => ∀ lease ∈ d.table.unexpired (d.now + elapsed),
    r.owner ≠ some lease.owner → ∀ c ∈ r.call? answers.allocated, ∀ path ∈ c.target,
      path.val = lease.port → d.Inert answers c
  | _ => True

end Daemon

/-! ## When an instance is left alone -/

theorem Device.not_openable (device : Device) :
    (!device.present || !device.opens) = !device.openable := by
  rw [openable, Bool.not_and]

namespace PortInstance

variable (port : PortInstance)

theorem closeAtPort_effects_eq_nil : port.closeAtPort.effects = [] ↔ port.hasFd = false := by
  unfold closeAtPort
  cases port.hasFd <;> simp

/-- Opening does nothing to a device that is open as it should be, or that cannot be opened. -/
theorem openAtPort_effects_eq_nil (settings : Settings) (device : Device) :
    (port.openAtPort settings device).effects = [] ↔
      port.alreadyOpen settings device = true ∨ port.hasFd = false ∧ device.openable = false := by
  unfold openAtPort
  rw [device.not_openable]
  split
  · next hopen => simp [hopen]
  next hopen =>
  cases hopenable : device.openable with
  -- the old descriptor is closed before the device is tried
  | false => simp [hopen, closeAtPort_effects_eq_nil]
  | true =>
    simp only [Bool.not_true, Bool.false_eq_true, if_false, hopen, false_or, reduceCtorEq, and_false,
      iff_false]
    split
    · simp
    · simp

theorem openable_of_openAtPort {settings : Settings} {device : Device}
    (hok : (port.openAtPort settings device).ok = true) (hopen : port.isOpen = false) :
    device.openable = true := by
  unfold openAtPort at hok
  rw [device.not_openable, alreadyOpen, hopen] at hok
  cases hopenable : device.openable with
  | false => simp [hopenable] at hok
  | true => rfl

/-- A port that is closed is opened for a command. -/
theorem sendCommand_effects_eq_nil (hopen : port.isOpen = false) (hfd : port.hasFd = false)
    (cmd terminator : Text) (isRaw : Bool) (answers : SendAnswers) :
    (port.sendCommand cmd terminator isRaw answers).effects = [] ↔
      answers.device.openable = false := by
  have hopening := port.openAtPort_effects_eq_nil .default answers.device
  rw [alreadyOpen, hopen, hfd] at hopening
  simp only [Bool.false_and, Bool.false_eq_true, false_or, true_and] at hopening
  unfold sendCommand
  simp only [hopen, Bool.false_eq_true, if_false]
  split
  · exact hopening
  split
  · exact hopening
  split
  · exact hopening
  · -- a command that gets as far as writing has opened the device
    next hok _ _ _ _ _ _ =>
    have hopenable := port.openable_of_openAtPort (by simpa using hok) hopen
    simp [hopenable]

end PortInstance

/-! ## Calls and leases -/

theorem PortPath.val_ofText {text : Text} (hfits : text.length < maxPortPathSize) :
    (PortPath.ofText text).val = text :=
  take_of_length_le (Nat.le_pred_of_lt hfits)

namespace LeaseTable.WellFormed

variable {t : LeaseTable} {now : ℕ}

/-- Nobody but its owner gets past a lease. -/
theorem authorize_refused (h : t.WellFormed) {lease : Lease} (hlease : lease ∈ t.unexpired now)
    {owner : Option Text} (howner : owner ≠ some lease.owner) :
    (t.authorize now lease.port owner).2 ≠ .granted := by
  unfold authorize
  dsimp only
  split
  · next found hfound =>
    have hmem := (mem_filter.mp (mem_of_find?_eq_some hfound)).1
    have hport : found.port = lease.port := by simpa using find?_some hfound
    obtain rfl := h.lease_eq hmem (mem_filter.mp hlease).1 hport
    rw [if_neg howner]
    nofun
  · next hnone => exact absurd (decide_eq_true rfl) (find?_eq_none.mp hnone lease hlease)

/-- A path that is too long for a lease has none. -/
theorem authorize_granted (h : t.WellFormed) {port : Text} (hlong : maxPortPathSize ≤ port.length)
    (owner : Option Text) : (t.authorize now port owner).2 = .granted := by
  unfold authorize
  dsimp only
  split
  · next found hfound =>
    have hmem := (mem_filter.mp (mem_of_find?_eq_some hfound)).1
    have hport : found.port = port := by simpa using find?_some hfound
    exact absurd (hport ▸ h.fits found hmem) (Nat.not_lt.mpr hlong)
  · rfl

end LeaseTable.WellFormed

namespace Daemon

variable {d : Daemon}

variable {atPort : Text} {port : PortInstance}

theorem path_of_findPortInstance (hfound : d.findPortInstance atPort = some port) :
    port.path = .ofText atPort := by
  have hpath : port.path.val = atPort := by simpa using find?_some hfound
  refine Subtype.ext ?_
  rw [← hpath, PortPath.val_ofText port.path.property]

theorem findPortInstance_of_long (hlong : maxPortPathSize ≤ atPort.length) :
    d.findPortInstance atPort = none := by
  refine find?_eq_none.mpr fun port _ hpath => ?_
  have hpath : port.path.val = atPort := by simpa using hpath
  exact absurd (hpath ▸ port.path.property) (Nat.not_lt.mpr hlong)

/-- The effects of a function on an instance are on its path. -/
theorem mem_target_of_advances {port' : PortInstance} {effects : List PortEffect}
    (hadvances : Advances port port' effects) (hpath : port.path = .ofText atPort) :
    ∀ e ∈ effects, e.path ∈ some (PortPath.ofText atPort) := by
  intro e he
  rw [(hadvances.own e he).2, hpath]
  rfl

theorem path_of_mem_sendTo (hpath : port.path = .ofText atPort) (owner : Option Text) (cmd : Text)
    (isRaw sendonly : Bool) (answers : Answers) :
    ∀ e ∈ (d.sendTo port atPort owner cmd isRaw sendonly answers).effects,
      e.path ∈ some (PortPath.ofText atPort) := by
  unfold sendTo
  dsimp only
  split
  · nofun
  · exact mem_target_of_advances (port.advances_sendCommand _ _ _ _) hpath

/-- The effects of a call are on its target. -/
theorem path_of_mem_effects (answers : Answers) (c : Call) :
    ∀ e ∈ (d.call answers c).effects, e.path ∈ c.target := by
  cases c with
  | «open» atPort settings =>
    show ∀ e ∈ (d.openMethod atPort settings answers).effects, _
    unfold openMethod
    split
    · next port hfound =>
      exact mem_target_of_advances (port.advances_openAtPort _ _) (path_of_findPortInstance hfound)
    split
    · nofun
    split
    · nofun
    -- the port is new and has the path of the call
    have hadvances := (d.newPort atPort answers.time).advances_openAtPort settings answers.send.device
    dsimp only
    split
    · exact mem_target_of_advances hadvances rfl
    · exact mem_target_of_advances (hadvances.trans (PortInstance.advances_destroy _)) rfl
  | sendat atPort owner cmd isRaw sendonly =>
    show ∀ e ∈ (d.sendatMethod atPort owner cmd isRaw sendonly answers).effects, _
    unfold sendatMethod
    split
    · next port hfound => exact path_of_mem_sendTo (path_of_findPortInstance hfound) _ _ _ _ _
    split
    · nofun
    · exact path_of_mem_sendTo rfl _ _ _ _ _
  | close atPort =>
    show ∀ e ∈ (d.closeMethod atPort).effects, _
    unfold closeMethod
    split
    · next port hfound =>
      exact mem_target_of_advances
        (port.advances_closeAtPort.trans (PortInstance.advances_destroy _))
        (path_of_findPortInstance hfound)
    · nofun
  | lease c => nofun

/-- When `open` does nothing to a device. -/
theorem open_effects_eq_nil (atPort : Text) (settings : Settings) (answers : Answers) :
    (d.openMethod atPort settings answers).effects = [] ↔ d.Inert answers (.open atPort settings) := by
  unfold openMethod Inert
  dsimp only
  cases d.findPortInstance atPort with
  | some port => exact port.openAtPort_effects_eq_nil settings answers.send.device
  | none =>
    dsimp only
    split
    · next habsent => exact iff_of_true rfl (.inl (by simpa using habsent))
    next hpresent =>
    split
    · next hfull => exact iff_of_true rfl (.inr (by simpa using hfull))
    next hallocated =>
    -- There is an instance now, and it is opened or destroyed.
    refine iff_of_false ?_ (by simp_all)
    split
    · next hok =>
      have hopenable := PortInstance.openable_of_openAtPort _ hok rfl
      rw [PortInstance.openAtPort_effects_eq_nil, hopenable]
      simp [PortInstance.alreadyOpen, newPort]
    · simp [destroyPortInstance]

/-- When a command of somebody else does nothing to a device with a lease. -/
theorem sendat_effects_eq_nil (hwf : d.table.WellFormed) {lease : Lease}
    (hlease : lease ∈ d.table.unexpired d.now) (hport : (PortPath.ofText atPort).val = lease.port)
    {owner : Option Text} (howner : owner ≠ some lease.owner) (cmd : Text) (isRaw sendonly : Bool)
    (answers : Answers) :
    (d.sendatMethod atPort owner cmd isRaw sendonly answers).effects = [] ↔
      d.Inert answers (.sendat atPort owner cmd isRaw sendonly) := by
  unfold Inert
  by_cases hfits : atPort.length < maxPortPathSize
  · -- The table knows the path, and refuses.
    rw [PortPath.val_ofText hfits] at hport
    have hrefused := hport ▸ hwf.authorize_refused hlease howner
    refine iff_of_true ?_ (.inl hfits)
    unfold sendatMethod
    split
    · simp [sendTo, hrefused]
    split
    · rfl
    · simp [sendTo, createPortInstance, hrefused]
  · have hlong := Nat.not_lt.mp hfits
    unfold sendatMethod
    rw [findPortInstance_of_long hlong]
    dsimp only
    split
    · next hfull => exact iff_of_true rfl (.inr (.inl (by simpa using hfull)))
    · next hallocated =>
      have hgranted : (d.table.authorize d.now atPort owner).2 = .granted :=
        hwf.authorize_granted hlong owner
      simp only [sendTo, createPortInstance, hgranted, ne_eq, not_true, if_false]
      rw [PortInstance.sendCommand_effects_eq_nil _ rfl rfl]
      simp_all

/-- A call on a leased port, by someone else, has no effect exactly if it finds nothing to do. -/
theorem effects_eq_nil_iff (hwf : d.table.WellFormed) {lease : Lease}
    (hlease : lease ∈ d.table.unexpired d.now) (answers : Answers) {c : Call} {path : PortPath}
    (htarget : path ∈ c.target) (hport : path.val = lease.port)
    (howner : ∀ atPort owner cmd isRaw sendonly, c = .sendat atPort owner cmd isRaw sendonly →
      owner ≠ some lease.owner) :
    (d.call answers c).effects = [] ↔ d.Inert answers c := by
  cases c with
  | «open» atPort settings => exact open_effects_eq_nil atPort settings answers
  | sendat atPort owner cmd isRaw sendonly =>
    obtain rfl := Option.some_inj.mp htarget
    exact sendat_effects_eq_nil hwf hlease hport (howner _ _ _ _ _ rfl) cmd isRaw sendonly answers
  -- `close` knows no leases: it does nothing only if the port is not there
  | close atPort =>
    show (d.closeMethod atPort).effects = [] ↔ d.findPortInstance atPort = none
    unfold closeMethod
    cases d.findPortInstance atPort with
    | some port => simp [destroyPortInstance]
    | none => simp
  | lease c => cases htarget

/-! ## Runs -/

/-- The owner of a command is the one that the request names. -/
theorem owner_of_call? {r : Request} {allocated : Bool} {owner : Option Text} {cmd : Text}
    {isRaw sendonly : Bool}
    (h : r.call? allocated = some (.sendat atPort owner cmd isRaw sendonly)) : owner = r.owner := by
  unfold Request.call? at h
  obtain ⟨path, -, h⟩ := Option.bind_eq_some_iff.mp h
  cases hmethod : r.method with
  | sendat =>
    cases hcmd : r.atCmd <;> cases hraw : r.rawAtContent <;> simp_all
  | «open» => simp [hmethod] at h
  | close => simp [hmethod] at h
  | leaseAcquire => simp [hmethod, Option.bind_eq_some_iff] at h
  | leaseRenew => simp [hmethod, Option.bind_eq_some_iff] at h
  | leaseRelease => simp [hmethod, Option.bind_eq_some_iff] at h

/-- One step. -/
theorem enforced_iff_careful (hwf : d.table.WellFormed) (e : Event) : d.Enforced e ↔ d.Careful e := by
  cases e with
  | request elapsed r answers =>
    refine forall₃_congr fun lease hlease howner => ?_
    unfold outcome
    dsimp only
    cases hcall : r.call? answers.allocated with
    | none => exact iff_of_true nofun nofun
    | some c =>
      have hother : ∀ atPort owner cmd isRaw sendonly,
          c = .sendat atPort owner cmd isRaw sendonly → owner ≠ some lease.owner := by
        rintro atPort owner cmd isRaw sendonly rfl
        rw [owner_of_call? hcall]
        exact howner
      -- whether the device is left alone can be seen from the request
      have hnil := fun path (htarget : path ∈ c.target) hport =>
        effects_eq_nil_iff (d := d.later elapsed) hwf hlease answers htarget hport hother
      constructor
      · rintro hkept c' ⟨⟩ path htarget hport
        refine (hnil path htarget hport).mp (eq_nil_iff_forall_not_mem.mpr fun e he => ?_)
        have hpath := Option.mem_unique (path_of_mem_effects answers c e he) htarget
        exact hkept e he (hpath ▸ hport)
      · intro hcareful e he hport
        have htarget := path_of_mem_effects answers c e he
        rw [(hnil _ htarget hport).mpr (hcareful c rfl _ htarget hport)] at he
        cases he
  | line => exact Iff.rfl
  | readError => exact Iff.rfl
  | check => exact Iff.rfl

/-- In every run, leases are enforced exactly if every call that names a leased port without its
owner finds nothing to do. -/
theorem enforced_iff (daemonEpoch : ℕ) (events : List Event) :
    Along step Enforced (initial daemonEpoch) events ↔
      Along step Careful (initial daemonEpoch) events :=
  along_iff_along_of_step (p := fun d => d.table.WellFormed) ⟨nodup_nil, nofun⟩
    (fun _ e hwf => enforced_iff_careful hwf e) (fun _ e _ hwf => wellFormed_step hwf e) events

end Daemon

/-- A port is opened and leased, and someone else closes it. -/
def intruder : List Event :=
  [.request 0 { method := .open, atPort := some (ascii "/dev/ttyUSB2") } .working,
    .request 0
      { method := .leaseAcquire, atPort := some (ascii "/dev/ttyUSB2")
        owner := some (ascii "qmodem.voip") } .working,
    .request 0 { method := .close, atPort := some (ascii "/dev/ttyUSB2") } .working]

/-- The instance of the leased port is closed and destroyed. -/
theorem intruder_not_enforced :
    ¬ Along Daemon.step Daemon.Enforced (Daemon.initial 7) intruder := by
  rintro ⟨-, -, hclosed, -⟩
  revert hclosed
  unfold Daemon.Enforced
  decide +kernel

end QModem.At
