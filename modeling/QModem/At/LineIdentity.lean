import QModem.At.Ports

/-!
# The Identity of a Line

Every line of a port is numbered, and the number travels with the restart epoch of the port
instance. A consumer takes the pair as the identity of the line, and ignores a pair that is not
larger than the last one it has seen.

The epoch starts at the epoch of the daemon and advances with each opening; the number starts at
zero and is never set back.  Both live in the instance, and `close` destroys the instance.

`PortHistory` is the daemon together with the openings and the lines so far.

## Main results

- `PortHistory.identified_iff`: the lines of each path are strictly increasing all along a run
  exactly if each line comes from an instance that was opened more often than the other instances of
  its path when they received lines, or as often and has received as many lines
- `recreated_not_identified`: closing and opening a port gives an identity out again
-/

namespace QModem.At

open Lib List

/-! ## Consumers -/

/-- The epoch and the number of a line, in lexicographic order. -/
def Arrival.identity (a : Arrival) : ℕ ×ₗ ℕ := toLex (a.epoch, a.sequence)

/-- The lines a consumer accepts, as `qmodem_voip_line` does: those with an identity larger than
that of the last line it accepted. -/
def accepted : Option (ℕ ×ₗ ℕ) → List Arrival → List Arrival
  | _, [] => []
  | last, a :: rest =>
    if last.all (· < a.identity) then a :: accepted (some a.identity) rest else accepted last rest

/-- A consumer accepts every line when the identities go up. -/
theorem accepted_eq_self {last : Option (ℕ ×ₗ ℕ)} {lines : List Arrival}
    (hlast : ∀ x ∈ last, ∀ a ∈ lines, x < a.identity)
    (hlines : lines.Pairwise fun a b => a.identity < b.identity) : accepted last lines = lines := by
  induction lines generalizing last with
  | nil => rfl
  | cons a rest ih =>
    obtain ⟨hfirst, hrest⟩ := pairwise_cons.mp hlines
    have haccepted : last.all (· < a.identity) = true := by
      cases last with
      | none => rfl
      | some x => exact decide_eq_true (hlast x rfl a mem_cons_self)
    rw [accepted, if_pos haccepted, ih _ hrest]
    rintro x ⟨⟩ b hb
    exact hfirst b hb

/-! ## Histories -/

/-- A line, with how often its instance had been opened and how many lines it had received. -/
structure NumberedLine extends PortLine where
  opens : ℕ
  ordinal : ℕ

/-- The daemon, the instances that were opened, and the lines, the oldest first. -/
structure PortHistory where
  daemon : Daemon
  opened : List ℕ
  lines : List NumberedLine

namespace PortHistory

def initial (daemonEpoch : ℕ) : PortHistory := ⟨.initial daemonEpoch, [], []⟩

/-- How often an instance was opened. -/
def opens (h : PortHistory) (handle : ℕ) : ℕ := h.opened.count handle

def received (h : PortHistory) (handle : ℕ) : ℕ := h.lines.countP (·.handle = handle)

def number (h : PortHistory) (l : PortLine) : NumberedLine where
  toPortLine := l
  opens := h.opens l.handle
  ordinal := h.received l.handle + 1

def record (h : PortHistory) (d : Daemon) (effects : List PortEffect) (lines : List PortLine) :
    PortHistory where
  daemon := d
  opened := h.opened ++ (effects.filter (·.isOpening)).map (·.handle)
  lines := h.lines ++ lines.map h.number

def step (h : PortHistory) (e : Event) : PortHistory :=
  h.record (h.daemon.step e) (h.daemon.outcome e).effects (h.daemon.outcome e).lines

def linesOf (h : PortHistory) (path : Text) : List Arrival :=
  (h.lines.map (·.arrival)).filter (·.port = path)

/-- The identities of the lines of a path are strictly increasing, and no line is ignored. -/
structure Identified (h : PortHistory) : Prop where
  increasing : ∀ path, (h.linesOf path).Pairwise fun a b => a.identity < b.identity
  accepted : ∀ path, accepted none (h.linesOf path) = h.linesOf path

/-- A line comes from an instance that is ahead of the other instances of its path that have
received lines. -/
def Ahead (h : PortHistory) : Event → Prop
  | .line handle _ _ _ _ => ∀ port, h.daemon.portAt handle = some port → port.readerRuns = true →
    ∀ n ∈ h.lines, n.arrival.port = port.path.val → n.handle ≠ handle →
      n.opens < h.opens handle ∨ n.opens = h.opens handle ∧ n.ordinal ≤ h.received handle
  | _ => True

variable {h : PortHistory}

theorem identified_of_increasing
    (hlines : ∀ path, (h.linesOf path).Pairwise fun a b => a.identity < b.identity) :
    h.Identified :=
  ⟨hlines, fun path => accepted_eq_self nofun (hlines path)⟩

/-! ## Epochs and numbers count openings and lines -/

/-- Only the port whose effects are recorded is opened. -/
theorem opens_record (h : PortHistory) (d : Daemon) {effects : List PortEffect}
    (lines : List PortLine) {handle : ℕ} (hown : ∀ e ∈ effects, e.handle = handle) (x : ℕ) :
    (h.record d effects lines).opens x = h.opens x + if handle = x then openings effects else 0 := by
  have hreplicate : (effects.filter (·.isOpening)).map (·.handle) =
      replicate (openings effects) handle := by
    refine eq_replicate_iff.mpr ⟨?_, fun n hn => ?_⟩
    · rw [length_map, openings, countP_eq_length_filter]
    · obtain ⟨e, he, rfl⟩ := mem_map.mp hn
      exact hown e (mem_filter.mp he).1
  simp only [opens, record, count_append, hreplicate, count_replicate, beq_iff_eq]

theorem countP_handle {lines : List PortLine} {handle : ℕ} (hown : ∀ l ∈ lines, l.handle = handle)
    (x : ℕ) : lines.countP (·.handle = x) = if handle = x then lines.length else 0 := by
  split
  · next heq => exact countP_eq_length.mpr fun l hl => by simp [hown l hl, heq]
  · next hne => exact countP_eq_zero.mpr fun l hl => by simp [hown l hl, hne]

theorem received_record (h : PortHistory) (d : Daemon) (effects : List PortEffect)
    (lines : List PortLine) (x : ℕ) :
    (h.record d effects lines).received x = h.received x + lines.countP (·.handle = x) := by
  simp only [received, record, countP_append, countP_map]
  rfl

structure Counted (h : PortHistory) : Prop where
  epoch : ∀ port ∈ h.daemon.ports,
    port.restartEpoch = h.daemon.table.daemonEpoch + h.opens port.handle
  sequence : ∀ port ∈ h.daemon.ports, port.lineSequence = h.received port.handle
  handle : ∀ port ∈ h.daemon.ports, port.handle < h.daemon.nextHandle
  unopened : ∀ handle, h.daemon.nextHandle ≤ handle → h.opens handle = 0
  unreceived : ∀ handle, h.daemon.nextHandle ≤ handle → h.received handle = 0
  identity : ∀ n ∈ h.lines,
    n.arrival.identity = toLex (h.daemon.table.daemonEpoch + n.opens, n.ordinal)
  bounded : ∀ n ∈ h.lines, n.opens ≤ h.opens n.handle ∧ n.ordinal ≤ h.received n.handle

theorem counted_initial (daemonEpoch : ℕ) : (initial daemonEpoch).Counted where
  epoch _ hport := absurd hport not_mem_nil
  sequence _ hport := absurd hport not_mem_nil
  handle _ hport := absurd hport not_mem_nil
  unopened _ _ := rfl
  unreceived _ _ := rfl
  identity _ hline := absurd hline not_mem_nil
  bounded _ hline := absurd hline not_mem_nil

namespace Counted

variable {h : PortHistory}

/-- A new port has no lines and a handle of its own. -/
theorem prepare (hc : h.Counted) {d : Daemon} (hprepared : Prepared h.daemon d) :
    Counted { h with daemon := d } := by
  cases hprepared with
  | same table now htable =>
    have hepoch := htable.daemonEpoch
    exact ⟨by rw [hepoch]; exact hc.epoch, hc.sequence, hc.handle, hc.unopened, hc.unreceived,
      by rw [hepoch]; exact hc.identity, hc.bounded⟩
  | created table now htable atPort time =>
    have hepoch := htable.daemonEpoch
    -- A new instance has an address of its own, and nothing happened there before.
    have hopens := hc.unopened _ le_rfl
    have hreceived := hc.unreceived _ le_rfl
    refine ⟨forall_mem_cons.mpr ⟨?_, ?_⟩, forall_mem_cons.mpr ⟨hreceived.symm, hc.sequence⟩,
      forall_mem_cons.mpr ⟨Nat.lt_succ_self _, fun port hport => ?_⟩,
      fun n hn => hc.unopened n ((Nat.le_succ _).trans hn),
      fun n hn => hc.unreceived n ((Nat.le_succ _).trans hn), by rw [hepoch]; exact hc.identity,
      hc.bounded⟩
    · rw [hepoch]
      exact (congrArg (h.daemon.table.daemonEpoch + ·) hopens).symm
    · rw [hepoch]
      exact hc.epoch
    · exact (hc.handle port hport).trans (Nat.lt_succ_self _)

/-- One instance is touched: it is opened, or it receives a line. -/
theorem touch (hc : h.Counted) {d : Daemon} {port port' : PortInstance} {effects : List PortEffect}
    {lines : List PortLine} (hmem : port ∈ h.daemon.ports) (hhandle : port'.handle = port.handle)
    (hepoch : port'.restartEpoch = port.restartEpoch + openings effects)
    (hsequence : port'.lineSequence = port.lineSequence + lines.length)
    (heffects : ∀ e ∈ effects, e.handle = port.handle)
    (hlines : ∀ l ∈ lines, l.handle = port.handle ∧
      l.arrival.identity = toLex (port.restartEpoch, port.lineSequence + 1))
    (hports : ∀ x ∈ d.ports, x = port' ∨ x ∈ h.daemon.ports ∧ x.handle ≠ port'.handle)
    (htable : d.table = h.daemon.table) (hnext : d.nextHandle = h.daemon.nextHandle) :
    (h.record d effects lines).Counted := by
  have hopens := h.opens_record d lines heffects
  have hreceived : ∀ x, (h.record d effects lines).received x =
      h.received x + if port.handle = x then lines.length else 0 := by
    intro x
    rw [received_record, countP_handle fun l hl => (hlines l hl).1]
  have hstart : (h.record d effects lines).daemon.table.daemonEpoch =
      h.daemon.table.daemonEpoch := congrArg (·.daemonEpoch) htable
  have hends : (h.record d effects lines).daemon.nextHandle = h.daemon.nextHandle := hnext
  have hother : ∀ x : PortInstance, x.handle ≠ port'.handle → port.handle ≠ x.handle :=
    fun x hx heq => hx (heq.symm.trans hhandle.symm)
  -- handles that were not given out yet are those of other ports
  have hbeyond : ∀ n, h.daemon.nextHandle ≤ n → port.handle ≠ n :=
    fun n hn => ne_of_lt ((hc.handle port hmem).trans_le hn)
  refine ⟨fun x hx => ?_, fun x hx => ?_, fun x hx => ?_, fun n hn => ?_, fun n hn => ?_, ?_, ?_⟩
  · -- the epoch of the port goes up with its openings
    rw [hopens, hstart]
    rcases hports x hx with rfl | ⟨hold, hx'⟩
    · rw [hepoch, hc.epoch port hmem, hhandle, if_pos rfl, Nat.add_assoc]
    · rw [if_neg (hother x hx')]
      exact hc.epoch x hold
  · rw [hreceived]
    rcases hports x hx with rfl | ⟨hold, hx'⟩
    · rw [hsequence, hc.sequence port hmem, hhandle, if_pos rfl]
    · rw [if_neg (hother x hx')]
      exact hc.sequence x hold
  · rw [hends]
    rcases hports x hx with rfl | ⟨hold, -⟩
    · rw [hhandle]
      exact hc.handle port hmem
    · exact hc.handle x hold
  · rw [hends] at hn
    rw [hopens, hc.unopened n hn, if_neg (hbeyond n hn)]
  · rw [hends] at hn
    rw [hreceived, hc.unreceived n hn, if_neg (hbeyond n hn)]
  · intro n hn
    rw [hstart]
    rcases mem_append.mp hn with hn | hn
    · exact hc.identity n hn
    · obtain ⟨l, hl, rfl⟩ := mem_map.mp hn
      obtain ⟨hown, hidentity⟩ := hlines l hl
      -- a new line
      show l.arrival.identity = toLex (_ + h.opens l.handle, h.received l.handle + 1)
      rw [hidentity, hown, hc.epoch port hmem, hc.sequence port hmem]
  · intro n hn
    rw [hopens, hreceived]
    rcases mem_append.mp hn with hn | hn
    · obtain ⟨hopened, hordinal⟩ := hc.bounded n hn
      exact ⟨hopened.trans (Nat.le_add_right _ _), hordinal.trans (Nat.le_add_right _ _)⟩
    · obtain ⟨l, hl, rfl⟩ := mem_map.mp hn
      have hown : port.handle = (h.number l).handle := (hlines l hl).1.symm
      rw [if_pos hown, if_pos hown]
      exact ⟨Nat.le_add_right _ _, Nat.add_le_add_left (length_pos_of_mem hl) _⟩

/-- Whatever a port does, its identities can be read off its openings and lines. -/
theorem act (hc : h.Counted) {d : Daemon} {effects : List PortEffect} {lines : List PortLine}
    (hacts : Acts h.daemon d effects lines) : (h.record d effects lines).Counted := by
  cases hacts with
  | idle => simpa [record] using hc
  | changed hmem hadvances =>
    exact hc.touch hmem hadvances.handle hadvances.epoch hadvances.sequence
      (fun e he => (hadvances.own e he).1) nofun (fun x hx => h.daemon.mem_put hx) rfl rfl
  | removed hmem hadvances =>
    exact hc.touch hmem hadvances.handle hadvances.epoch hadvances.sequence
      (fun e he => (hadvances.own e he).1) nofun (fun x hx => .inr (h.daemon.mem_remove hx)) rfl rfl
  | @received port arrival hmem _ hepoch hsequence =>
    have hports := fun x => h.daemon.mem_put (p := port.nextLineEventState) (x := x)
    -- a line that was received moves the sequence on by one
    refine hc.touch hmem ?_ ?_ ?_ nofun ?_ hports rfl rfl
    · rfl
    · rfl
    · rfl
    intro l hl
    obtain rfl := mem_singleton.mp hl
    refine ⟨rfl, ?_⟩
    rw [Arrival.identity, hepoch, hsequence]

theorem step (hc : h.Counted) (e : Event) : (h.step e).Counted := by
  obtain ⟨d, hprepared, hacts⟩ := h.daemon.acts_outcome e
  exact (hc.prepare hprepared).act hacts

end Counted

/-! ## When identities increase -/

theorem linesOf_record (h : PortHistory) (d : Daemon) (effects : List PortEffect)
    (lines : List PortLine) (path : Text) :
    (h.record d effects lines).linesOf path =
      h.linesOf path ++ (lines.map (·.arrival)).filter (·.port = path) := by
  simp only [linesOf, record, map_append, filter_append, map_map]
  rfl

theorem mem_linesOf {path : Text} {a : Arrival} :
    a ∈ h.linesOf path ↔ ∃ n ∈ h.lines, n.arrival = a ∧ a.port = path := by
  simp only [linesOf, mem_filter, mem_map, decide_eq_true_eq]
  constructor
  · rintro ⟨⟨n, hn, rfl⟩, hpath⟩
    exact ⟨n, hn, rfl, hpath⟩
  · rintro ⟨n, hn, rfl, hpath⟩
    exact ⟨⟨n, hn, rfl⟩, hpath⟩

/-- A new line keeps the lines increasing exactly if it is behind all earlier lines of its path. -/
theorem identified_record_iff (hi : h.Identified) (d : Daemon) (l : PortLine) :
    (h.record d [] [l]).Identified ↔
      ∀ n ∈ h.lines, n.arrival.port = l.arrival.port → n.arrival.identity < l.arrival.identity := by
  constructor
  · -- the new line is the last one of its path
    intro hnew n hn hport
    have hlines := hnew.increasing l.arrival.port
    rw [linesOf_record] at hlines
    exact (pairwise_append.mp hlines).2.2 _ (mem_linesOf.mpr ⟨n, hn, rfl, hport⟩) _ (by simp)
  · intro hbehind
    refine identified_of_increasing fun path => ?_
    rw [linesOf_record, pairwise_append]
    refine ⟨hi.increasing path, (pairwise_singleton _ _).filter _, fun a ha b hb => ?_⟩
    obtain ⟨n, hn, rfl, hpath⟩ := mem_linesOf.mp ha
    obtain ⟨hb, hpath'⟩ := mem_filter.mp hb
    obtain rfl := mem_singleton.mp hb
    exact hbehind n hn (hpath.trans (of_decide_eq_true hpath').symm)

theorem identity_lt_iff {daemonEpoch opens opens' ordinal ordinal' : ℕ} :
    (toLex (daemonEpoch + opens, ordinal) : ℕ ×ₗ ℕ) < toLex (daemonEpoch + opens', ordinal' + 1) ↔
      opens < opens' ∨ opens = opens' ∧ ordinal ≤ ordinal' := by
  rw [Prod.Lex.toLex_lt_toLex]
  omega

/-- One step. -/
theorem identified_step_iff (hc : h.Counted) (hi : h.Identified) (e : Event) :
    (h.step e).Identified ↔ h.Ahead e := by
  have hsilent : (h.daemon.outcome e).lines = [] → (h.step e).Identified := by
    intro hlines
    refine identified_of_increasing fun path => ?_
    rw [step, hlines, linesOf_record]
    simpa using hi.increasing path
  cases e with
  | request elapsed r answers =>
    refine iff_of_true (hsilent ?_) trivial
    unfold Daemon.outcome
    dsimp only
    split
    · exact Daemon.lines_call _ _ _
    · rfl
  | readError handle =>
    refine iff_of_true (hsilent ?_) trivial
    unfold Daemon.outcome
    dsimp only
    split <;> rfl
  | check handle time present device =>
    refine iff_of_true (hsilent ?_) trivial
    unfold Daemon.outcome
    dsimp only
    split <;> rfl
  | line handle line monotonicMs commandId correlation =>
    cases hfound : h.daemon.portAt handle with
    | none =>
      refine iff_of_true (hsilent (by simp only [Daemon.outcome, hfound])) ?_
      intro port hport
      rw [hfound] at hport
      cases hport
    | some port =>
      have hhandle : port.handle = handle := by simpa using find?_some hfound
      have hmem : port ∈ h.daemon.ports := mem_of_find?_eq_some hfound
      cases hruns : port.readerRuns with
      | false =>
        refine iff_of_true (hsilent (by simp [Daemon.outcome, hfound, hruns])) ?_
        intro port' hport hruns'
        cases hfound.symm.trans hport
        rw [hruns] at hruns'
        cases hruns'
      | true =>
        have hstep : h.step (.line handle line monotonicMs commandId correlation) =
            h.record (h.daemon.put port.nextLineEventState) []
              [⟨handle, port.path.val, port.restartEpoch, port.lineSequence + 1, monotonicMs, line,
                commandId, correlation⟩] := by
          simp only [step, Daemon.step, Daemon.outcome, hfound, hruns]
          rfl
        rw [hstep, identified_record_iff hi]
        -- The new identity counts the openings and the lines of the instance.
        have hlt : ∀ n ∈ h.lines, (n.arrival.identity <
            (toLex (port.restartEpoch, port.lineSequence + 1) : ℕ ×ₗ ℕ) ↔
              n.opens < h.opens handle ∨
                n.opens = h.opens handle ∧ n.ordinal ≤ h.received handle) := by
          intro n hn
          rw [hc.identity n hn, hc.epoch port hmem, hc.sequence port hmem, hhandle, identity_lt_iff]
        constructor
        · intro hbehind port' hport _ n hn hpath _
          cases hfound.symm.trans hport
          exact (hlt n hn).mp (hbehind n hn hpath)
        · intro hahead n hn hpath
          refine (hlt n hn).mpr ?_
          by_cases hown : n.handle = handle
          · obtain ⟨hopened, hordinal⟩ := hown ▸ hc.bounded n hn
            exact (Nat.lt_or_eq_of_le hopened).imp_right (⟨·, hordinal⟩)
          · exact hahead port hfound hruns n hn hpath hown

/-- In every run, the identities of the lines of each path are strictly increasing all along exactly
if each line comes from an instance that is ahead of the other instances of its path. -/
theorem identified_iff (daemonEpoch : ℕ) (events : List Event) :
    Throughout step Identified (initial daemonEpoch) events ↔
      Along step Ahead (initial daemonEpoch) events := by
  refine throughout_iff_along Counted (counted_initial daemonEpoch) (fun h e _ hc => hc.step e) ?_
    fun h e _ hc hi => identified_step_iff hc hi e
  exact identified_of_increasing fun _ => Pairwise.nil

end PortHistory

/-- A port is opened, receives a line, is closed, opened again, and receives another line. -/
def recreation : List Event :=
  [.request 0 { method := .open, atPort := some (ascii "/dev/ttyUSB2") } .working,
    .line 0 (ascii "RING") 0 0 .idle,
    .request 0 { method := .close, atPort := some (ascii "/dev/ttyUSB2") } .working,
    .request 0 { method := .open, atPort := some (ascii "/dev/ttyUSB2") } .working,
    .line 1 (ascii "RING") 0 0 .idle]

/-- Both lines get the same identity, and a consumer ignores the second. -/
theorem recreated_not_identified :
    ¬ Throughout PortHistory.step PortHistory.Identified (PortHistory.initial 7) recreation := by
  intro hidentified
  have hlast := hidentified.last.accepted (ascii "/dev/ttyUSB2")
  revert hlast
  decide +kernel

end QModem.At
