import QModem.Lib.Ring
import QModem.Lib.Run

/-!
# The Queue of Line Events

`line_events.c` of `ubus_at_daemon`: the reader threads enqueue what they receive, and the event
loop dequeues and publishes it.  The queue is a ring; when it is full, the oldest event makes room,
and the number of lost events travels with the next event that is not lost itself.

`Traffic` is the queue together with all lines that were enqueued and all events that were
delivered.

## Main results

- `lineQueue_refines`: the queue is a bounded FIFO that drops its oldest events, every loss is
  counted, and the latest count is with an event or waits for the next one
- `lineQueue_notified`: the event loop is woken as long as there are events
-/

namespace QModem.At

open Lib List

abbrev Text := List UInt8

/-! ## Events -/

/-- `at_correlation_t` -/
inductive Correlation where
  | idle
  | response
  | terminal
  | ambiguous
  deriving DecidableEq

/-- A line as it arrives, with the state of its port. -/
structure Arrival where
  port : Text
  epoch : ℕ
  sequence : ℕ
  monotonicMs : ℕ
  line : Text
  commandId : ℕ
  correlation : Correlation
  deriving DecidableEq

/-- `at_line_event_t` -/
structure LineEvent extends Arrival where
  dropCount : ℕ
  deriving DecidableEq

/-- `AT_LINE_QUEUE_CAPACITY` -/
def queueCapacity : ℕ := 256

/-- `MAX_AT_LINE_SIZE` -/
def maxAtLineSize : ℕ := 4096

def Arrival.fits (a : Arrival) : Bool := a.line.length < maxAtLineSize

/-- What `memset` leaves in a slot. -/
def LineEvent.zero : LineEvent := ⟨⟨[], 0, 0, 0, [], 0, .idle⟩, 0⟩

/-! ## The queue -/

/-- `at_line_event_queue_t`; `notified` says that the pipe holds at least one byte. -/
structure LineQueue where
  entries : Ring LineEvent queueCapacity
  dropCount : ℕ
  pendingDropCount : ℕ
  notified : Bool

namespace LineQueue

/-- `at_line_events_init` -/
def initial : LineQueue where
  entries := .empty .zero (by decide)
  dropCount := 0
  pendingDropCount := 0
  notified := false

/-- The events in the queue, the oldest first. -/
def contents (q : LineQueue) : List LineEvent := q.entries.toList

/-- `at_line_event_enqueue` -/
def enqueue (q : LineQueue) (a : Arrival) : LineQueue :=
  if !a.fits then
    { q with dropCount := q.dropCount + 1, pendingDropCount := q.dropCount + 1 }
  else if hfull : q.entries.count = queueCapacity then
    -- there is one free slot behind the new head
    { entries := (q.entries.pop.modifyFront ({ · with dropCount := q.dropCount + 1 })).push ⟨a, 0⟩
        q.entries.count_pop_lt
      dropCount := q.dropCount + 1
      pendingDropCount := q.dropCount + 1
      notified := true }
  else
    { q with
      entries := q.entries.push ⟨a, q.pendingDropCount⟩ (lt_of_le_of_ne q.entries.count_le hfull)
      pendingDropCount := if q.pendingDropCount ≠ 0 then 0 else q.pendingDropCount
      notified := true }

/-- `at_line_event_dequeue` -/
def dequeue (q : LineQueue) : Option LineEvent × LineQueue :=
  if 0 < q.entries.count then
    let event := q.entries.front
    (some event,
      { q with
        entries := q.entries.pop
        pendingDropCount :=
          if event.dropCount ≠ 0 ∧ event.dropCount = q.dropCount then 0 else q.pendingDropCount })
  else (none, q)

end LineQueue

/-! ## Traffic -/

/-- The queue with the lines that were enqueued and the events that were delivered. -/
structure Traffic where
  queue : LineQueue
  enqueued : List Arrival
  delivered : List LineEvent

/-- The loop of `at_line_events_consume`: up to `budget` events, each after the lines that arrive
before it is taken. -/
def consumeLoop {σ : Type} (enqueue : σ → Arrival → σ) (dequeue : σ → σ) (queued : σ → ℕ) :
    ℕ → List (List Arrival) → σ → σ
  | 0, _, s => s
  | budget + 1, arrivals, s =>
    let s := (arrivals.headD []).foldl enqueue s
    if 0 < queued s then consumeLoop enqueue dequeue queued budget arrivals.tail (dequeue s) else s

/-- What may happen to the queue. -/
inductive QueueOp where
  | enqueue (a : Arrival)
  | dequeue
  /-- A call of `at_line_events_consume` with the lines that arrive meanwhile. -/
  | consume (budget : ℕ) (arrivals : List (List Arrival))

namespace Traffic

def initial : Traffic := ⟨.initial, [], []⟩

def enqueue (t : Traffic) (a : Arrival) : Traffic :=
  { t with queue := t.queue.enqueue a, enqueued := t.enqueued ++ [a] }

def dequeue (t : Traffic) : Traffic :=
  { t with
    queue := t.queue.dequeue.2
    delivered := t.delivered ++ t.queue.dequeue.1.toList }

/-- `at_line_events_consume` up to the check for remaining events; the pipe is emptied first. -/
def publish (t : Traffic) (budget : ℕ) (arrivals : List (List Arrival)) : Traffic :=
  consumeLoop enqueue dequeue (·.queue.entries.count) budget arrivals
    { t with queue.notified := false }

/-- `at_line_events_consume`; at the end a byte is written if events remain. -/
def consume (t : Traffic) (budget : ℕ) (arrivals : List (List Arrival)) : Traffic :=
  let t := t.publish budget arrivals
  if 0 < t.queue.entries.count then { t with queue.notified := true } else t

def step (t : Traffic) : QueueOp → Traffic
  | .enqueue a => t.enqueue a
  | .dequeue => t.dequeue
  | .consume budget arrivals => t.consume budget arrivals

/-- What the queue is for, with the loss counts left out. -/
def fifo (t : Traffic) : DropOldest Arrival where
  queued := t.queue.contents.map (·.toArrival)
  delivered := t.delivered.map (·.toArrival)
  dropped := t.queue.dropCount

end Traffic

/-- The same operations on the bounded FIFO. -/
def fifoStep (q : DropOldest Arrival) : QueueOp → DropOldest Arrival
  | .enqueue a => q.offer queueCapacity Arrival.fits a
  | .dequeue => q.pop
  | .consume budget arrivals =>
    consumeLoop (·.offer queueCapacity Arrival.fits ·) (·.pop) (·.queued.length) budget arrivals q

/-! ## What an operation does -/

namespace LineQueue

/-- Marks an event with a number of lost events. -/
def mark (dropCount : ℕ) (e : LineEvent) : LineEvent := { e with dropCount }

/-- The cases of `at_line_event_enqueue`. -/
inductive Enqueued (q : LineQueue) (a : Arrival) (q' : LineQueue) : Prop where
  | refused (hfits : a.fits = false) (hcontents : q'.contents = q.contents)
      (hdrop : q'.dropCount = q.dropCount + 1) (hpending : q'.pendingDropCount = q.dropCount + 1)
  | overflow (hfits : a.fits = true) (hfull : q.contents.length = queueCapacity)
      (hcontents : q'.contents = q.contents.tail.modifyHead (mark (q.dropCount + 1)) ++ [⟨a, 0⟩])
      (hdrop : q'.dropCount = q.dropCount + 1) (hpending : q'.pendingDropCount = q.dropCount + 1)
  | appended (hfits : a.fits = true) (hroom : q.contents.length < queueCapacity)
      (hcontents : q'.contents = q.contents ++ [⟨a, q.pendingDropCount⟩])
      (hdrop : q'.dropCount = q.dropCount) (hpending : q'.pendingDropCount = 0)

/-- **Queueing**: the three things that can happen to a line. -/
theorem enqueued (q : LineQueue) (a : Arrival) : Enqueued q a (q.enqueue a) := by
  unfold enqueue
  split
  · next hfits => exact .refused (by simpa using hfits) rfl rfl rfl
  next hfits =>
  have hfits' : a.fits = true := by simpa using hfits
  split
  · next hfull =>
    -- a push into a full ring takes the place of the oldest line, and the next one gets the count
    refine .overflow hfits' (Ring.length_toList.trans hfull) ?_ rfl rfl
    have hcount : 0 < q.entries.count := by rw [hfull]; decide
    refine (Ring.toList_push _ _).trans (congrArg (· ++ [_]) ?_)
    rw [Ring.toList_modifyFront, contents, Ring.toList_eq_cons hcount]
    rfl
  · next hfull =>
    have hroom := lt_of_le_of_ne q.entries.count_le hfull
    -- the drops that were pending go to the first line with room
    refine .appended hfits' (Ring.length_toList.trans_lt hroom) (Ring.toList_push _ _) rfl ?_
    show (if q.pendingDropCount ≠ 0 then 0 else q.pendingDropCount) = 0
    split
    · rfl
    · next hzero => exact not_not.mp hzero

/-- The cases of `at_line_event_dequeue`. -/
inductive Dequeued (q : LineQueue) : Option LineEvent → LineQueue → Prop where
  | empty (hcontents : q.contents = []) : Dequeued q none q
  | taken {q' : LineQueue} (e : LineEvent) (hcontents : q.contents = e :: q'.contents)
      (hdrop : q'.dropCount = q.dropCount)
      (hpending : q'.pendingDropCount = q.pendingDropCount ∨ e.dropCount = q.dropCount) :
      Dequeued q (some e) q'

/-- Taking a line from the queue. -/
theorem dequeued (q : LineQueue) : Dequeued q q.dequeue.1 q.dequeue.2 := by
  unfold dequeue
  split
  · next hcount =>
    refine .taken _ (Ring.toList_eq_cons hcount) rfl ?_
    show (if q.entries.front.dropCount ≠ 0 ∧ q.entries.front.dropCount = q.dropCount then 0
      else q.pendingDropCount) = q.pendingDropCount ∨ _
    split
    · next hmark => exact .inr hmark.2
    · exact .inl rfl
  · next hcount =>
    refine .empty (eq_nil_of_length_eq_zero ?_)
    rw [contents, Ring.length_toList]
    omega

end LineQueue

/-! ## The loop -/

section Loop

variable {σ τ : Type} {enqueue : σ → Arrival → σ} {dequeue : σ → σ} {queued : σ → ℕ}
  {enqueue' : τ → Arrival → τ} {dequeue' : τ → τ} {queued' : τ → ℕ}

/-- A map that goes along with both operations goes along with the loop. -/
theorem map_consumeLoop {f : σ → τ} (henqueue : ∀ s a, f (enqueue s a) = enqueue' (f s) a)
    (hdequeue : ∀ s, f (dequeue s) = dequeue' (f s)) (hqueued : ∀ s, queued' (f s) = queued s)
    (budget : ℕ) (arrivals : List (List Arrival)) (s : σ) :
    f (consumeLoop enqueue dequeue queued budget arrivals s) =
      consumeLoop enqueue' dequeue' queued' budget arrivals (f s) := by
  have hfold : ∀ (as : List Arrival) s, f (as.foldl enqueue s) = as.foldl enqueue' (f s) := by
    intro as
    induction as with
    | nil => exact fun _ => rfl
    | cons a as ih =>
      intro s
      rw [foldl_cons, foldl_cons, ih, henqueue]
  -- one turn: the arrivals so far, then one line
  induction budget generalizing arrivals s with
  | zero => rfl
  | succ budget ih =>
    simp only [consumeLoop, ← hfold, hqueued]
    split
    · rw [ih, hdequeue]
    · rfl

/-- What both operations keep, the loop keeps. -/
theorem consumeLoop_induct {p : σ → Prop} (henqueue : ∀ s a, p s → p (enqueue s a))
    (hdequeue : ∀ s, p s → p (dequeue s)) (budget : ℕ) (arrivals : List (List Arrival)) {s : σ}
    (hs : p s) : p (consumeLoop enqueue dequeue queued budget arrivals s) := by
  have hfold : ∀ (as : List Arrival) s, p s → p (as.foldl enqueue s) := by
    intro as
    induction as with
    | nil => exact fun _ h => h
    | cons a as ih => exact fun s h => ih _ (henqueue s a h)
  -- lines may arrive before every turn
  induction budget generalizing arrivals s with
  | zero => exact hs
  | succ budget ih =>
    rw [consumeLoop]
    split
    · exact ih _ (hdequeue _ (hfold _ s hs))
    · exact hfold _ s hs

end Loop

/-! ## Refinement -/

namespace Traffic

variable {t : Traffic}

variable (t)

theorem length_queued_fifo : t.fifo.queued.length = t.queue.entries.count := by
  rw [fifo, length_map, LineQueue.contents, Ring.length_toList]

/-- The ring takes a line as the abstract queue does. -/
theorem fifo_enqueue (a : Arrival) :
    (t.enqueue a).fifo = t.fifo.offer queueCapacity Arrival.fits a := by
  have hlength : t.fifo.queued.length = t.queue.contents.length := length_map _
  unfold DropOldest.offer
  cases LineQueue.enqueued t.queue a with
  | refused hfits hcontents hdrop _ =>
    rw [if_neg (by simp [hfits])]
    simp [fifo, enqueue, DropOldest.refuse, hcontents, hdrop]
  | overflow hfits hfull hcontents hdrop _ =>
    rw [if_pos hfits, DropOldest.push, if_neg (by omega)]
    -- the mark is not part of the arrival
    have hmark : ∀ events : List LineEvent,
        (events.modifyHead (LineQueue.mark (t.queue.dropCount + 1))).map (·.toArrival) =
          events.map (·.toArrival) := by
      rintro (_ | ⟨e, events⟩) <;> rfl
    simp [fifo, enqueue, hcontents, hdrop, hmark, map_tail]
  | appended hfits hroom hcontents hdrop _ =>
    rw [if_pos hfits, DropOldest.push, if_pos (by omega)]
    simp [fifo, enqueue, hcontents, hdrop]

theorem fifo_dequeue : t.dequeue.fifo = t.fifo.pop := by
  have hcases := LineQueue.dequeued t.queue
  unfold DropOldest.pop dequeue fifo
  generalize t.queue.dequeue.1 = event, t.queue.dequeue.2 = q' at hcases
  cases hcases with
  | empty hcontents => simp [hcontents]
  | taken e hcontents hdrop _ => simp [hcontents, hdrop]

/-- **Refinement**: every step of the ring is the step of the abstract queue. -/
theorem fifo_step (op : QueueOp) : (t.step op).fifo = fifoStep t.fifo op := by
  cases op with
  | enqueue a => exact t.fifo_enqueue a
  | dequeue => exact t.fifo_dequeue
  | consume budget arrivals =>
    have hpublish : (t.publish budget arrivals).fifo = fifoStep t.fifo (.consume budget arrivals) :=
      map_consumeLoop fifo_enqueue fifo_dequeue length_queued_fifo budget arrivals _
    rw [← hpublish]
    show (t.consume budget arrivals).fifo = _
    unfold consume
    dsimp only
    split <;> rfl

variable {t}

/-! ## Accounting -/

/-- The current loss count is with an event, or it waits for the next one. -/
def Carried (t : Traffic) : Prop :=
  0 < t.queue.dropCount →
    (∃ e ∈ t.delivered ++ t.queue.contents, e.dropCount = t.queue.dropCount) ∨
      t.queue.pendingDropCount = t.queue.dropCount

/-- Events are delivered in the order of their lines, the queue holds the newest ones, every line is
delivered, queued or counted as lost, and the count is not lost itself. -/
structure Accounted (t : Traffic) : Prop where
  order : (t.delivered.map (·.toArrival)).Sublist t.enqueued
  newest : t.queue.contents.map (·.toArrival) <:+ t.enqueued.filter Arrival.fits
  total : t.delivered.length + t.queue.contents.length + t.queue.dropCount = t.enqueued.length
  carried : t.Carried

/-- A line that is dropped is carried by the queue from now on. -/
theorem Carried.enqueue (h : t.Carried) (a : Arrival) : (t.enqueue a).Carried := by
  intro hpos
  show (∃ e ∈ t.delivered ++ (t.queue.enqueue a).contents, e.dropCount = (t.queue.enqueue a).dropCount) ∨
    (t.queue.enqueue a).pendingDropCount = (t.queue.enqueue a).dropCount
  cases LineQueue.enqueued t.queue a with
  | refused _ _ hdrop hpending => exact .inr (hpending.trans hdrop.symm)
  | overflow _ _ _ hdrop hpending => exact .inr (hpending.trans hdrop.symm)
  | appended _ _ hcontents hdrop hpending =>
    left
    rw [hdrop, hcontents]
    have hold : 0 < t.queue.dropCount := by rw [← hdrop]; exact hpos
    obtain ⟨e, he, hmark⟩ | hwaiting := h hold
    · exact ⟨e, by rw [← append_assoc]; exact mem_append_left _ he, hmark⟩
    · exact ⟨⟨a, t.queue.pendingDropCount⟩, by simp, hwaiting⟩

/-- The line that is taken carries the drops it was marked with. -/
theorem Carried.dequeue (h : t.Carried) : t.dequeue.Carried := by
  have hcases := LineQueue.dequeued t.queue
  unfold Carried Traffic.dequeue
  generalize t.queue.dequeue.1 = event, t.queue.dequeue.2 = q' at hcases
  cases hcases with
  | empty hcontents => simpa [Carried] using h
  | taken e hcontents hdrop hpending =>
    intro hpos
    rw [hdrop] at hpos ⊢
    have hall : t.delivered ++ (some e).toList ++ q'.contents = t.delivered ++ t.queue.contents := by
      rw [hcontents]
      simp
    rw [hall]
    -- the mark is on a line that is there already, or it waits for the next one
    obtain hfound | hwaiting := h hpos
    · exact .inl hfound
    · obtain hpending | hmark := hpending
      · exact .inr (hpending.trans hwaiting)
      · exact .inl ⟨e, by simp [hcontents], hmark⟩

theorem Accounted.of_fifo (h : t.fifo.Accounts Arrival.fits t.enqueued) (hcarried : t.Carried) :
    t.Accounted where
  order := (sublist_append_left _ _).trans (h.order.trans filter_sublist)
  newest := h.newest
  total := by simpa [fifo] using h.total
  carried := hcarried

/-- Accounting in terms of the FIFO. -/
def Balanced (t : Traffic) : Prop := t.fifo.Accounts Arrival.fits t.enqueued ∧ t.Carried

theorem Balanced.enqueue (h : t.Balanced) (a : Arrival) : (t.enqueue a).Balanced := by
  refine ⟨?_, h.2.enqueue a⟩
  rw [fifo_enqueue]
  exact h.1.offer (by decide) a

theorem Balanced.dequeue (h : t.Balanced) : t.dequeue.Balanced := by
  refine ⟨?_, h.2.dequeue⟩
  rw [fifo_dequeue]
  exact h.1.pop

/-- Every line stays accounted for. -/
theorem Balanced.step (h : t.Balanced) (op : QueueOp) : (t.step op).Balanced := by
  cases op with
  | enqueue a => exact h.enqueue a
  | dequeue => exact h.dequeue
  | consume budget arrivals =>
    have hpublish : (t.publish budget arrivals).Balanced :=
      consumeLoop_induct (fun _ a h => h.enqueue a) (fun _ h => h.dequeue) budget arrivals
        (show Balanced { t with queue.notified := false } from h)
    show (t.consume budget arrivals).Balanced
    unfold consume
    dsimp only
    split
    · exact hpublish
    · exact hpublish

/-- For every sequence of enqueues, dequeues and budgeted consume calls, the queue is the bounded
FIFO that drops its oldest item, and nothing is lost unaccounted for. -/
theorem lineQueue_refines (ops : List QueueOp) :
    (run step initial ops).fifo = run fifoStep {} ops ∧ (run step initial ops).Accounted := by
  constructor
  · exact map_run fifo_step ops
  · have hbalanced : (run step initial ops).Balanced :=
      run_invariant_of_step ⟨.empty, nofun⟩ fun _ op h => h.step op
    exact .of_fifo hbalanced.1 hbalanced.2

/-! ## Waking the event loop -/

/-- The pipe is readable as long as there are events. -/
def Awake (t : Traffic) : Prop := 0 < t.queue.entries.count → t.queue.notified = true

/-- As long as there are events the pipe stays readable. -/
theorem Awake.step (h : t.Awake) (op : QueueOp) : (t.step op).Awake := by
  cases op with
  | enqueue a =>
    show Awake (t.enqueue a)
    unfold Traffic.enqueue LineQueue.enqueue
    split
    · exact h
    · split <;> exact fun _ => rfl
  | dequeue =>
    show Awake t.dequeue
    unfold Traffic.dequeue LineQueue.dequeue
    split
    · next hcount => exact fun _ => h hcount
    · exact h
  | consume budget arrivals =>
    show Awake (t.consume budget arrivals)
    unfold consume
    dsimp only
    split
    · exact fun _ => rfl
    · -- the consumer has seen the queue empty
      next hempty => exact fun hcount => absurd hcount hempty

/-- No wake-up is lost: the event loop is called again while there are events. -/
theorem lineQueue_notified (ops : List QueueOp) : (run step initial ops).Awake :=
  run_invariant_of_step (fun hcount => absurd hcount (Nat.lt_irrefl 0)) fun _ op h => h.step op

end Traffic

end QModem.At
