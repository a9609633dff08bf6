import QModem.Lib.Transaction

/-!
# Connections with Failing Calls

A connection to a constrained store, and the calls a program makes on it: `BEGIN`, `COMMIT`,
`ROLLBACK`, and statements that are prepared and then stepped.  A single call may fail.  Unlike a
`Transaction`, a script that fails leaves the connection as it is at that point; only a `ROLLBACK`
restores the store.

A script *realizes* a transaction if it has the same effect as long as none of its statements fails,
and neither begins nor ends a transaction itself.
-/

namespace QModem.Lib

/-! ## Calls -/

/-- The calls that may fail, for statements of type `S`. -/
inductive Call (S : Type) where
  | begin
  | commit
  | prepare (statement : S)
  | step (statement : S)
  deriving DecidableEq

/-- The call that fails. -/
structure Fault (S : Type) where
  call : Call S
  /-- How many calls like it are made before. -/
  earlier : ℕ
  deriving DecidableEq

/-- A connection.  A transaction that is open remembers what the store was at its beginning. -/
structure Connection {T : Type} (Valid : T → Prop) where
  store : Store Valid
  saved : Option (Store Valid) := none

/-- A connection with the calls that were made on it, the latest first. -/
structure Session {T : Type} (S : Type) (Valid : T → Prop) where
  connection : Connection Valid
  made : List (Call S) := []

/-- A piece of a program, which succeeds or fails under a given fault. -/
def Script {T : Type} (S : Type) (Valid : T → Prop) (α : Type) : Type :=
  Option (Fault S) → Session S Valid → Option α × Session S Valid

variable {T S : Type} {Valid : T → Prop} {α β : Type}

instance : Monad (Script S Valid) where
  pure a := fun _ s => (some a, s)
  bind x f := fun fault s =>
    match x fault s with
    | (some a, s') => f a fault s'
    | (none, s') => (none, s')

namespace Script

def fail : Script S Valid α := fun _ s => (none, s)

def query (f : T → α) : Script S Valid α := fun _ s => (some (f s.connection.store.data), s)

/-- Changes the data, unless that breaks a constraint. -/
def change [DecidablePred Valid] (f : T → T) : Script S Valid Unit := fun _ s =>
  if h : Valid (f s.connection.store.data) then
    (some (), { s with connection := { s.connection with store := ⟨_, h⟩ } })
  else (none, s)

section Calls

variable [DecidableEq S]

/-- Makes a call, and tells whether it worked. -/
def works (call : Call S) : Script S Valid Bool := fun fault s =>
  (some !(fault.any fun f => f.call = call && s.made.count call = f.earlier),
    { s with made := call :: s.made })

/-- Makes a call and fails with it. -/
def attempt (call : Call S) : Script S Valid Unit := do
  if ← works call then return () else fail

def exec [DecidablePred Valid] (statement : S) (f : T → T) : Script S Valid Unit := do
  attempt (.prepare statement)
  attempt (.step statement)
  change f

/-- A query for one row; when the step fails there seems to be none. -/
def selectRow (statement : S) (f : T → Option α) : Script S Valid (Option α) := do
  attempt (.prepare statement)
  if ← works (.step statement) then query f else return none

/-- Steps through the rows of a query, up to the first step that fails. -/
def fetch (statement : S) : List α → Script S Valid (List α)
  | [] => do
    let _ ← works (.step statement)
    return []
  | row :: rows => do
    if ← works (.step statement) then
      let rest ← fetch statement rows
      return row :: rest
    else return []

def selectRows (statement : S) (f : T → List α) : Script S Valid (List α) := do
  attempt (.prepare statement)
  let rows ← query f
  fetch statement rows

/-- `BEGIN IMMEDIATE`, which a transaction that is open refuses. -/
def begin : Script S Valid Unit := do
  attempt .begin
  fun _ s =>
    match s.connection.saved with
    | none => (some (), { s with connection.saved := some s.connection.store })
    | some _ => (none, s)

/-- `COMMIT`; when it fails the transaction stays open. -/
def commit : Script S Valid Unit := do
  attempt .commit
  fun _ s => (some (), { s with connection.saved := none })

end Calls

/-- `ROLLBACK`, which does nothing outside of a transaction. -/
def rollback : Script S Valid Unit := fun _ s =>
  match s.connection.saved with
  | none => (some (), s)
  | some store => (some (), { s with connection := { store } })

def orRollback (x : Script S Valid α) : Script S Valid α := fun fault s =>
  match x fault s with
  | (some a, s') => (some a, s')
  | (none, s') => (none, (rollback fault s').2)

variable {x : Script S Valid α} {f : α → Script S Valid β} {fault : Option (Fault S)}
  {s s' : Session S Valid}

theorem bind_of_some {a : α} (h : x fault s = (some a, s')) : (x >>= f) fault s = f a fault s' := by
  simp only [bind, h]

theorem bind_of_none (h : x fault s = (none, s')) : (x >>= f) fault s = (none, s') := by
  simp only [bind, h]

theorem bind_congr_left {y : Script S Valid α} (h : x fault s = y fault s') :
    (x >>= f) fault s = (y >>= f) fault s' := by
  simp only [bind, h]

/-! ## Scripts for transactions -/

/-- The script neither begins nor ends a transaction. -/
structure Inside (x : Script S Valid α) : Prop where
  saved : ∀ fault s, (x fault s).2.connection.saved = s.connection.saved
  commits : ∀ fault s, Call.commit ∈ (x fault s).2.made → Call.commit ∈ s.made

theorem Inside.pure (a : α) : Inside (Pure.pure a : Script S Valid α) where
  saved _ _ := rfl
  commits _ _ h := h

/-- Statements one after the other stay inside the transaction. -/
theorem Inside.bind (hx : Inside x) (hf : ∀ a, Inside (f a)) : Inside (x >>= f) where
  saved fault s := by
    have hsaved := hx.saved fault s
    rcases h : x fault s with ⟨_ | a, s'⟩ <;> rw [h] at hsaved
    · rw [bind_of_none h, hsaved]
    · rw [bind_of_some h, (hf a).saved, hsaved]
  commits fault s hmem := by
    have hcommits := hx.commits fault s
    rcases h : x fault s with ⟨_ | a, s'⟩ <;> rw [h] at hcommits
    · rw [bind_of_none h] at hmem
      exact hcommits hmem
    · rw [bind_of_some h] at hmem
      exact hcommits ((hf a).commits fault s' hmem)

/-- On this store, the script has the effect of the transaction if none of its statements fails. -/
def Agrees (x : Script S Valid α) (tx : Transaction Valid α) (store : Store Valid) : Prop :=
  ∀ fault s, (∀ f ∈ fault, f.call = .commit) → s.connection.store = store →
    (x fault s).1 = (tx store).map (·.1) ∧
      ∀ r, tx store = some r → (x fault s).2.connection.store = r.2

/-- Agreement goes on from statement to statement, each in the store that the last one has left. -/
theorem Agrees.bind {tx : Transaction Valid α} {g : α → Transaction Valid β} {store : Store Valid}
    (hx : Agrees x tx store)
    (hf : ∀ a store', tx store = some (a, store') → Agrees (f a) (g a) store') :
    Agrees (x >>= f) (tx >>= g) store := by
  intro fault s hfault hs
  obtain ⟨hresult, hstore⟩ := hx fault s hfault hs
  cases htx : tx store with
  | none =>
    rw [htx] at hresult
    -- the first part fails on both sides, and the second one does not run
    have hnone : (tx >>= g) store = none := by
      simp only [Bind.bind, StateT.bind, htx, Option.bind_none]
    have hx' : x fault s = (none, (x fault s).2) := Prod.ext hresult rfl
    rw [bind_of_none hx', hnone]
    exact ⟨rfl, nofun⟩
  | some r =>
    rw [htx] at hresult
    have hx' : x fault s = (some r.1, (x fault s).2) := Prod.ext hresult rfl
    have htx' : tx store = some (r.1, r.2) := htx
    rw [bind_of_some hx', Transaction.bind_of_eq htx']
    exact hf r.1 r.2 htx fault _ hfault (hstore r htx)

/-- A script that has the effect of a transaction, if none of its statements fails. -/
structure Realizes (x : Script S Valid α) (tx : Transaction Valid α) : Prop where
  inside : Inside x
  agrees : ∀ store, Agrees x tx store

namespace Realizes

theorem pure (a : α) : Realizes (Pure.pure a : Script S Valid α) (Pure.pure a) where
  inside := .pure a
  agrees _ _ _ _ hs := ⟨rfl, fun r hr => by cases hr; exact hs⟩

theorem fail : Realizes (Script.fail : Script S Valid α) Transaction.rollback where
  inside := ⟨fun _ _ => rfl, fun _ _ h => h⟩
  agrees _ _ _ _ _ := ⟨rfl, nofun⟩

theorem query (f : T → α) : Realizes (Script.query f : Script S Valid α) (Transaction.query f) where
  inside := ⟨fun _ _ => rfl, fun _ _ h => h⟩
  agrees _ _ _ _ hs := by
    cases hs
    exact ⟨rfl, fun r hr => by cases hr; rfl⟩

theorem bind {tx : Transaction Valid α} {g : α → Transaction Valid β} (hx : Realizes x tx)
    (hf : ∀ a, Realizes (f a) (g a)) : Realizes (x >>= f) (tx >>= g) where
  inside := hx.inside.bind fun a => (hf a).inside
  agrees store := (hx.agrees store).bind fun a store' _ => (hf a).agrees store'

/-- A change of the tables without a call of the library. -/
theorem change [DecidablePred Valid] (f : T → T) :
    Realizes (Script.change f : Script S Valid Unit) (Transaction.exec f) where
  inside := by
    constructor
    · intro fault s
      unfold Script.change
      split <;> rfl
    · intro fault s h
      unfold Script.change at h
      split at h <;> exact h
  -- both sides fail exactly if a constraint is violated
  agrees _ _ s _ hs := by
    cases hs
    unfold Script.change Transaction.exec
    split
    · exact ⟨rfl, fun r hr => by cases hr; rfl⟩
    · exact ⟨rfl, fun r hr => by cases hr⟩

variable [DecidableEq S]

/-- A call on a statement works. -/
theorem works (call : Call S) (hcall : call ≠ .commit) :
    Realizes (Script.works call : Script S Valid Bool) (Pure.pure true) where
  inside := ⟨fun _ _ => rfl, fun _ _ h => List.mem_of_ne_of_mem hcall.symm h⟩
  agrees _ fault s hfault hs := by
    cases hs
    refine ⟨?_, fun r hr => by cases hr; rfl⟩
    cases fault with
    | none => rfl
    | some f =>
      have hne : f.call ≠ call := by
        rw [hfault f rfl]
        exact hcall.symm
      simp [Script.works, hne, Pure.pure, StateT.pure]

theorem attempt (call : Call S) (hcall : call ≠ .commit) :
    Realizes (Script.attempt call : Script S Valid Unit) (Pure.pure ()) := by
  have hworks : Realizes (Script.works call : Script S Valid Bool) (Pure.pure true) := works call hcall
  refine hworks.bind (g := fun b => if b then Pure.pure () else Transaction.rollback) fun b => ?_
  cases b with
  | false => exact fail
  | true => exact pure ()

variable (statement : S)

theorem exec [DecidablePred Valid] (f : T → T) :
    Realizes (Script.exec statement f : Script S Valid Unit) (Transaction.exec f) :=
  (attempt (.prepare statement) nofun).bind fun _ =>
    (attempt (.step statement) nofun).bind fun _ => change f

theorem selectRow (f : T → Option α) :
    Realizes (Script.selectRow statement f : Script S Valid (Option α)) (Transaction.query f) := by
  have hworks : Realizes (Script.works (.step statement) : Script S Valid Bool) (Pure.pure true) :=
    works _ nofun
  refine (attempt (.prepare statement) nofun).bind (g := fun _ => Transaction.query f) fun _ => ?_
  refine hworks.bind (g := fun b => if b then Transaction.query f else Pure.pure none) fun b => ?_
  cases b with
  | false => exact pure none
  | true => exact query f

/-- The rows of a query are those of the tables. -/
theorem fetch (rows : List α) :
    Realizes (Script.fetch statement rows : Script S Valid (List α)) (Pure.pure rows) := by
  have hworks : Realizes (Script.works (.step statement) : Script S Valid Bool) (Pure.pure true) :=
    works _ nofun
  induction rows with
  | nil => exact hworks.bind fun _ => pure []
  | cons row rows ih =>
    refine hworks.bind (g := fun b => if b then Pure.pure (row :: rows) else Pure.pure []) fun b => ?_
    cases b with
    | false => exact pure []
    | true => exact ih.bind fun rest => pure (row :: rest)

theorem selectRows (f : T → List α) :
    Realizes (Script.selectRows statement f : Script S Valid (List α)) (Transaction.query f) :=
  (attempt (.prepare statement) nofun).bind fun _ =>
    (query f).bind (g := Pure.pure) fun rows => fetch statement rows

end Realizes

variable {store : Store Valid}

/-- What a script reads is known on a given store. -/
theorem Agrees.read {h : T → α} (hx : Realizes x (Transaction.query h)) {tx : Transaction Valid β}
    (hf : Agrees (f (h store.data)) tx store) : Agrees (x >>= f) tx store := by
  refine Agrees.bind (g := fun _ => tx) (hx.agrees store) fun a store' hread => ?_
  cases hread
  exact hf

/-- What a transaction reads is known as well. -/
theorem Agrees.reads {x : Script S Valid β} {h : T → α} {g : α → Transaction Valid β}
    (hx : Agrees x (g (h store.data)) store) :
    Agrees x (Transaction.query h >>= g) store := hx

/-- Only what a statement makes of the data on the given store matters. -/
theorem Agrees.exec [DecidableEq S] [DecidablePred Valid] (statement : S) {f g : T → T}
    (hfg : f store.data = g store.data) :
    Agrees (Script.exec statement f) (Transaction.exec g) store := by
  have hsame : (Transaction.exec f : Transaction Valid Unit) store = Transaction.exec g store := by
    simp only [Transaction.exec, hfg]
  intro fault s hfault hs
  rw [← hsame]
  exact (Realizes.exec statement f).agrees store fault s hfault hs

/-! ## Whole operations -/

variable [DecidableEq S]

/-- A connection outside of any transaction on which nothing was called yet. -/
def start (store : Store Valid) : Session S Valid where
  connection := { store }

/-- When the script fails, the store is unchanged and no transaction is open. -/
def Clean (x : Script S Valid α) (fault : Option (Fault S)) (store : Store Valid) : Prop :=
  (x fault (start store)).1 = none → (x fault (start store)).2.connection = { store }

/-- Rolls back when the script fails, and else commits. -/
def orRollbackThenCommit (x : Script S Valid α) : Script S Valid α := do
  let a ← x.orRollback
  commit
  return a

/-- The usual form of an operation. -/
def transaction (x : Script S Valid α) : Script S Valid α := do
  begin
  x.orRollbackThenCommit

omit [DecidableEq S] in
theorem clean_fail (fault : Option (Fault S)) (store : Store Valid) :
    Clean (fail : Script S Valid α) fault store := fun _ => rfl

variable {s : Session S Valid} {x : Script S Valid α} {tx : Transaction Valid α}

variable (fault)

/-- A call that was not made before fails if it is the first one like it that is to fail. -/
theorem attempt_of_not_mem {call : Call S} (hmade : call ∉ s.made) :
    attempt call fault s =
      (if fault = some ⟨call, 0⟩ then none else some (), { s with made := call :: s.made }) := by
  cases fault with
  | none => rfl
  | some f =>
    obtain ⟨failing, earlier⟩ := f
    -- the fault is for the first call of this kind, or for another one
    by_cases hcall : failing = call ∧ earlier = 0
    · obtain ⟨rfl, rfl⟩ := hcall
      simp [attempt, works, bind, fail, List.count_eq_zero_of_not_mem hmade]
    · have hworks : (failing = call && 0 = earlier) = false := by
        rw [← Bool.decide_and, decide_eq_false_iff_not]
        exact fun h => hcall ⟨h.1, h.2.symm⟩
      have hfault : ¬some (⟨failing, earlier⟩ : Fault S) = some ⟨call, 0⟩ := by simpa using hcall
      simp [attempt, works, bind, List.count_eq_zero_of_not_mem hmade, hworks, hfault, pure]

/-- `COMMIT` is made once, so only a fault of the first one counts. -/
theorem commit_of_not_mem (hmade : Call.commit ∉ s.made) :
    commit fault s =
      if fault = some ⟨.commit, 0⟩ then (none, { s with made := .commit :: s.made })
      else (some (), ⟨{ s.connection with saved := none }, .commit :: s.made⟩) := by
  have hattempt := attempt_of_not_mem fault hmade
  split <;> rename_i hfault
  · rw [if_pos hfault] at hattempt
    exact bind_of_none hattempt
  · rw [if_neg hfault] at hattempt
    exact bind_of_some hattempt

/-- In an open transaction, everything but a failing `COMMIT` is undone. -/
theorem orRollbackThenCommit_iff (hx : Realizes x tx) {fault : Option (Fault S)}
    (hsaved : s.connection.saved = some store) (hmade : Call.commit ∉ s.made) :
    ((x.orRollbackThenCommit fault s).1 = none →
        (x.orRollbackThenCommit fault s).2.connection = { store }) ↔
      ¬(fault = some ⟨.commit, 0⟩ ∧ tx.Succeeds s.connection.store) := by
  rcases hrun : x fault s with ⟨_ | a, s'⟩ <;>
    have hkept : s'.connection.saved = some store := by rw [← hsaved, ← hx.inside.saved fault s, hrun]
  · -- the script fails and is rolled back
    have hrollback : x.orRollback fault s = (none, { s' with connection := { store } }) := by
      simp only [orRollback, hrun, rollback, hkept]
    rw [orRollbackThenCommit, bind_of_none hrollback]
    refine iff_of_true (fun _ => rfl) ?_
    rintro ⟨rfl, b, u, htx⟩
    have hresult := (hx.agrees _ (some ⟨.commit, 0⟩) s (by simp) rfl).1
    rw [hrun, htx] at hresult
    cases hresult
  · have hsuccess : x.orRollback fault s = (some a, s') := by simp only [orRollback, hrun]
    have hmade' : Call.commit ∉ s'.made := fun hmem => hmade (hx.inside.commits fault s (by rwa [hrun]))
    have hcommit := commit_of_not_mem fault hmade'
    rw [orRollbackThenCommit, bind_of_some hsuccess]
    split at hcommit <;> rename_i hfault
    · -- the transaction stays open
      rw [bind_of_none hcommit]
      refine iff_of_false (fun hclean => ?_) ?_
      · have hopen : s'.connection.saved = none := by rw [hclean rfl]
        rw [hkept] at hopen
        cases hopen
      · rw [not_not]
        refine ⟨hfault, ?_⟩
        have hresult := (hx.agrees _ fault s (by simp [hfault]) rfl).1
        rw [hrun, eq_comm, Option.map_eq_some_iff] at hresult
        obtain ⟨r, hr, -⟩ := hresult
        exact ⟨r.1, r.2, hr⟩
    · rw [bind_of_some hcommit]
      exact iff_of_true nofun fun h => hfault h.1

/-- Nothing has happened when `BEGIN` fails. -/
theorem begin_start (store : Store Valid) :
    begin fault (start store) =
      if fault = some ⟨.begin, 0⟩ then (none, ⟨{ store }, [.begin]⟩)
      else (some (), ⟨{ store, saved := some store }, [.begin]⟩) := by
  have hmade : Call.begin ∉ (start store : Session S Valid).made := nofun
  have hattempt := attempt_of_not_mem fault hmade
  split <;> rename_i hfault
  · rw [if_pos hfault] at hattempt
    exact bind_of_none hattempt
  · rw [if_neg hfault] at hattempt
    exact bind_of_some hattempt

variable {fault}

/-- An operation of the usual form is clean unless its `COMMIT` fails. -/
theorem clean_transaction_iff (hx : Realizes x tx) (fault : Option (Fault S))
    (store : Store Valid) :
    Clean (transaction x) fault store ↔ ¬(fault = some ⟨.commit, 0⟩ ∧ tx.Succeeds store) := by
  have hbegin := begin_start fault store
  unfold Clean transaction
  split at hbegin <;> rename_i hfault
  · rw [bind_of_none hbegin]
    exact iff_of_true (fun _ => rfl) fun h => by cases hfault.symm.trans h.1
  · rw [bind_of_some hbegin]
    exact orRollbackThenCommit_iff hx rfl (by simp)

/-- A `ROLLBACK` behind a failed `BEGIN` does nothing. -/
theorem clean_beginInside_iff (hx : Realizes x tx) (fault : Option (Fault S))
    (store : Store Valid) :
    Clean (orRollbackThenCommit (begin >>= fun _ => x)) fault store ↔
      ¬(fault = some ⟨.commit, 0⟩ ∧ tx.Succeeds store) := by
  have hbegin := begin_start fault store
  by_cases hfault : fault = some ⟨.begin, 0⟩
  · rw [if_pos hfault] at hbegin
    -- the rollback behind a failed `BEGIN` finds no transaction
    have hfailed : (orRollback (begin >>= fun _ => x)) fault (start store) =
        (none, ⟨{ store }, [.begin]⟩) := by
      simp only [orRollback, bind_of_none hbegin, rollback]
    unfold Clean
    rw [orRollbackThenCommit, bind_of_none hfailed]
    exact iff_of_true (fun _ => rfl) fun h => by cases hfault.symm.trans h.1
  · rw [if_neg hfault] at hbegin
    -- with the transaction open it is the case of the other functions
    have hrun : (orRollbackThenCommit (begin >>= fun _ => x)) fault (start store) =
        x.orRollbackThenCommit fault ⟨{ store, saved := some store }, [.begin]⟩ := by
      refine bind_congr_left ?_
      simp only [orRollback, bind_of_some hbegin]
    unfold Clean
    rw [hrun]
    exact orRollbackThenCommit_iff hx rfl (by simp)

variable [DecidablePred Valid]

/-- A statement that keeps the constraints fails with its calls only. -/
theorem exec_of_not_mem (statement : S) (fault : Option (Fault S)) {f : T → T}
    (hprepare : Call.prepare statement ∉ s.made) (hstep : Call.step statement ∉ s.made)
    (hvalid : Valid (f s.connection.store.data)) :
    ∃ calls, Call.commit ∉ calls ∧ exec statement f fault s =
      if fault = some ⟨.prepare statement, 0⟩ ∨ fault = some ⟨.step statement, 0⟩ then
        (none, { s with made := calls ++ s.made })
      else
        (some (), ⟨{ s.connection with store := ⟨_, hvalid⟩ }, calls ++ s.made⟩) := by
  have hfirst := attempt_of_not_mem fault hprepare
  by_cases hfault : fault = some ⟨.prepare statement, 0⟩
  · refine ⟨[.prepare statement], by simp, ?_⟩
    rw [if_pos hfault] at hfirst
    rw [if_pos (.inl hfault), exec, bind_of_none hfirst]
    rfl
  rw [if_neg hfault] at hfirst
  -- the statement was prepared, and may fail when it is run
  have hstep' : Call.step statement ∉ Call.prepare statement :: s.made := by simpa using hstep
  have hsecond := attempt_of_not_mem fault (s := { s with made := .prepare statement :: s.made })
    hstep'
  refine ⟨[.step statement, .prepare statement], by simp, ?_⟩
  rw [exec, bind_of_some hfirst]
  by_cases hfault' : fault = some ⟨.step statement, 0⟩
  · rw [if_pos hfault'] at hsecond
    rw [if_pos (.inr hfault'), bind_of_none hsecond]
    rfl
  · rw [if_neg hfault'] at hsecond
    rw [if_neg (not_or.mpr ⟨hfault, hfault'⟩), bind_of_some hsecond]
    exact dif_pos hvalid

/-- A statement between `BEGIN` and the part that is rolled back must not fail. -/
theorem clean_unguarded_iff {statement : S} {f : T → T} (hx : Realizes x tx)
    (fault : Option (Fault S)) (hvalid : Valid (f store.data)) :
    Clean (begin >>= fun _ => exec statement f >>= fun _ => x.orRollbackThenCommit) fault store ↔
      ¬(fault = some ⟨.commit, 0⟩ ∧ tx.Succeeds ⟨f store.data, hvalid⟩) ∧
        fault ≠ some ⟨.prepare statement, 0⟩ ∧ fault ≠ some ⟨.step statement, 0⟩ := by
  have hbegin := begin_start fault store
  unfold Clean
  by_cases hfault : fault = some ⟨.begin, 0⟩
  · rw [if_pos hfault] at hbegin
    rw [bind_of_none hbegin, hfault]
    simp
  rw [if_neg hfault] at hbegin
  rw [bind_of_some hbegin]
  obtain ⟨calls, hcalls, hexec⟩ := exec_of_not_mem statement fault (f := f)
    (s := ⟨{ store, saved := some store }, [.begin]⟩) (by simp) (by simp) hvalid
  by_cases hfailed : fault = some ⟨.prepare statement, 0⟩ ∨ fault = some ⟨.step statement, 0⟩
  · rw [if_pos hfailed] at hexec
    rw [bind_of_none hexec]
    refine iff_of_false (fun hclean => ?_) fun h => ?_
    · -- nobody rolls back, so the transaction stays open
      cases congrArg Connection.saved (hclean rfl)
    · exact hfailed.elim h.2.1 h.2.2
  · rw [if_neg hfailed] at hexec
    rw [bind_of_some hexec, orRollbackThenCommit_iff hx rfl (by simpa using hcalls)]
    exact ⟨fun h => ⟨h, not_or.mp hfailed⟩, fun h => h.1⟩

end Script

end QModem.Lib
