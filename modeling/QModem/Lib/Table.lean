import Mathlib

/-!
# Tables with an Integer Primary Key

A table is a list of rows in the order of their keys.  A new row gets the largest key in use plus
one, so the key of a deleted row can come back when it was the largest.

## Main definitions

- `Table`: rows in strictly increasing key order
- `Table.insert`, `Table.updateWhere`, `Table.deleteWhere`, `Table.find?`: the statements
- `Unique`, `References`: uniqueness of a column and references to the key of another table

A column is a function to `Option`; rows with `none` (a null value) are not constrained.
-/

namespace QModem.Lib

open List

variable {α β κ : Type}

/-- A row with its primary key. -/
structure Entry (α : Type) where
  id : ℕ
  row : α
  deriving DecidableEq, Repr

/-- A table: the keys are positive and the rows are stored in key order. -/
structure Table (α : Type) where
  rows : List (Entry α)
  sorted : rows.Pairwise fun a b => a.id < b.id
  positive : ∀ e ∈ rows, 0 < e.id
  deriving DecidableEq

namespace Table

instance : Membership (Entry α) (Table α) := ⟨fun t e => e ∈ t.rows⟩

variable {t : Table α}

theorem mem_rows {e : Entry α} : e ∈ t.rows ↔ e ∈ t := Iff.rfl

@[ext] theorem ext_rows {t u : Table α} (h : t.rows = u.rows) : t = u := by
  cases t
  cases u
  cases h
  rfl

def ids (t : Table α) : List ℕ := t.rows.map Entry.id

theorem nodup_ids (t : Table α) : t.ids.Nodup :=
  pairwise_map.mpr (t.sorted.imp fun hlt => hlt.ne)

/-- Two entries of a table with the same key are the same entry. -/
theorem eq_of_id_eq {a b : Entry α} (ha : a ∈ t) (hb : b ∈ t) (h : a.id = b.id) : a = b :=
  inj_on_of_nodup_map t.nodup_ids ha hb h

/-! ## Statements -/

def empty : Table α := ⟨[], List.Pairwise.nil, by simp⟩

/-- The key of the next row: the largest one in use plus one. -/
def nextId (t : Table α) : ℕ := t.rows.foldr (fun e m => max e.id m) 0 + 1

/-- New rows come behind all others. -/
theorem id_lt_nextId {e : Entry α} (h : e ∈ t) : e.id < t.nextId := by
  have hle : ∀ {rows : List (Entry α)}, e ∈ rows → e.id ≤ rows.foldr (fun e m => max e.id m) 0 := by
    intro rows hmem
    induction rows with
    | nil => cases hmem
    | cons x rows ih =>
      rcases mem_cons.mp hmem with rfl | hmem
      · exact le_max_left _ _
      · exact (ih hmem).trans (le_max_right _ _)
  exact Nat.lt_succ_of_le (hle h)

theorem nextId_pos (t : Table α) : 0 < t.nextId := Nat.succ_pos _

/-- `INSERT`. -/
def insert (t : Table α) (row : α) : Table α where
  rows := t.rows ++ [⟨t.nextId, row⟩]
  sorted := by
    refine List.pairwise_append.mpr ⟨t.sorted, List.pairwise_singleton _ _, ?_⟩
    intro a ha b hb
    obtain rfl := List.mem_singleton.mp hb
    exact id_lt_nextId ha
  positive := by
    intro e he
    rcases List.mem_append.mp he with he | he
    · exact t.positive e he
    · obtain rfl := List.mem_singleton.mp he
      exact t.nextId_pos

/-- `UPDATE … WHERE`. -/
def updateWhere (t : Table α) (p : Entry α → Bool) (f : α → α) : Table α where
  rows := t.rows.map fun e => if p e then ⟨e.id, f e.row⟩ else e
  sorted := by
    refine List.pairwise_map.mpr (t.sorted.imp ?_)
    intro a b hlt
    split <;> split <;> exact hlt
  positive := by
    intro e he
    obtain ⟨x, hx, rfl⟩ := List.mem_map.mp he
    split <;> exact t.positive x hx

/-- `DELETE … WHERE`. -/
def deleteWhere (t : Table α) (p : Entry α → Bool) : Table α where
  rows := t.rows.filter fun e => !p e
  sorted := t.sorted.filter _
  positive := fun e he => t.positive e (List.mem_of_mem_filter he)

/-- `SELECT … WHERE`. -/
def select (t : Table α) (p : Entry α → Bool) : List (Entry α) := t.rows.filter p

/-- The first row a `SELECT … WHERE` finds. -/
def find? (t : Table α) (p : Entry α → Bool) : Option (Entry α) := t.rows.find? p

section Membership

variable {t : Table α} {e : Entry α} {p : Entry α → Bool}

@[simp] theorem notMem_empty : e ∉ (empty : Table α) := not_mem_nil

@[simp] theorem mem_insert {row : α} : e ∈ t.insert row ↔ e ∈ t ∨ e = ⟨t.nextId, row⟩ := by
  simp [← mem_rows, insert]

/-- A row of an updated table was not selected, or it is the new version of a selected row. -/
@[simp] theorem mem_updateWhere {f : α → α} :
    e ∈ t.updateWhere p f ↔
      (e ∈ t ∧ p e = false) ∨ ∃ x ∈ t, p x = true ∧ e = ⟨x.id, f x.row⟩ := by
  simp only [← mem_rows, updateWhere, mem_map]
  constructor
  · rintro ⟨x, hx, rfl⟩
    cases hp : p x with
    | true => exact .inr ⟨x, hx, hp, by rw [if_pos rfl]⟩
    | false => exact .inl ⟨by simpa [hp] using hx, by simp [hp]⟩
  · rintro (⟨he, hp⟩ | ⟨x, hx, hp, rfl⟩)
    · exact ⟨e, he, by simp [hp]⟩
    · exact ⟨x, hx, by simp [hp]⟩

@[simp] theorem mem_deleteWhere : e ∈ t.deleteWhere p ↔ e ∈ t ∧ p e = false := by
  simp [← mem_rows, deleteWhere]

@[simp] theorem mem_select : e ∈ t.select p ↔ e ∈ t ∧ p e = true := by
  simp [← mem_rows, select]

theorem mem_of_find? (h : t.find? p = some e) : e ∈ t ∧ p e = true :=
  ⟨mem_of_find?_eq_some h, find?_some h⟩

theorem find?_eq_none : t.find? p = none ↔ ∀ e ∈ t, p e = false := by
  simp [find?, mem_rows]

theorem isSome_find? : (t.find? p).isSome = true ↔ ∃ e ∈ t, p e = true := by
  simp [find?, mem_rows]

@[simp] theorem mem_ids {n : ℕ} : n ∈ t.ids ↔ ∃ e ∈ t, e.id = n := by
  simp [ids, mem_rows]

end Membership

@[simp] theorem ids_updateWhere (t : Table α) (p : Entry α → Bool) (f : α → α) :
    (t.updateWhere p f).ids = t.ids := by
  simp only [ids, updateWhere, map_map]
  refine map_congr_left fun e _ => ?_
  simp only [Function.comp]
  split <;> rfl

theorem nextId_notMem_ids (t : Table α) : t.nextId ∉ t.ids := by
  rw [mem_ids]
  rintro ⟨e, he, hid⟩
  exact (id_lt_nextId he).ne hid

theorem select_insert (t : Table α) (row : α) (p : Entry α → Bool) :
    (t.insert row).select p =
      t.select p ++ if p ⟨t.nextId, row⟩ then [⟨t.nextId, row⟩] else [] := by
  rw [select, insert, filter_append, filter_singleton, Bool.cond_eq_ite]
  rfl

/-- Rows that are not selected can be deleted. -/
theorem select_deleteWhere {p q : Entry α → Bool} (h : ∀ e ∈ t, q e = true → p e = false) :
    (t.deleteWhere p).select q = t.select q := by
  rw [select, deleteWhere, select, filter_filter]
  refine filter_congr fun e he => ?_
  cases hq : q e with
  | false => rfl
  | true => simp [h e he hq]

/-- A row found by a column that no two rows share is the only one. -/
theorem find?_eq_some_of_unique {p : Entry α → Bool} {e : Entry α} (he : e ∈ t) (hp : p e = true)
    (huniq : ∀ x ∈ t, p x = true → x.id = e.id) : t.find? p = some e := by
  cases hfind : t.find? p with
  | none => rw [find?_eq_none.mp hfind e he] at hp; cases hp
  | some x =>
    obtain ⟨hx, hpx⟩ := mem_of_find? hfind
    rw [eq_of_id_eq hx he (huniq x hx hpx)]

end Table

/-! ## Frame rules -/

/-- Two tables have the same rows among those a predicate selects. -/
def SameOn (q : α → Prop) (t u : Table α) : Prop := ∀ e : Entry α, q e.row → (e ∈ u ↔ e ∈ t)

namespace SameOn

variable {q : α → Prop} {t u v : Table α} {p : Entry α → Bool}

theorem refl (t : Table α) : SameOn q t t := fun _ _ => Iff.rfl

theorem trans (h : SameOn q t u) (h' : SameOn q u v) : SameOn q t v :=
  fun e he => (h' e he).trans (h e he)

theorem insert {row : α} (hrow : ¬ q row) : SameOn q t (t.insert row) := by
  intro e he
  rw [Table.mem_insert, or_iff_left]
  rintro rfl
  exact hrow he

/-- An update of other rows. -/
theorem updateWhere {f : α → α} (hold : ∀ e ∈ t, p e = true → ¬ q e.row)
    (hnew : ∀ e ∈ t, p e = true → ¬ q (f e.row)) : SameOn q t (t.updateWhere p f) := by
  intro e he
  rw [Table.mem_updateWhere]
  constructor
  · rintro (⟨hmem, -⟩ | ⟨x, hx, hp, rfl⟩)
    · exact hmem
    · exact absurd he (hnew x hx hp)
  · intro hmem
    exact .inl ⟨hmem, Bool.eq_false_iff.mpr fun hp => hold e hmem hp he⟩

theorem deleteWhere (hold : ∀ e ∈ t, p e = true → ¬ q e.row) : SameOn q t (t.deleteWhere p) := by
  intro e he
  rw [Table.mem_deleteWhere, and_iff_left_of_imp]
  exact fun hmem => Bool.eq_false_iff.mpr fun hp => hold e hmem hp he

end SameOn

/-! ## Constraints -/

/-- No two rows have the same value in a column. -/
def Unique [DecidableEq κ] (column : α → Option κ) (t : Table α) : Prop :=
  ∀ a ∈ t.rows, ∀ b ∈ t.rows, column a.row = column b.row → column a.row ≠ none → a.id = b.id

instance [DecidableEq κ] (column : α → Option κ) (t : Table α) : Decidable (Unique column t) :=
  inferInstanceAs (Decidable (∀ a ∈ t.rows, ∀ b ∈ t.rows, _ → _ → _))

/-- Every value in a column is a key of another table. -/
def References (column : α → Option ℕ) (t : Table α) (target : Table β) : Prop :=
  ∀ a ∈ t.rows, ∀ n ∈ column a.row, n ∈ target.ids

instance (column : α → Option ℕ) (t : Table α) (target : Table β) :
    Decidable (References column t target) :=
  inferInstanceAs (Decidable (∀ a ∈ t.rows, ∀ n ∈ column a.row, n ∈ target.ids))

section Constraints

variable [DecidableEq κ] {column : α → Option κ} {t : Table α} {p : Entry α → Bool}

theorem Unique.eq (h : Unique column t) {a b : Entry α} (ha : a ∈ t) (hb : b ∈ t) {k : κ}
    (hka : column a.row = some k) (hkb : column b.row = some k) : a = b :=
  Table.eq_of_id_eq ha hb (h a ha b hb (hka.trans hkb.symm) (by simp [hka]))

theorem Unique.deleteWhere (h : Unique column t) : Unique column (t.deleteWhere p) :=
  fun a ha b hb => h a (mem_of_mem_filter ha) b (mem_of_mem_filter hb)

/-- An update that leaves the column alone keeps it unique. -/
theorem Unique.updateWhere (h : Unique column t) {f : α → α}
    (hf : ∀ e ∈ t, p e = true → column (f e.row) = column e.row) :
    Unique column (t.updateWhere p f) := by
  -- every row comes from a row with the same key and the same value in the column
  have hold : ∀ a ∈ t.updateWhere p f, ∃ x ∈ t, x.id = a.id ∧ column x.row = column a.row := by
    intro a ha
    rcases Table.mem_updateWhere.mp ha with ⟨ha, -⟩ | ⟨x, hx, hp, rfl⟩
    · exact ⟨a, ha, rfl, rfl⟩
    · exact ⟨x, hx, rfl, (hf x hx hp).symm⟩
  intro a ha b hb hkey hne
  obtain ⟨x, hx, hxid, hxcol⟩ := hold a ha
  obtain ⟨y, hy, hyid, hycol⟩ := hold b hb
  rw [← hxid, ← hyid]
  exact h x hx y hy (by rw [hxcol, hycol, hkey]) (by rwa [hxcol])

/-- A new row whose value is not in use keeps the column unique. -/
theorem Unique.insert (h : Unique column t) {row : α}
    (hnew : ∀ e ∈ t, column row ≠ none → column e.row ≠ column row) :
    Unique column (t.insert row) := by
  intro a ha b hb hkey hne
  rcases Table.mem_insert.mp ha with ha | rfl <;> rcases Table.mem_insert.mp hb with hb | rfl
  · exact h a ha b hb hkey hne
  · exact absurd hkey (hnew a ha (hkey ▸ hne))
  · exact absurd hkey.symm (hnew b hb hne)
  · rfl

variable {link : α → Option ℕ} {target : Table β} {q : Entry β → Bool}

variable (h : References link t target)

include h

theorem References.deleteWhere : References link (t.deleteWhere p) target :=
  fun a ha => h a (mem_of_mem_filter ha)

theorem References.updateWhere {f : α → α}
    (hf : ∀ e ∈ t, p e = true → link (f e.row) = link e.row) :
    References link (t.updateWhere p f) target := by
  intro a ha n hn
  rcases Table.mem_updateWhere.mp ha with ⟨ha, -⟩ | ⟨x, hx, hp, rfl⟩
  · exact h a ha n hn
  · rw [hf x hx hp] at hn
    exact h x hx n hn

theorem References.insert {row : α} (hnew : ∀ n ∈ link row, n ∈ target.ids) :
    References link (t.insert row) target := by
  intro a ha n hn
  rcases Table.mem_insert.mp ha with ha | rfl
  · exact h a ha n hn
  · exact hnew n hn

theorem References.target_insert {row : β} : References link t (target.insert row) := by
  intro a ha n hn
  obtain ⟨e, he, hid⟩ := Table.mem_ids.mp (h a ha n hn)
  exact Table.mem_ids.mpr ⟨e, Table.mem_insert.mpr (.inl he), hid⟩

/-- Rows that nothing refers to can be deleted. -/
theorem References.target_deleteWhere
    (hfree : ∀ a ∈ t, ∀ e ∈ target, link a.row = some e.id → q e = false) :
    References link t (target.deleteWhere q) := by
  intro a ha n hn
  obtain ⟨e, he, rfl⟩ := Table.mem_ids.mp (h a ha n hn)
  exact Table.mem_ids.mpr ⟨e, Table.mem_deleteWhere.mpr ⟨he, hfree a ha e he hn⟩, rfl⟩

theorem References.target_updateWhere {f : β → β} : References link t (target.updateWhere q f) := by
  intro a ha n hn
  rw [Table.ids_updateWhere]
  exact h a ha n hn

end Constraints

end QModem.Lib
