import Mathlib.Data.List.Pairwise
import Mathlib.Order.Basic
import Mathlib.Algebra.Order.Ring.Int

namespace TableLib

/-!
# Tables with an auto-increment key

A relational table whose key is handed out by a counter that never goes back, not even when rows
are deleted.  The structure carries its invariant: keys increase along the rows, and the counter
is at least every key in use.  So a key identifies a row (`Table.eq_of_mem`), and a fresh key has
never been used (`Table.lt_nextId`).

* `Table.insert` / `Table.update` / `Table.deleteAll` / `Table.deleteWhere` — the writes;
* `Table.get?` / `Table.find?` — lookup by key and by content;
* `Table.FromOne` — the counter started at zero: every write keeps it.
-/

/-- Rows with their keys, in key order, and the largest key ever handed out.  The order is a
    field, so every table has it. -/
structure Table (α : Type) where
  rows : List (Int × α)
  seq : Int
  sorted : rows.Pairwise (fun r r' => r.1 < r'.1)
  bound : ∀ r ∈ rows, r.1 ≤ seq

namespace Table

variable {α : Type}

/-- A table that has never held a row. -/
def empty : Table α := { rows := [], seq := 0, sorted := List.Pairwise.nil, bound := by simp }

/-- The key the next row gets.  It lies above every key that was ever handed out, whether or not
    its row is still there. -/
def nextId (t : Table α) : Int := t.seq + 1

/-- Append a row under the next key, which the counter then stands at. -/
def insert (t : Table α) (a : α) : Table α where
  rows := t.rows ++ [(t.nextId, a)]
  seq := t.nextId
  sorted := by
    rw [List.pairwise_append]
    refine ⟨t.sorted, List.pairwise_singleton _ _, ?_⟩
    intro r hr r' hr'
    obtain rfl := List.mem_singleton.mp hr'
    exact Int.lt_add_one_of_le (t.bound r hr)
  bound := by
    intro r hr
    rcases List.mem_append.mp hr with hr | hr
    · exact le_of_lt (Int.lt_add_one_of_le (t.bound r hr))
    · obtain rfl := List.mem_singleton.mp hr
      exact le_refl _

/-- Rewrite every row in place; a row that the function leaves alone stays as it is. -/
def update (t : Table α) (f : Int → α → α) : Table α where
  rows := t.rows.map fun r => (r.1, f r.1 r.2)
  seq := t.seq
  sorted := by
    rw [List.pairwise_map]
    exact t.sorted
  bound := by
    intro r hr
    obtain ⟨r', hr', rfl⟩ := List.mem_map.mp hr
    exact t.bound r' hr'

/-- Delete every row; the counter stays, so that no key is handed out a second time. -/
def deleteAll (t : Table α) : Table α where
  rows := []
  seq := t.seq
  sorted := List.Pairwise.nil
  bound := by simp

/-- Delete the rows with a given content.  The others keep their keys and their order. -/
def deleteWhere (t : Table α) (p : α → Bool) : Table α where
  rows := t.rows.filter fun r => !p r.2
  seq := t.seq
  sorted := t.sorted.filter _
  bound := fun r hr => t.bound r (List.mem_filter.mp hr).1

/-- The row under a key. -/
def get? (t : Table α) (id : Int) : Option α :=
  (t.rows.find? fun r => r.1 == id).map Prod.snd

/-- The key of the first row with a given content, which is the row with the least key. -/
def find? (t : Table α) (p : α → Bool) : Option Int :=
  (t.rows.find? fun r => p r.2).map Prod.fst

/-! ### Membership -/

/-- A new table has no rows. -/
@[simp] theorem rows_empty : (empty : Table α).rows = [] := rfl

/-- Nor has one that was emptied, whose next id is another. -/
@[simp] theorem rows_deleteAll (t : Table α) : t.deleteAll.rows = [] := rfl

/-- An update goes over the rows where they are. -/
@[simp] theorem rows_update (t : Table α) (f : Int → α → α) :
    (t.update f).rows = t.rows.map fun r => (r.1, f r.1 r.2) := rfl

/-- A row is inserted behind the others, under the next id. -/
@[simp] theorem rows_insert (t : Table α) (a : α) :
    (t.insert a).rows = t.rows ++ [(t.nextId, a)] := rfl

/-- After an insertion a row is an old one or the new one. -/
theorem mem_insert {t : Table α} {a x : α} {id : Int} :
    (id, x) ∈ (t.insert a).rows ↔ (id, x) ∈ t.rows ∨ (id = t.nextId ∧ x = a) := by
  rw [rows_insert, List.mem_append, List.mem_singleton, Prod.mk.injEq]

/-- After an update each row comes from one with its id. -/
theorem mem_update {t : Table α} {f : Int → α → α} {x : α} {id : Int} :
    (id, x) ∈ (t.update f).rows ↔ ∃ y, (id, y) ∈ t.rows ∧ x = f id y := by
  rw [rows_update, List.mem_map]
  constructor
  · rintro ⟨⟨id', y⟩, hmem, heq⟩
    obtain ⟨rfl, rfl⟩ := Prod.mk.inj heq
    exact ⟨y, hmem, rfl⟩
  · rintro ⟨y, hmem, rfl⟩
    exact ⟨(id, y), hmem, rfl⟩

/-- A key in use is smaller than the next one, so an insertion never meets it. -/
theorem lt_nextId {t : Table α} {r : Int × α} (h : r ∈ t.rows) : r.1 < t.nextId :=
  Int.lt_add_one_of_le (t.bound r h)

/-- A key identifies its row: the keys are in strict order. -/
theorem eq_of_mem {t : Table α} {id : Int} {x y : α} (hx : (id, x) ∈ t.rows)
    (hy : (id, y) ∈ t.rows) : x = y := by
  by_contra hne
  have hrow : (id, x) ≠ (id, y) := fun h => hne (Prod.mk.inj h).2
  have hlt : (id, x).1 < (id, y).1 ∨ (id, y).1 < (id, x).1 := by
    obtain ⟨i, hi, hxi⟩ := List.getElem_of_mem hx
    obtain ⟨j, hj, hyj⟩ := List.getElem_of_mem hy
    have hij : i ≠ j := by
      rintro rfl
      exact hrow (hxi.symm.trans hyj)
    rcases lt_or_gt_of_ne hij with h | h
    · exact Or.inl (hxi ▸ hyj ▸ List.pairwise_iff_getElem.mp t.sorted i j hi hj h)
    · exact Or.inr (hxi ▸ hyj ▸ List.pairwise_iff_getElem.mp t.sorted j i hj hi h)
  rcases hlt with h | h <;> exact lt_irrefl _ h

/-- The row under a key is the one row with that key. -/
theorem get?_eq_some {t : Table α} {id : Int} {x : α} : t.get? id = some x ↔ (id, x) ∈ t.rows := by
  unfold get?
  rw [Option.map_eq_some_iff]
  constructor
  · rintro ⟨⟨id', y⟩, hfind, rfl⟩
    have hid : id' = id := by simpa using List.find?_some hfind
    exact hid ▸ List.mem_of_find?_eq_some hfind
  · intro hmem
    obtain ⟨r, hr⟩ := Option.isSome_iff_exists.mp
      (List.find?_isSome (p := fun r => r.1 == id) |>.mpr ⟨(id, x), hmem, beq_self_eq_true id⟩)
    have hid : r.1 = id := by simpa using List.find?_some hr
    refine ⟨r, hr, eq_of_mem ?_ hmem⟩
    exact hid ▸ List.mem_of_find?_eq_some hr

/-- No row of a table without keys. -/
theorem get?_eq_none {t : Table α} {id : Int} : t.get? id = none ↔ ∀ x, (id, x) ∉ t.rows := by
  rw [Option.eq_none_iff_forall_ne_some]
  exact forall_congr' fun x => not_congr get?_eq_some

/-- Looking up in a table whose rows are another's, rewritten under their keys, is looking up
    there and rewriting. -/
theorem get?_of_rows {β : Type} {t : Table α} {u : Table β} {f : Int → α → β}
    (h : u.rows = t.rows.map fun r => (r.1, f r.1 r.2)) (id : Int) :
    u.get? id = (t.get? id).map (f id) := by
  cases hget : t.get? id with
  | none =>
    rw [get?_eq_none] at hget
    rw [Option.map_none, get?_eq_none]
    intro y hy
    rw [h] at hy
    obtain ⟨r, hr, heq⟩ := List.mem_map.mp hy
    exact hget r.2 ((Prod.mk.inj heq).1 ▸ hr)
  | some x =>
    rw [get?_eq_some] at hget
    rw [Option.map_some, get?_eq_some, h]
    exact List.mem_map_of_mem hget

/-- An update is seen under the id of each row. -/
theorem get?_update (t : Table α) (f : Int → α → α) (id : Int) :
    (t.update f).get? id = (t.get? id).map (f id) := get?_of_rows rfl id

/-- The new row under the new key. -/
theorem get?_insert_self (t : Table α) (a : α) : (t.insert a).get? t.nextId = some a :=
  get?_eq_some.mpr (mem_insert.mpr (Or.inr ⟨rfl, rfl⟩))

/-- The old rows under the old keys. -/
theorem get?_insert_ne (t : Table α) (a : α) {id : Int} (h : id ≠ t.nextId) :
    (t.insert a).get? id = t.get? id := by
  refine Option.ext fun x => ?_
  rw [get?_eq_some, get?_eq_some, mem_insert]
  exact or_iff_left fun hnew => h hnew.1

/-- The next id is free. -/
theorem get?_nextId (t : Table α) : t.get? t.nextId = none :=
  get?_eq_none.mpr fun _ hmem => lt_irrefl _ (lt_nextId hmem)

/-- The keys identify the rows. -/
theorem nodup_keys (t : Table α) : (t.rows.map Prod.fst).Nodup :=
  List.pairwise_map.mpr (t.sorted.imp fun hlt => hlt.ne)

/-- What the rows of one key contribute is what the row under it does. -/
theorem flatMap_key {β : Type} (t : Table α) (id : Int) (f : α → List β) :
    (t.rows.flatMap fun r => if r.1 = id then f r.2 else []) = ((t.get? id).map f).getD [] := by
  have hother : ∀ rows : List (Int × α), (∀ r ∈ rows, r.1 ≠ id) →
      (rows.flatMap fun r => if r.1 = id then f r.2 else []) = [] := by
    intro rows hrows
    exact List.flatMap_eq_nil_iff.mpr fun r hr => if_neg (hrows r hr)
  cases hget : t.get? id with
  | none => exact hother _ fun r hr heq => get?_eq_none.mp hget r.2 (heq ▸ hr)
  | some x =>
    -- the rows before and after the key's own have other keys
    obtain ⟨before, after, hrows⟩ := List.append_of_mem (get?_eq_some.mp hget)
    have hkeys := t.nodup_keys
    rw [hrows, List.map_append, List.map_cons, List.nodup_append, List.nodup_cons] at hkeys
    obtain ⟨-, ⟨hafter, -⟩, hbefore⟩ := hkeys
    rw [hrows, List.flatMap_append, List.flatMap_cons, if_pos rfl, hother before, hother after,
      List.append_nil]
    · rfl
    · exact fun r hr heq => hafter (List.mem_map.mpr ⟨r, hr, heq⟩)
    · exact fun r hr => hbefore _ (List.mem_map_of_mem hr) _ List.mem_cons_self

/-! ### Counting from one -/

/-- The counter started at zero: every key is positive.  A position of zero then lies in front of
    every row. -/
structure FromOne (t : Table α) : Prop where
  seq : 0 ≤ t.seq
  rows : ∀ r ∈ t.rows, 0 < r.1

/-- There is no id to check in a new table. -/
theorem FromOne.empty : (Table.empty : Table α).FromOne :=
  ⟨le_refl 0, fun _ hr => absurd hr List.not_mem_nil⟩

/-- The next id of such a table is positive. -/
theorem FromOne.insert {t : Table α} (h : t.FromOne) (a : α) : (t.insert a).FromOne := by
  have hnext : 0 < t.nextId := Int.lt_add_one_of_le h.seq
  refine ⟨hnext.le, fun r hr => ?_⟩
  rcases List.mem_append.mp hr with hr | hr
  · exact h.rows r hr
  · rw [List.mem_singleton.mp hr]
    exact hnext

/-- An update leaves the ids alone. -/
theorem FromOne.update {t : Table α} (h : t.FromOne) (f : Int → α → α) : (t.update f).FromOne := by
  refine ⟨h.seq, fun r hr => ?_⟩
  obtain ⟨r, hold, rfl⟩ := List.mem_map.mp hr
  exact h.rows r hold

/-- So does emptying the table. -/
theorem FromOne.deleteAll {t : Table α} (h : t.FromOne) : t.deleteAll.FromOne :=
  ⟨h.seq, fun _ hr => absurd hr List.not_mem_nil⟩

end Table

end TableLib
