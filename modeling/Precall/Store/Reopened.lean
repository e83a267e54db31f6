import Precall.Lib.Runs
import Precall.Store.Scan

namespace Precall.Store

open ByteLib TableLib

/-!
# One vector file under several widths

A `si_*` file outlives the process and its configured width (`precall-store/src/semantic.rs`).  Here
is a file under any sequence of opens, inserts and clears, complete or torn by a crash, next to the
list of what was inserted since the last clear and at which width.

* `SiFile.step` — the operations on the file and the handle the process holds;
* `Written.step` — what has been inserted since the last clear, read off the operations;
* `stands_step` — the file stands for that list;
* `hasItem_found_iff` — `has_item` means searchable exactly if the item was not inserted, or was
  inserted at the width of the open handle.
-/

/-! ### The file -/

/-- Operations on one file.  A torn one is cut short by a crash: an insert after some of its three
    rows, a clear after some of its three statements. -/
inductive SiOp where
  | opens (dim : Nat) (spaceId : String)
  | insert (itemId : Bytes) (regionId metadataJson : Option String) (embedding : List F32)
  | tornInsert (rows : Nat) (itemId : Bytes) (embedding : List F32)
  | clear
  | tornClear (statements : Nat)
  deriving DecidableEq, Repr

namespace SiDb

/-- The second row of an insert: the vector, which nothing links yet. -/
def insertGraph (db : SiDb) (embedding : List F32) : SiDb where
  items := db.items
  graph := db.graph.insert (f32sToBytes embedding)
  metadata := db.metadata
  info := db.info
  linked := fun m hm => le_of_lt (Int.lt_add_one_of_le (db.linked m hm))

/-- An insert that ends before its last row.  The transaction of the code takes the first rows
    back; the model is the worse case, in which they stay. -/
def tornInsert (db : SiDb) (rows : Nat) (itemId : Bytes) (embedding : List F32) : SiDb :=
  match rows with
  | 0 => db
  | 1 => db.insertItem itemId
  | _ => (db.insertItem itemId).insertGraph embedding

/-- `SemanticIndex::clear`. -/
def clear (db : SiDb) : SiDb := db.clearMetadata.clearGraph.clearItems

/-- A clear that ends before its last statement; each of its statements commits by itself. -/
def tornClear (db : SiDb) (statements : Nat) : SiDb :=
  match statements with
  | 0 => db
  | 1 => db.clearMetadata
  | _ => db.clearMetadata.clearGraph

end SiDb

/-- A file and the width of the handle that is open on it, if there is one. -/
structure SiFile where
  db : SiDb
  handle : Option Nat

/-- A file that does not exist yet. -/
def SiFile.new : SiFile where
  db := SiDb.new
  handle := none

/-- One operation; without a handle only an open does anything, and a crash takes the handle but
    not the file. -/
def SiFile.step (s : SiFile) (op : SiOp) : SiFile :=
  match op with
  | .opens dim spaceId => { db := s.db.ensureInfo dim spaceId, handle := some dim }
  | .insert itemId regionId metadataJson embedding => match s.handle with
    | none => s
    | some dim => match s.db.insert dim itemId regionId metadataJson embedding with
      | .ok (db, _) => { s with db := db }
      | .error _ => s
  | .tornInsert rows itemId embedding => match s.handle with
    | none => s
    | some dim =>
        if embedding.length ≠ dim ∨ itemId.length ≠ 16 then s
        else { db := s.db.tornInsert rows itemId embedding, handle := none }
  | .clear => match s.handle with
    | none => s
    | some _ => { s with db := s.db.clear }
  | .tornClear statements => match s.handle with
    | none => s
    | some _ => { db := s.db.tornClear statements, handle := none }

/-! ### What was inserted -/

/-- The width of the open handle, and the item and the width of every insert since the last
    clear. -/
structure Written where
  handle : Option Nat
  live : List (Bytes × Nat)
  deriving DecidableEq, Repr

/-- Nothing yet. -/
def Written.none : Written where
  handle := Option.none
  live := []

/-- What an operation adds or forgets.  A clear forgets with its first statement; a torn insert adds
    nothing. -/
def Written.step (w : Written) (op : SiOp) : Written :=
  match op, w.handle with
  | .opens dim _, _ => { w with handle := some dim }
  | _, Option.none => w
  | .insert itemId _ _ embedding, some dim =>
      if embedding.length ≠ dim ∨ itemId.length ≠ 16 then w
      else { w with live := w.live ++ [(itemId, dim)] }
  | .tornInsert _ itemId embedding, some dim =>
      if embedding.length ≠ dim ∨ itemId.length ≠ 16 then w else { w with handle := Option.none }
  | .clear, some _ => { w with live := [] }
  | .tornClear statements, some _ =>
      { handle := Option.none, live := if statements = 0 then w.live else [] }

/-- The inserts since the last clear, in a sequence of operations on a new file: item and width
    of each that was completed. -/
def inserted (ops : List SiOp) : List (Bytes × Nat) := (Runs.run Written.step Written.none ops).live

/-! ### The file stands for the list -/

namespace SiDb

/-- A vector no metadata row links is not searchable. -/
theorem searchable_insertGraph (db : SiDb) (embedding : List F32) :
    (db.insertGraph embedding).searchable = db.searchable := by
  have hsplit : (db.insertGraph embedding).searchable
      = (db.graph.rows ++ [(db.graph.nextId, f32sToBytes embedding)]).flatMap fun g =>
          (db.metadata.rows.filter fun m => m.2.embeddingId == g.1).map fun m =>
            ⟨g.2, m.2.itemId, m.2.regionId⟩ := rfl
  rw [hsplit, List.flatMap_append, List.flatMap_singleton, filter_nextId, List.map_nil,
    List.append_nil]
  rfl

/-- Rows of an insertion that was torn are found by no search: the vector comes last. -/
theorem searchable_tornInsert (db : SiDb) (rows : Nat) (itemId : Bytes) (embedding : List F32) :
    (db.tornInsert rows itemId embedding).searchable = db.searchable := by
  match rows with
  | 0 => rfl
  | 1 => rfl
  | _ + 2 => exact searchable_insertGraph (db.insertItem itemId) embedding

/-- The stamp of a store is no vector. -/
theorem searchable_ensureInfo (db : SiDb) (dim : Nat) (spaceId : String) :
    (db.ensureInfo dim spaceId).searchable = db.searchable := by
  unfold ensureInfo
  split <;> rfl

/-- Every linked vector's item has its row, so `has_item` asks nothing that a search would not. -/
def ItemsKnown (db : SiDb) : Prop := ∀ m ∈ db.metadata.rows, m.2.itemId ∈ db.items

/-- After `INSERT OR IGNORE` an item is there, and no other is gone or new. -/
theorem mem_insertItem {db : SiDb} {itemId item : Bytes} :
    item ∈ (db.insertItem itemId).items ↔ item ∈ db.items ∨ item = itemId := by
  show item ∈ (if itemId ∈ db.items then db.items else db.items ++ [itemId]) ↔ _
  split
  · rename_i hmem
    exact ⟨Or.inl, fun h => h.elim id fun heq => heq ▸ hmem⟩
  · rw [List.mem_append, List.mem_singleton]

/-- An insertion that was torn leaves the items of all vectors known. -/
theorem ItemsKnown.tornInsert {db : SiDb} (h : db.ItemsKnown) {rows : Nat} {itemId : Bytes}
    {embedding : List F32} : (db.tornInsert rows itemId embedding).ItemsKnown := by
  have hitem : (db.insertItem itemId).ItemsKnown := fun m hm => mem_insertItem.mpr (Or.inl (h m hm))
  match rows with
  | 0 => exact h
  | 1 => exact hitem
  | _ + 2 => exact hitem

end SiDb

/-- The file stands for a list of inserts: its searchable vectors are those, at those widths, and
    the handle is the one that is open. -/
structure Stands (s : SiFile) (w : Written) : Prop where
  handle : s.handle = w.handle
  live : (s.db.searchable.map fun r => (r.itemId, (bytesToF32s r.embedding).length)) = w.live
  items : s.db.ItemsKnown

/-- A new file stands for nothing written. -/
theorem stands_new : Stands SiFile.new Written.none where
  handle := rfl
  live := rfl
  items := nofun

/-- An insert under an open handle changes the file if the embedding has the handle's width and the
    id is 16 bytes, and nothing otherwise. -/
theorem step_insert_some (db : SiDb) (dim : Nat) (itemId : Bytes)
    (regionId metadataJson : Option String) (embedding : List F32) :
    (SiFile.mk db (some dim)).step (.insert itemId regionId metadataJson embedding)
      = if embedding.length ≠ dim ∨ itemId.length ≠ 16 then ⟨db, some dim⟩
        else ⟨db.insertRows itemId regionId metadataJson embedding, some dim⟩ := by
  unfold SiFile.step SiDb.insert
  by_cases hwidth : embedding.length ≠ dim
  · simp only [if_pos hwidth, if_pos (Or.inl hwidth)]
  · by_cases hid : itemId.length ≠ 16
    · simp only [if_neg hwidth, if_pos hid, if_pos (Or.inr hid)]
    · simp only [if_neg hwidth, if_neg hid, if_neg (not_or.mpr ⟨hwidth, hid⟩)]

/-- An open adds and drops no vector. -/
theorem Stands.opens {db : SiDb} {handle : Option Nat} {w : Written} (h : Stands ⟨db, handle⟩ w)
    (dim : Nat) (spaceId : String) :
    Stands ⟨db.ensureInfo dim spaceId, some dim⟩ { w with handle := some dim } where
  handle := rfl
  live := by
    rw [SiDb.searchable_ensureInfo]
    exact h.live
  items := by
    unfold SiDb.ensureInfo
    split <;> exact h.items

/-- An insert that goes through adds its vector at the end. -/
theorem Stands.insertRows {db : SiDb} {dim : Nat} {live : List (Bytes × Nat)}
    (h : Stands ⟨db, some dim⟩ ⟨some dim, live⟩) {itemId : Bytes} {embedding : List F32}
    (hwidth : embedding.length = dim) (regionId metadataJson : Option String) :
    Stands ⟨db.insertRows itemId regionId metadataJson embedding, some dim⟩
      ⟨some dim, live ++ [(itemId, dim)]⟩ where
  handle := rfl
  live := by
    -- the row is the last of the join, at the width the bytes have
    have hlive : List.map _ db.searchable = live := h.live
    rw [SiDb.searchable_insertRows, List.map_append, hlive, List.map_singleton,
      bytesToF32s_f32sToBytes, hwidth]
  items := by
    intro m hm
    refine SiDb.mem_insertItem.mpr ?_
    rcases List.mem_append.mp hm with hm | hm
    · exact Or.inl (h.items m hm)
    · obtain rfl := List.mem_singleton.mp hm
      exact Or.inr rfl

/-- A torn insert adds no searchable vector. -/
theorem Stands.tornInsert {db : SiDb} {handle : Option Nat} {w : Written}
    (h : Stands ⟨db, handle⟩ w) (rows : Nat) (itemId : Bytes) (embedding : List F32) :
    Stands ⟨db.tornInsert rows itemId embedding, none⟩ { w with handle := none } where
  handle := rfl
  live := by
    rw [SiDb.searchable_tornInsert]
    exact h.live
  items := h.items.tornInsert

/-- Without metadata rows nothing is searchable. -/
theorem stands_of_metadata_nil {db : SiDb} (hrows : db.metadata.rows = []) (handle : Option Nat) :
    Stands ⟨db, handle⟩ ⟨handle, []⟩ where
  handle := rfl
  live := by rw [SiDb.searchable_eq_nil hrows, List.map_nil]
  items := by
    intro m hm
    rw [hrows] at hm
    cases hm

/-- **One step.** Whatever is done to the file, it stands for the list afterwards, torn
    operations included. -/
theorem stands_step (s : SiFile) (w : Written) (op : SiOp) (h : Stands s w) :
    Stands (s.step op) (w.step op) := by
  obtain ⟨db, handle⟩ := s
  obtain ⟨handle', live⟩ := w
  obtain rfl : handle = handle' := h.handle
  cases op with
  | opens dim spaceId => exact h.opens dim spaceId
  | insert itemId regionId metadataJson embedding =>
    cases handle with
    | none => exact h
    | some dim =>
      rw [step_insert_some]
      show Stands _ (if _ then _ else _)
      split
      · exact h
      · rename_i hdone
        exact h.insertRows (not_not.mp (not_or.mp hdone).1) regionId metadataJson
  | tornInsert rows itemId embedding =>
    cases handle with
    | none => exact h
    | some dim =>
      show Stands (if _ then _ else _) (if _ then _ else _)
      split
      · exact h
      -- the crash takes the handle, whatever rows were written
      · exact h.tornInsert rows itemId embedding
  | clear =>
    cases handle with
    | none => exact h
    | some dim => exact stands_of_metadata_nil rfl (some dim)
  | tornClear statements =>
    cases handle with
    | none => exact h
    | some dim =>
      match statements with
      -- from the first statement on no row links a vector any more
      | 0 => exact ⟨rfl, h.live, h.items⟩
      | 1 => exact stands_of_metadata_nil rfl none
      | _ + 2 => exact stands_of_metadata_nil rfl none

/-! ### The guard and the search -/

/-- `has_item` finds an item exactly if it is in the list, at whatever width: it never looks at
    the vector. -/
theorem Stands.hasItem_iff {s : SiFile} {w : Written} (h : Stands s w) {itemId : Bytes} :
    s.db.hasItem itemId = true ↔ ∃ width, (itemId, width) ∈ w.live := by
  rw [SiDb.hasItem_iff, ← h.live]
  constructor
  · rintro ⟨-, r, hr, rfl⟩
    exact ⟨_, List.mem_map_of_mem hr⟩
  · rintro ⟨width, hmem⟩
    obtain ⟨r, hr, heq⟩ := List.mem_map.mp hmem
    obtain ⟨rfl, -⟩ := Prod.mk.inj heq
    obtain ⟨m, hm, hitem⟩ := SiDb.exists_metadata_of_searchable hr
    exact ⟨hitem ▸ h.items m hm, r, hr, rfl⟩

section
variable [VectorArith]

/-- An unfiltered search on the open handle returns a hit for an item, for a query of the
    handle's width. -/
def SiFile.Found (s : SiFile) (query : List F32) (k : Nat) (itemId : Bytes) : Prop :=
  ∃ dim hits, s.handle = some dim ∧ s.db.search dim query k none = .ok hits ∧
    ∃ h ∈ hits, h.itemId = itemId

/-- A search of the whole file finds an item exactly if it is in the list at the handle's width:
    a vector of another is skipped by the scan. -/
theorem Stands.found_iff {s : SiFile} {w : Written} (h : Stands s w) {dim : Nat}
    (hopen : s.handle = some dim) {query : List F32} (hquery : query.length = dim) {k : Nat}
    (hk : s.db.searchable.length ≤ k) {itemId : Bytes} :
    s.Found query k itemId ↔ (itemId, dim) ∈ w.live := by
  have hhits : ∀ hit, hit ∈ (s.db.ranking dim query none).take k ↔
      ∃ r ∈ s.db.searchable, (bytesToF32s r.embedding).length = dim ∧ hitOf query r = hit := by
    intro hit
    rw [List.take_of_length_le (le_trans (SiDb.length_ranking_le none) hk),
      (SiDb.ranking_perm s.db dim query none).mem_iff, List.mem_map]
    simp only [SiDb.scanned, allowedItem, Bool.true_and, List.mem_filter, beq_iff_eq, and_assoc]
  rw [← h.live]
  constructor
  · rintro ⟨dim', hits, hopen', hsearch, hit, hhit, rfl⟩
    obtain rfl := Option.some.inj (hopen.symm.trans hopen')
    rw [SiDb.search_eq hquery] at hsearch
    obtain rfl := Except.ok.inj hsearch
    obtain ⟨r, hr, hwidth, rfl⟩ := (hhits hit).mp hhit
    exact List.mem_map.mpr ⟨r, hr, Prod.ext rfl hwidth⟩
  · intro hmem
    obtain ⟨r, hr, heq⟩ := List.mem_map.mp hmem
    obtain ⟨hitem, hwidth⟩ := Prod.mk.inj heq
    exact ⟨dim, _, hopen, SiDb.search_eq hquery k none, hitOf query r,
      (hhits _).mpr ⟨r, hr, hwidth, rfl⟩, hitem⟩

/-- **When `has_item` means searchable.**  After any operations on a new file, with a handle of some
    width open: `has_item` agrees with an unfiltered search of that width on an item exactly if,
    since the last clear, the item was not inserted or was inserted at that width. -/
theorem hasItem_found_iff (ops : List SiOp) {dim : Nat}
    (hopen : (Runs.run SiFile.step SiFile.new ops).handle = some dim) {query : List F32}
    (hquery : query.length = dim) {k : Nat}
    (hk : (Runs.run SiFile.step SiFile.new ops).db.searchable.length ≤ k) (itemId : Bytes) :
    ((Runs.run SiFile.step SiFile.new ops).db.hasItem itemId = true ↔
        (Runs.run SiFile.step SiFile.new ops).Found query k itemId) ↔
      (∀ width, (itemId, width) ∉ inserted ops) ∨ (itemId, dim) ∈ inserted ops := by
  have h : Stands (Runs.run SiFile.step SiFile.new ops) (Runs.run Written.step Written.none ops) :=
    Runs.run_related stands_step stands_new ops
  rw [h.hasItem_iff, h.found_iff hopen hquery hk]
  show ((∃ width, (itemId, width) ∈ inserted ops) ↔ (itemId, dim) ∈ inserted ops) ↔ _
  constructor
  · intro hagree
    by_cases hin : ∃ width, (itemId, width) ∈ inserted ops
    · exact Or.inr (hagree.mp hin)
    · exact Or.inl (not_exists.mp hin)
  · rintro (hnone | hmem)
    · exact ⟨fun ⟨width, hin⟩ => absurd hin (hnone width), fun hin => ⟨dim, hin⟩⟩
    · exact ⟨fun _ => hmem, fun hin => ⟨dim, hin⟩⟩

end

/-! ### A changed width -/

section

attribute [local instance] equalArith

/-- One vector of width 1; then the file is opened with width 2, which leaves the vector and its
    stamp. -/
def widened : List SiOp :=
  [.opens 1 "A", .insert (itemIdForCapture 7) none none [5], .opens 2 "A"]

/-- The guard calls the item done, and no search at the open width returns it. -/
theorem hasItem_widened :
    (Runs.run SiFile.step SiFile.new widened).handle = some 2 ∧
      (Runs.run SiFile.step SiFile.new widened).db.hasItem (itemIdForCapture 7) = true ∧
      (Runs.run SiFile.step SiFile.new widened).db.search 2 [5, 5] 1 none = .ok [] ∧
      (Runs.run SiFile.step SiFile.new widened).db.searchable.length = 1 := by
  refine ⟨rfl, ?_, ?_, ?_⟩ <;> decide +kernel

/-- Once the item is inserted again, at the width that is open, they agree. -/
theorem hasItem_found_again :
    (Runs.run SiFile.step SiFile.new
        (widened ++ [.insert (itemIdForCapture 7) none none [5, 5]])).db.hasItem
          (itemIdForCapture 7) = true ↔
      (Runs.run SiFile.step SiFile.new
        (widened ++ [.insert (itemIdForCapture 7) none none [5, 5]])).Found [5, 5] 2
          (itemIdForCapture 7) :=
  (hasItem_found_iff (widened ++ [.insert (itemIdForCapture 7) none none [5, 5]]) rfl rfl
    (by decide +kernel) (itemIdForCapture 7)).mpr (Or.inr (by decide +kernel))

end

end Precall.Store
