import Mathlib.Data.List.Sort
import Precall.Lib.Bytes
import Precall.Lib.Table

namespace Precall.Store

open ByteLib TableLib

/-!
# `si_*` — a semantic vector store

`SemanticTextStore.db` and `SemanticImageStore.db` (`precall-store/src/semantic.rs`): vectors in
`si_diskann_graph`, keyed by an auto-increment id; metadata rows that link a vector to its item;
the items; and one info row with the width and the label of the embedding space.

A vector is *searchable* when a metadata row links it (`SiDb.searchable`).  The structure carries
the fact the join rests on: no metadata row refers to an id the graph has not handed out yet, so
a new vector cannot be adopted by an old row (`searchable_insertRows`).

32-bit floats are their bit patterns; the two sums a scan computes are parameters.
-/

/-- A 32-bit float, as its bits; what is computed with it is a parameter of the model, how it
    compares is not. -/
abbrev F32 := UInt32

/-- Placeholder label of a store not yet filled by a successful embedding; every query is let
    through to such a store. -/
def spaceUnknown : String := "unknown"

/-- `SemanticError` — why a vector store refuses a call; errors of SQLite are not among them. -/
inductive SemanticError where
  | dimMismatch (expected got : Nat)
  | badItemId
  deriving DecidableEq, Repr

/-- The row of `si_diskann_info`: the width of the vectors and the label of their space. -/
structure SiInfo where
  dimension : Nat
  vectorSpaceId : Option String
  deriving DecidableEq, Repr

/-- A row of the table that ties a vector to its item and, for a part of one, to its region. -/
structure SiMetadata where
  embeddingId : Int
  itemId : Bytes
  regionId : Option String
  metadataJson : Option String
  deriving DecidableEq, Repr

/-- The state of one `si_*` database: items, vectors, the rows that link them, and the stamp.
    The last field is what the foreign key and the running ids give: no row links a vector that
    is still to come. -/
structure SiDb where
  items : List Bytes
  graph : Table Bytes
  metadata : Table SiMetadata
  info : Option SiInfo
  linked : ∀ m ∈ metadata.rows, m.2.embeddingId ≤ graph.seq

/-- A vector as the scan sees it: its blob, its item and its region. -/
structure Searchable where
  embedding : Bytes
  itemId : Bytes
  regionId : Option String
  deriving DecidableEq, Repr

/-! ### Vectors and items -/

/-- The bytes of a vector, four for each of its numbers, as the blob holds them. -/
def f32sToBytes (v : List F32) : Bytes := v.flatMap fun f => toLe 4 f.toNat

/-- The numbers of a blob, from whole four-byte groups; a trailing partial group is dropped, as
    `chunks_exact` drops it. -/
def bytesToF32s : Bytes → List F32
  | a :: b :: c :: d :: rest => UInt32.ofNat (ofLe [a, b, c, d]) :: bytesToF32s rest
  | _ => []

/-- A vector survives its blob, bit for bit. -/
@[simp] theorem bytesToF32s_f32sToBytes (v : List F32) : bytesToF32s (f32sToBytes v) = v := by
  induction v with
  | nil => rfl
  | cons f v ih =>
    have hword : ofLe (toLe 4 f.toNat) = f.toNat := ofLe_toLe_of_lt f.toNat_lt
    have hcons : bytesToF32s (f32sToBytes (f :: v))
        = UInt32.ofNat (ofLe (toLe 4 f.toNat)) :: bytesToF32s (f32sToBytes v) := rfl
    rw [hcons, ih, hword, UInt32.ofNat_toNat]

/-- `SemanticIndex::item_id_for_capture` — the id in the upper half of a 16-byte buffer. -/
def itemIdForCapture (captureId : Int) : Bytes :=
  List.replicate 8 0 ++ toLe 8 (captureId % 2 ^ 64).toNat

/-- `SemanticIndex::capture_id_for_item` — `none` unless the buffer has sixteen bytes of which
    the first half is zero; the upper half is read as an `i64`. -/
def captureIdForItem (itemId : Bytes) : Option Int :=
  if itemId.length ≠ 16 ∨ (itemId.take 8).any (· ≠ 0) then none
  else some (UInt64.ofNat (ofLe (itemId.drop 8))).toInt64.toInt

/-- An item id has the length of a UUID. -/
@[simp] theorem length_itemIdForCapture (captureId : Int) :
    (itemIdForCapture captureId).length = 16 := by
  simp [itemIdForCapture]

/-- An item made for a capture leads back to it. -/
theorem captureIdForItem_itemIdForCapture {captureId : Int} (hlo : -2 ^ 63 ≤ captureId)
    (hhi : captureId < 2 ^ 63) :
    captureIdForItem (itemIdForCapture captureId) = some captureId := by
  have htake : (itemIdForCapture captureId).take 8 = List.replicate 8 0 := rfl
  have hdrop : (itemIdForCapture captureId).drop 8 = toLe 8 (captureId % 2 ^ 64).toNat := rfl
  have hword : ofLe (toLe 8 (captureId % 2 ^ 64).toNat) = (captureId % 2 ^ 64).toNat :=
    ofLe_toLe_of_lt (by omega)
  have hsigned : (UInt64.ofNat (captureId % 2 ^ 64).toNat).toInt64.toInt = captureId := by
    show (BitVec.ofNat 64 (captureId % 2 ^ 64).toNat).toInt = captureId
    rw [BitVec.toInt_ofNat', Int.toNat_of_nonneg (Int.emod_nonneg _ (by decide))]
    have hmod : (captureId % 2 ^ 64).bmod (2 ^ 64) = captureId.bmod (2 ^ 64) :=
      Int.emod_bmod captureId (2 ^ 64)
    rw [hmod]
    exact Int.bmod_eq_of_le (by omega) (by omega)
  rw [captureIdForItem, htake, hdrop, hword, hsigned, length_itemIdForCapture]
  exact if_neg (by decide)

namespace SiDb

/-- A database file that holds no table rows yet, and no stamp. -/
def new : SiDb where
  items := []
  graph := Table.empty
  metadata := Table.empty
  info := none
  linked := by simp

/-! ### The label -/

/-- `ensure_info` — stamp a store that has never been stamped. -/
def ensureInfo (db : SiDb) (dim : Nat) (spaceId : String) : SiDb :=
  match db.info with
  | some _ => db
  | none => { db with info := some ⟨dim, some spaceId⟩ }

/-- `SemanticIndex::space_id`. -/
def spaceId (db : SiDb) : Option String := db.info.bind SiInfo.vectorSpaceId

/-- `SemanticIndex::set_space_id`; an unstamped store is stamped first, with the width it is
    opened for. -/
def setSpaceId (db : SiDb) (dim : Nat) (space : String) : SiDb :=
  match db.info with
  | some info => { db with info := some { info with vectorSpaceId := some space } }
  | none => { db with info := some ⟨dim, some space⟩ }

/-! ### `clear`, three statements -/

/-- `DELETE FROM si_embedding_metadata`, the first statement of `clear`: from here on nothing is
    searchable. -/
def clearMetadata (db : SiDb) : SiDb where
  items := db.items
  graph := db.graph
  metadata := db.metadata.deleteAll
  info := db.info
  linked := by simp

/-- `DELETE FROM si_diskann_graph`, the second: the vectors themselves are gone. -/
def clearGraph (db : SiDb) : SiDb where
  items := db.items
  graph := db.graph.deleteAll
  metadata := db.metadata
  info := db.info
  linked := db.linked

/-- `DELETE FROM si_items`, the third: no item is known any more. -/
def clearItems (db : SiDb) : SiDb := { db with items := [] }

/-! ### `insert` -/

/-- The transaction of `SemanticIndex::insert`: the item if it is new, the vector, and the row
    that links the two. -/
def insertRows (db : SiDb) (itemId : Bytes) (regionId metadataJson : Option String)
    (embedding : List F32) : SiDb where
  -- `INSERT OR IGNORE` of the item; the other two rows are always new
  items := if itemId ∈ db.items then db.items else db.items ++ [itemId]
  graph := db.graph.insert (f32sToBytes embedding)
  metadata := db.metadata.insert ⟨db.graph.nextId, itemId, regionId, metadataJson⟩
  info := db.info
  linked := by
    intro m hm
    rcases List.mem_append.mp hm with hm | hm
    · exact le_of_lt (Int.lt_add_one_of_le (db.linked m hm))
    · obtain rfl := List.mem_singleton.mp hm
      exact le_refl _

/-- The first of the three rows alone. -/
def insertItem (db : SiDb) (itemId : Bytes) : SiDb :=
  { db with items := if itemId ∈ db.items then db.items else db.items ++ [itemId] }

/-- `SemanticIndex::insert` on a handle of width `dim`; a vector of another width or an item id
    of another length is refused, and nothing is written. -/
def insert (db : SiDb) (dim : Nat) (itemId : Bytes) (regionId metadataJson : Option String)
    (embedding : List F32) : Except SemanticError (SiDb × Int) :=
  if embedding.length ≠ dim then .error (.dimMismatch dim embedding.length)
  else if itemId.length ≠ 16 then .error .badItemId
  else .ok (db.insertRows itemId regionId metadataJson embedding, db.graph.nextId)

/-! ### The join -/

/-- The vectors some metadata row links, in the order of the join.  A vector without such a row
    is in the file, but no search sees it. -/
def searchable (db : SiDb) : List Searchable :=
  db.graph.rows.flatMap fun g =>
    (db.metadata.rows.filter fun m => m.2.embeddingId == g.1).map fun m =>
      ⟨g.2, m.2.itemId, m.2.regionId⟩

/-- `SemanticIndex::has_item` on a 16-byte id. -/
def hasItem (db : SiDb) (itemId : Bytes) : Bool :=
  db.items.contains itemId && db.searchable.any fun r => r.itemId == itemId

/-- A vector is searchable if a row of the metadata ties it to an item. -/
theorem mem_searchable {db : SiDb} {r : Searchable} :
    r ∈ db.searchable ↔ ∃ gid id m, (gid, r.embedding) ∈ db.graph.rows ∧
      (id, m) ∈ db.metadata.rows ∧ m.embeddingId = gid ∧ m.itemId = r.itemId ∧
      m.regionId = r.regionId := by
  simp only [searchable, List.mem_flatMap, List.mem_map, List.mem_filter, beq_iff_eq]
  constructor
  · rintro ⟨⟨gid, blob⟩, hg, ⟨id, m⟩, ⟨hm, hlink⟩, rfl⟩
    exact ⟨gid, id, m, hg, hm, hlink, rfl, rfl⟩
  · rintro ⟨gid, id, m, hg, hm, hlink, hitem, hregion⟩
    refine ⟨(gid, r.embedding), hg, (id, m), ⟨hm, hlink⟩, ?_⟩
    rw [hitem, hregion]

/-- A searchable vector has a metadata row for its item. -/
theorem exists_metadata_of_searchable {db : SiDb} {r : Searchable} (h : r ∈ db.searchable) :
    ∃ row ∈ db.metadata.rows, row.2.itemId = r.itemId := by
  obtain ⟨-, id, m, -, hm, -, hitem, -⟩ := mem_searchable.mp h
  exact ⟨(id, m), hm, hitem⟩

/-- An item is there if it is listed and has a vector: `has_item` asks for both. -/
theorem hasItem_iff {db : SiDb} {itemId : Bytes} :
    db.hasItem itemId = true ↔ itemId ∈ db.items ∧ ∃ r ∈ db.searchable, r.itemId = itemId := by
  simp [hasItem]

/-- Without metadata nothing is searchable. -/
theorem searchable_eq_nil {db : SiDb} (h : db.metadata.rows = []) : db.searchable = [] := by
  rw [List.eq_nil_iff_forall_not_mem]
  intro r hr
  obtain ⟨row, hrow, -⟩ := exists_metadata_of_searchable hr
  rw [h] at hrow
  cases hrow

/-- Without metadata no item is there, which is how `clear` begins. -/
theorem hasItem_eq_false {db : SiDb} (h : db.metadata.rows = []) (itemId : Bytes) :
    db.hasItem itemId = false := by
  simp [hasItem, searchable_eq_nil h]

/-- A label that was set is read back. -/
@[simp] theorem spaceId_setSpaceId (db : SiDb) (dim : Nat) (space : String) :
    (db.setSpaceId dim space).spaceId = some space := by
  unfold setSpaceId
  split <;> rfl

/-- A store whose label is what it is set to does not change. -/
theorem setSpaceId_same {db : SiDb} {space : String} (h : db.spaceId = some space) (dim : Nat) :
    db.setSpaceId dim space = db := by
  unfold spaceId at h
  unfold setSpaceId
  cases hinfo : db.info with
  | none =>
    rw [hinfo] at h
    cases h
  | some info =>
    have hlabel : info.vectorSpaceId = some space := by
      rw [hinfo] at h
      exact h
    have hsame : ({ info with vectorSpaceId := some space } : SiInfo) = info := by rw [← hlabel]
    show ({ db with info := some { info with vectorSpaceId := some space } } : SiDb) = db
    rw [hsame, ← hinfo]

/-- An insertion leaves the label alone. -/
theorem spaceId_insertRows (db : SiDb) (itemId : Bytes) (regionId metadataJson : Option String)
    (embedding : List F32) :
    (db.insertRows itemId regionId metadataJson embedding).spaceId = db.spaceId := rfl

/-- A label is no vector. -/
@[simp] theorem searchable_setSpaceId (db : SiDb) (dim : Nat) (space : String) :
    (db.setSpaceId dim space).searchable = db.searchable := by
  unfold setSpaceId
  split <;> rfl

/-- Nor an item. -/
@[simp] theorem hasItem_setSpaceId (db : SiDb) (dim : Nat) (space : String) (itemId : Bytes) :
    (db.setSpaceId dim space).hasItem itemId = db.hasItem itemId := by
  unfold setSpaceId
  split <;> rfl

/-- No metadata row links the vector that comes next. -/
theorem filter_nextId (db : SiDb) :
    db.metadata.rows.filter (fun m => m.2.embeddingId == db.graph.nextId) = [] := by
  rw [List.filter_eq_nil_iff]
  intro m hm
  rw [beq_iff_eq]
  exact ne_of_lt (Int.lt_add_one_of_le (db.linked m hm))

/-- **An insert adds its vector to the searchable ones and changes no other.** The new vector has
    an id that no row links yet, so the old rows keep their vectors. -/
theorem searchable_insertRows (db : SiDb) (itemId : Bytes) (regionId metadataJson : Option String)
    (embedding : List F32) :
    (db.insertRows itemId regionId metadataJson embedding).searchable
      = db.searchable ++ [⟨f32sToBytes embedding, itemId, regionId⟩] := by
  have hold : ∀ g ∈ db.graph.rows,
      (db.metadata.insert ⟨db.graph.nextId, itemId, regionId, metadataJson⟩).rows.filter
          (fun m => m.2.embeddingId == g.1)
        = db.metadata.rows.filter fun m => m.2.embeddingId == g.1 := by
    intro g hg
    have hne : (db.graph.nextId == g.1) = false := by
      rw [beq_eq_false_iff_ne]
      exact (ne_of_lt (Table.lt_nextId hg)).symm
    simp [List.filter_append, hne]
  have hfresh : (db.metadata.insert ⟨db.graph.nextId, itemId, regionId, metadataJson⟩).rows.filter
        (fun m => m.2.embeddingId == db.graph.nextId)
      = [(db.metadata.nextId, ⟨db.graph.nextId, itemId, regionId, metadataJson⟩)] := by
    rw [Table.rows_insert, List.filter_append, filter_nextId]
    simp
  have hsplit : (db.insertRows itemId regionId metadataJson embedding).searchable
      = (db.graph.rows ++ [(db.graph.nextId, f32sToBytes embedding)]).flatMap fun g =>
          ((db.metadata.insert ⟨db.graph.nextId, itemId, regionId, metadataJson⟩).rows.filter
            fun m => m.2.embeddingId == g.1).map fun m => ⟨g.2, m.2.itemId, m.2.regionId⟩ := rfl
  rw [hsplit, List.flatMap_append, List.flatMap_singleton, hfresh]
  refine congrArg (· ++ _) ?_
  rw [searchable, List.flatMap_def, List.flatMap_def]
  refine congrArg List.flatten (List.map_congr_left fun g hg => ?_)
  rw [hold g hg]

/-- The item of an insert is present afterwards, and no other item disappears. -/
theorem hasItem_insertRows {db : SiDb} {itemId other : Bytes}
    {regionId metadataJson : Option String} {embedding : List F32}
    (h : other = itemId ∨ db.hasItem other = true) :
    (db.insertRows itemId regionId metadataJson embedding).hasItem other = true := by
  have hitems : ∀ x, x = itemId ∨ x ∈ db.items →
      x ∈ (db.insertRows itemId regionId metadataJson embedding).items := by
    intro x hx
    show x ∈ (if itemId ∈ db.items then db.items else db.items ++ [itemId])
    split
    · rename_i hmem
      rcases hx with rfl | hx
      · exact hmem
      · exact hx
    · rcases hx with rfl | hx
      · exact List.mem_append_right _ (List.mem_singleton_self _)
      · exact List.mem_append_left _ hx
  rw [hasItem_iff, searchable_insertRows]
  rcases h with rfl | h
  · exact ⟨hitems _ (Or.inl rfl), _, List.mem_append_right _ (List.mem_singleton_self _), rfl⟩
  · obtain ⟨hmem, r, hr, hitem⟩ := hasItem_iff.mp h
    exact ⟨hitems _ (Or.inr hmem), r, List.mem_append_left _ hr, hitem⟩

end SiDb

/-! ### Search -/

/-- The two sums of a scan, whose rounding is the processor's: the norm of the query and the
    similarity of a vector to it. -/
class VectorArith where
  norm : List F32 → F32
  cosine : (query : List F32) → (qnorm : F32) → (other : List F32) → F32

/-- Not a number: an exponent of ones over a non-zero fraction. -/
def F32.isNan (x : F32) : Bool := x.toNat % 2 ^ 31 > 0x7f800000

/-- The order of the numbers: sign and magnitude, so that both zeros have one key. -/
def F32.key (x : F32) : Int :=
  if x.toNat < 2 ^ 31 then x.toNat else -((x.toNat - 2 ^ 31 : Nat) : Int)

/-- `a < b`, false when either side is not a number. -/
def F32.lt (a b : F32) : Bool := !F32.isNan a && !F32.isNan b && F32.key a < F32.key b

/-- `a <= b`, false when either side is not a number. -/
def F32.le (a b : F32) : Bool := !F32.isNan a && !F32.isNan b && F32.key a ≤ F32.key b

/-- `EmbeddingHit` — one vector of the answer to a query, with its item, its region and its
    similarity. -/
structure EmbeddingHit where
  itemId : Bytes
  regionId : Option String
  score : F32
  deriving DecidableEq, Repr

/-- Is an item inside the filter set? Without a set every item is; an item that names no capture
    is in none. -/
def allowedItem (allowed : Option (List Int)) (itemId : Bytes) : Bool :=
  match allowed with
  | none => true
  | some ids => match captureIdForItem itemId with
    | some cid => ids.contains cid
    | none => false

/-- The vectors a scan scores: inside the filter and of the query's width. -/
def SiDb.scanned (db : SiDb) (dim : Nat) (allowed : Option (List Int)) : List Searchable :=
  db.searchable.filter fun r =>
    allowedItem allowed r.itemId && (bytesToF32s r.embedding).length == dim

/-- `SemanticIndex::search` on a handle of width `dim` — best first, ties in row order.  Where a
    score is not a number the comparison of `sort_by` is no order and leaves open what the sort
    returns; the order here is then one of those it may return. -/
def SiDb.search [VectorArith] (db : SiDb) (dim : Nat) (query : List F32) (k : Nat)
    (allowed : Option (List Int)) : Except SemanticError (List EmbeddingHit) :=
  if query.length ≠ dim then .error (.dimMismatch dim query.length)
  else if allowed = some [] then .ok []
  else
    let qnorm := VectorArith.norm query
    let hits := (db.scanned dim allowed).map fun r =>
      (⟨r.itemId, r.regionId, VectorArith.cosine query qnorm (bytesToF32s r.embedding)⟩ :
        EmbeddingHit)
    .ok ((hits.insertionSort fun a b => F32.lt a.score b.score = false).take k)

/-- What is neither at most zero nor above it is not a number. -/
theorem F32.isNan_of_le_of_lt {x : F32} (hle : F32.le x 0 = false) (hlt : F32.lt 0 x = false) :
    F32.isNan x = true := by
  by_contra hnum
  have hx : F32.isNan x = false := by simpa using hnum
  have hzero : F32.isNan 0 = false := by decide
  simp only [F32.le, F32.lt, hx, hzero, Bool.not_false, Bool.true_and, decide_eq_false_iff_not]
    at hle hlt
  exact hle (not_lt.mp hlt)

section
variable [VectorArith] {db : SiDb} {dim : Nat} {query : List F32} {k : Nat}
  {allowed : Option (List Int)} {hits : List EmbeddingHit} {hit : EmbeddingHit}

/-- A hit of a search is a vector it scored. -/
theorem SiDb.search_scanned (h : db.search dim query k allowed = .ok hits) (hhit : hit ∈ hits) :
    ∃ r ∈ db.scanned dim allowed, r.itemId = hit.itemId := by
  unfold SiDb.search at h
  split at h
  · cases h
  split at h
  · obtain rfl := Except.ok.inj h
    cases hhit
  · obtain rfl := Except.ok.inj h
    have hmem := List.mem_of_mem_take hhit
    rw [List.mem_insertionSort, List.mem_map] at hmem
    obtain ⟨r, hr, rfl⟩ := hmem
    exact ⟨r, hr, rfl⟩

/-- A hit of a search is a searchable vector of the store: what is said of all of these holds of
    every hit. -/
theorem SiDb.search_mem (h : db.search dim query k allowed = .ok hits) (hhit : hit ∈ hits) :
    ∃ r ∈ db.searchable, r.itemId = hit.itemId := by
  obtain ⟨r, hr, hitem⟩ := SiDb.search_scanned h hhit
  exact ⟨r, (List.mem_filter.mp hr).1, hitem⟩

/-- A hit of a search is inside the filter set. -/
theorem SiDb.search_allowed (h : db.search dim query k allowed = .ok hits) (hhit : hit ∈ hits) :
    allowedItem allowed hit.itemId = true := by
  obtain ⟨r, hr, hitem⟩ := SiDb.search_scanned h hhit
  have hcond := (List.mem_filter.mp hr).2
  rw [Bool.and_eq_true, hitem] at hcond
  exact hcond.1

end

end Precall.Store
