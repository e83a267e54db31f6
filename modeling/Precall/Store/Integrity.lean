import Mathlib.Data.List.Find
import Precall.Lib.Transaction
import Precall.Store.Ukg

namespace Precall.Store

open TableLib TextLib TransactionLib Precall.Proto

/-!
# Inserting captures

`Ukg::insert_capture` (`precall-store/src/ukg.rs`) statement by statement, in a transaction whose
statements can fail, against the constraints of `schema.rs`.

* `Sql.insertCapture` — the statements; `computes_insertCapture` — unless the environment makes
  one of them fail they do what `Ukg.insertCapture` does in one step: every lookup finds its row
  and no constraint is violated;
* `relateAll_spec` — the entries a capture is related to are those of its record, each once;
* `Intact` — what any sequence of calls keeps; `insertCapture_intact` — the result.
-/

/-! ### Entries and relations -/

/-- The entries of one kind (apps, files, web pages), and which captures they are related to: a
    table of rows and one of relations. -/
abbrev Linked (α : Type) := Table α × Table (Int × Int)

section
variable {α κ : Type} {key : α → κ}

/-- The identities of the entries related to a capture, in the order of the relation; `none`
    where a relation points to no row. -/
def related (key : α → κ) (t : Linked α) (wcId : Int) : List (Option κ) :=
  t.2.rows.filterMap fun r => if r.2.1 = wcId then some ((t.1.get? r.2.2).map key) else none

/-- Identities are unique, and relations point to rows: what the unique indexes and foreign keys
    of the schema give. -/
structure Sound (key : α → κ) (t : Linked α) : Prop where
  unique : Unique key t.1
  points : ∀ r ∈ t.2.rows, ∃ x, (r.2.2, x) ∈ t.1.rows

/-- New entries leave the relations as they are. -/
theorem related_grow {t : Linked α} {entries : Table α}
    (hpoints : ∀ r ∈ t.2.rows, ∃ x, (r.2.2, x) ∈ t.1.rows) (hgrow : t.1.rows ⊆ entries.rows)
    (wcId : Int) : related key (entries, t.2) wcId = related key t wcId := by
  refine List.filterMap_congr fun r hr => ?_
  obtain ⟨x, hx⟩ := hpoints r hr
  rw [Table.get?_eq_some.mpr hx, Table.get?_eq_some.mpr (hgrow hx)]

/-- A capture is related to an identity exactly if there is a relation to its row, for an
    identity has one row. -/
theorem mem_related {t : Linked α} (h : Sound key t) {id : Int} {x : α} (hx : (id, x) ∈ t.1.rows)
    (wcId : Int) : some (key x) ∈ related key t wcId ↔ ∃ r ∈ t.2.rows, r.2 = (wcId, id) := by
  unfold related
  rw [List.mem_filterMap]
  constructor
  · rintro ⟨r, hr, hsome⟩
    obtain ⟨y, hy⟩ := h.points r hr
    rw [Table.get?_eq_some.mpr hy] at hsome
    split at hsome
    · rename_i hwc
      have hkey : key y = key x := by simpa using hsome
      have hrow := h.unique.eq_of_key hy hx hkey
      exact ⟨r, hr, Prod.ext hwc (Prod.mk.inj hrow).1⟩
    · cases hsome
  · rintro ⟨r, hr, heq⟩
    refine ⟨r, hr, ?_⟩
    rw [heq, if_pos rfl, Table.get?_eq_some.mpr hx]
    rfl

/-- A new relation adds the identity of its row to its capture, behind those that it has. -/
theorem related_insert {t : Linked α} {id : Int} {x : α} (hx : (id, x) ∈ t.1.rows)
    (wcId other : Int) : related key (t.1, t.2.insert (wcId, id)) other
      = related key t other ++ if wcId = other then [some (key x)] else [] := by
  unfold related
  rw [Table.rows_insert, List.filterMap_append, List.filterMap_cons, List.filterMap_nil,
    Table.get?_eq_some.mpr hx]
  by_cases hsame : wcId = other
  · simp [hsame]
  · simp [hsame]

/-- Relating a capture to a row adds the row's identity, unless the capture has it; the relations
    of all other captures stay as they are. -/
theorem insertRelation_spec {t : Linked α} (h : Sound key t) {id : Int} {x : α}
    (hx : (id, x) ∈ t.1.rows) (wcId : Int) :
    Sound key (t.1, Ukg.insertRelation t.2 (wcId, id)) ∧
    (∀ other, other ≠ wcId →
      related key (t.1, Ukg.insertRelation t.2 (wcId, id)) other = related key t other) ∧
    ((related key t wcId).Nodup →
      (related key (t.1, Ukg.insertRelation t.2 (wcId, id)) wcId).Nodup) ∧
    ∀ i, i ∈ related key (t.1, Ukg.insertRelation t.2 (wcId, id)) wcId ↔
      i ∈ related key t wcId ∨ i = some (key x) := by
  unfold Ukg.insertRelation
  cases hfind : t.2.find? (· == (wcId, id)) with
  | some rid =>
    -- the relation is there: nothing is added
    obtain ⟨r, hr, rfl⟩ := Option.map_eq_some_iff.mp hfind
    have hrow : r.2 = (wcId, id) := by simpa using List.find?_some hr
    have hmem := (mem_related h hx wcId).mpr ⟨r, List.mem_of_find?_eq_some hr, hrow⟩
    refine ⟨h, fun _ _ => rfl, fun hnodup => hnodup, fun i => ⟨Or.inl, ?_⟩⟩
    rintro (hi | rfl)
    · exact hi
    · exact hmem
  | none =>
    -- a capture that had the identity would be related to this very row, by uniqueness
    have hnew : some (key x) ∉ related key t wcId := by
      intro hmem
      obtain ⟨r, hr, hrow⟩ := (mem_related h hx wcId).mp hmem
      rw [Table.find?, Option.map_eq_none_iff, List.find?_eq_none] at hfind
      exact hfind r hr (beq_iff_eq.mpr hrow)
    refine ⟨⟨h.unique, fun r hr => ?_⟩, fun other hne => ?_, fun hnodup => ?_, fun i => ?_⟩
    · rcases List.mem_append.mp hr with hr | hr
      · exact h.points r hr
      · rw [List.mem_singleton.mp hr]
        exact ⟨x, hx⟩
    · rw [related_insert hx, if_neg hne.symm, List.append_nil]
    · rw [related_insert hx, if_pos rfl]
      exact hnodup.append (List.nodup_singleton _) (by simpa using hnew)
    · rw [related_insert hx, if_pos rfl, List.mem_append, List.mem_singleton]

variable [DecidableEq κ]

/-- `upsert` under a unique index on `key`. -/
def upsertBy (key : α → κ) : Table α → α → Table α × Int := Ukg.upsert fun a b => key a = key b

/-- One turn of `relateAll`: the entry, and its relation to the capture; the loop is a fold of
    it. -/
def relateOne (key : α → κ) (wcId : Int) (t : Linked α) (x : α) : Linked α :=
  ((upsertBy key t.1 x).1, Ukg.insertRelation t.2 (wcId, (upsertBy key t.1 x).2))

variable (key) in
/-- `upsert` is the insert, and then the lookup, which finds a row whether the insert was ignored
    or not. -/
theorem upsertBy_eq (t : Table α) (x : α) :
    insertOrIgnore key t x = (upsertBy key t x).1 ∧
      (insertOrIgnore key t x).find? (fun y => key x = key y) = some (upsertBy key t x).2 := by
  unfold upsertBy Ukg.upsert insertOrIgnore
  cases hfind : t.find? (fun y => key x = key y) with
  | some id => exact ⟨rfl, hfind⟩
  | none =>
    refine ⟨rfl, ?_⟩
    have hnone : t.rows.find? (fun r => key x = key r.2) = none := by
      simpa [Table.find?] using hfind
    simp [Table.find?, List.find?_append, hnone]

variable (key) in
/-- An upsert takes no row away. -/
theorem rows_subset_upsertBy (t : Table α) (x : α) : t.rows ⊆ (upsertBy key t x).1.rows := by
  unfold upsertBy Ukg.upsert
  split
  · exact List.Subset.refl _
  · exact List.subset_append_left _ _

/-- **One entry.**  The capture gains the entry's identity, unless it has it; other captures keep
    what they have. -/
theorem relateOne_spec {t : Linked α} (h : Sound key t) (wcId : Int) (x : α) :
    Sound key (relateOne key wcId t x) ∧
    (∀ other, other ≠ wcId → related key (relateOne key wcId t x) other = related key t other) ∧
    ((related key t wcId).Nodup → (related key (relateOne key wcId t x) wcId).Nodup) ∧
    ∀ i, i ∈ related key (relateOne key wcId t x) wcId ↔
      i ∈ related key t wcId ∨ i = some (key x) := by
  obtain ⟨hinsert, hfind⟩ := upsertBy_eq key t.1 x
  obtain ⟨y, hy, hkey⟩ := mem_of_find? hfind
  rw [hinsert] at hy
  have hgrow := rows_subset_upsertBy key t.1 x
  have hsound : Sound key ((upsertBy key t.1 x).1, t.2) :=
    ⟨hinsert ▸ h.unique.insertOrIgnore, fun r hr => by
      obtain ⟨z, hz⟩ := h.points r hr
      exact ⟨z, hgrow hz⟩⟩
  have hspec := insertRelation_spec hsound hy wcId
  simp only [related_grow h.points hgrow, hkey] at hspec
  exact hspec

/-- **All entries of a record.** The capture gains their identities, each once, and other
    captures are left alone; by induction on the entries. -/
theorem relateAll_spec {t : Linked α} (h : Sound key t) (wcId : Int) (xs : List α) :
    Sound key (xs.foldl (relateOne key wcId) t) ∧
    (∀ other, other ≠ wcId →
      related key (xs.foldl (relateOne key wcId) t) other = related key t other) ∧
    ((related key t wcId).Nodup → (related key (xs.foldl (relateOne key wcId) t) wcId).Nodup) ∧
    ∀ i, i ∈ related key (xs.foldl (relateOne key wcId) t) wcId ↔
      i ∈ related key t wcId ∨ ∃ x ∈ xs, i = some (key x) := by
  induction xs generalizing t with
  | nil => exact ⟨h, fun _ _ => rfl, fun hnodup => hnodup, by simp⟩
  | cons x xs ih =>
    obtain ⟨hsound, hothers, hnodup, hmem⟩ := relateOne_spec h wcId x
    obtain ⟨hsound', hothers', hnodup', hmem'⟩ := ih hsound
    refine ⟨hsound', fun other hne => (hothers' other hne).trans (hothers other hne),
      fun hstart => hnodup' (hnodup hstart), fun i => ?_⟩
    rw [List.foldl_cons, hmem', hmem, or_assoc, List.exists_mem_cons_iff]

end

/-! ### The statements -/

/-- A kind of entries: what identifies one, and the two tables it is kept in, with the laws of
    getting and setting them. -/
structure Kind (α κ : Type) where
  key : α → κ
  part : Part Ukg (Linked α)
  windowCapture_set : ∀ db t, (part.set db t).windowCapture = db.windowCapture

/-- An app, by its name and path; `UX_App_Name_Path` takes an absent path for an empty one. -/
def appKey (a : AppRecord) : String × String := (a.name, a.path.getD "")

/-- Applications, under their name and path. -/
def appKind : Kind AppRecord (String × String) where
  key := appKey
  part := {
    get := fun db => (db.app, db.appRelation)
    set := fun db t => { db with app := t.1, appRelation := t.2 }
    get_set := fun _ _ => rfl
    set_set := fun _ _ _ => rfl
    set_get := fun _ => rfl }
  windowCapture_set := fun _ _ => rfl

/-- Files, under their path. -/
def fileKind : Kind FileRecord String where
  key := FileRecord.path
  part := {
    get := fun db => (db.file, db.fileRelation)
    set := fun db t => { db with file := t.1, fileRelation := t.2 }
    get_set := fun _ _ => rfl
    set_set := fun _ _ _ => rfl
    set_get := fun _ => rfl }
  windowCapture_set := fun _ _ => rfl

/-- Pages, under their address. -/
def webKind : Kind WebRecord String where
  key := WebRecord.uri
  part := {
    get := fun db => (db.web, db.webRelation)
    set := fun db t => { db with web := t.1, webRelation := t.2 }
    get_set := fun _ _ => rfl
    set_set := fun _ _ _ => rfl
    set_get := fun _ => rfl }
  windowCapture_set := fun _ _ => rfl

namespace Sql

/-- A transaction on `ukg.db`. -/
abbrev UkgTx (φ : Type) := Tx Ukg φ

variable {φ : Type}

/-- `INSERT OR IGNORE` of a relation; both foreign keys must be there, for `OR IGNORE` does not
    ignore them. -/
def insertRelation {α κ : Type} (k : Kind α κ) (wcId id : Int) : UkgTx φ Unit := statement fun db =>
  if (db.windowCapture.get? wcId).isSome ∧ ((k.part.get db).1.get? id).isSome then
    .ok ((), k.part.set db ((k.part.get db).1, Ukg.insertRelation (k.part.get db).2 (wcId, id)))
  else .error .constraint

/-- `INSERT OR IGNORE` of an entry, then `SELECT "Id"` under its identity, in the transaction of
    the caller. -/
def upsert {α κ : Type} [DecidableEq κ] (k : Kind α κ) (x : α) : UkgTx φ Int := do
  execute fun db =>
    k.part.set db (insertOrIgnore k.key (k.part.get db).1 x, (k.part.get db).2)
  queryRow fun db => (k.part.get db).1.find? fun y => k.key x = k.key y

/-- `upsert_app`. -/
def upsertApp (a : AppRecord) : UkgTx φ Int := upsert appKind a

/-- `upsert_file`. -/
def upsertFile (f : FileRecord) : UkgTx φ Int := upsert fileKind f

/-- `upsert_web`. -/
def upsertWeb (w : WebRecord) : UkgTx φ Int := upsert webKind w

/-- `INSERT` of the capture itself, and its row id; image tokens are unique. -/
def insertWindowCapture (rec : WindowCaptureRecord) : UkgTx φ Int := statement fun db =>
  if (db.captureOfToken rec.imageToken).isSome then .error .constraint
  else .ok (db.windowCapture.nextId,
    { db with windowCapture := db.windowCapture.insert (Ukg.captureRow rec) })

/-- `INSERT` of a region; its capture must be there. -/
def insertRegion (wcId : Int) (r : ScreenRegionRecord) : UkgTx φ Unit := statement fun db =>
  if (db.windowCapture.get? wcId).isSome then
    .ok ((), { db with
      screenRegion := db.screenRegion.insert ⟨wcId, r.regionKind, r.ocrText, r.bounds⟩ })
  else .error .constraint

/-- `INSERT` into the full-text index; row ids are unique. -/
def insertText (row : TextIndexRow) : UkgTx φ Unit := statement fun db =>
  if db.textIndex.any (·.rowid = row.rowid) then .error .constraint
  else .ok ((), { db with textIndex := db.textIndex ++ [row] })

/-- `Ukg::insert_capture`, statement by statement: the lookup of the token, and if it is new the
    capture, its entries, its regions and its text. -/
def insertCapture [TextTables] (rec : WindowCaptureRecord) : UkgTx φ Int := do
  match ← queryOptional fun db => db.captureOfToken rec.imageToken with
  | some id => pure id
  | none =>
    let wcId ← insertWindowCapture rec
    forM rec.apps fun app => do
      insertRelation appKind wcId (← upsertApp app)
    forM rec.files fun f => do
      insertRelation fileKind wcId (← upsertFile f)
    forM rec.webs fun w => do
      insertRelation webKind wcId (← upsertWeb w)
    forM rec.regions (insertRegion wcId)
    insertText ⟨wcId, rec.name, rec.windowTitle, trim (Ukg.allOcr rec.regions)⟩
    -- the commit
    execute id
    pure wcId

/-! ### What they compute -/

section
variable {α κ : Type} [DecidableEq κ]

/-- **An upsert.** The lookup finds the row that the insert made or met, so the statement cannot
    come back empty. -/
theorem computes_upsert (k : Kind α κ) (x : α) (db : Ukg) :
    Computes (upsert k x : UkgTx φ Int) db (upsertBy k.key (k.part.get db).1 x).2
      (k.part.set db ((upsertBy k.key (k.part.get db).1 x).1, (k.part.get db).2)) := by
  obtain ⟨hinsert, hfind⟩ := upsertBy_eq k.key (k.part.get db).1 x
  refine (computes_execute _ db).bind ?_
  rw [← hinsert]
  exact computes_queryRow (by rw [k.part.get_set, hfind])

/-- **One entry of a record.**  Both foreign keys are there. -/
theorem computes_relate (k : Kind α κ) {wcId : Int} (x : α) {db : Ukg}
    (hwc : (db.windowCapture.get? wcId).isSome) :
    Computes (upsert k x >>= fun id => insertRelation k wcId id : UkgTx φ Unit) db ()
      (k.part.set db (relateOne k.key wcId (k.part.get db) x)) := by
  obtain ⟨hinsert, hfind⟩ := upsertBy_eq k.key (k.part.get db).1 x
  obtain ⟨y, hy, -⟩ := mem_of_find? hfind
  refine (computes_upsert k x db).bind (computes_statement ?_)
  rw [k.windowCapture_set, k.part.get_set, ← hinsert, Table.get?_eq_some.mpr hy, if_pos ⟨hwc, rfl⟩,
    k.part.set_set]
  rw [hinsert]
  rfl

/-- All entries of a record, by induction on them: each of them finds the tables sound, as the
    one before has left them. -/
theorem computes_relateAll (k : Kind α κ) {wcId : Int} (xs : List α) {db : Ukg}
    (hwc : (db.windowCapture.get? wcId).isSome) :
    Computes (forM xs fun x => upsert k x >>= fun id => insertRelation k wcId id : UkgTx φ Unit)
      db () (k.part.set db (xs.foldl (relateOne k.key wcId) (k.part.get db))) := by
  rw [← k.part.foldl_set]
  refine computes_forM (fun db : Ukg => (db.windowCapture.get? wcId).isSome)
    (fun x db h => ⟨computes_relate k x h, ?_⟩) xs hwc
  rw [k.windowCapture_set]
  exact h

end

/-! ### The whole transaction -/

/-- A region of a capture that is there is inserted. -/
theorem computes_insertRegion {wcId : Int} (r : ScreenRegionRecord) {db : Ukg}
    (hwc : (db.windowCapture.get? wcId).isSome) :
    Computes (insertRegion wcId r : UkgTx φ Unit) db () { db with
      screenRegion := db.screenRegion.insert ⟨wcId, r.regionKind, r.ocrText, r.bounds⟩ } :=
  computes_statement (by rw [if_pos hwc])

/-- A row of the full-text index is inserted under an id that is free in it. -/
theorem computes_insertText {row : TextIndexRow} {db : Ukg}
    (hnew : ∀ row' ∈ db.textIndex, row'.rowid ≠ row.rowid) :
    Computes (insertText row : UkgTx φ Unit) db ()
      { db with textIndex := db.textIndex ++ [row] } := by
  refine computes_statement ?_
  rw [if_neg]
  intro hany
  obtain ⟨row', hmem, heq⟩ := List.any_eq_true.mp hany
  exact hnew row' hmem (of_decide_eq_true heq)

/-- A capture whose token is new gets the next id. -/
theorem computes_insertWindowCapture {rec : WindowCaptureRecord} {db : Ukg}
    (hnew : db.captureOfToken rec.imageToken = none) :
    Computes (insertWindowCapture rec : UkgTx φ Int) db db.windowCapture.nextId
      { db with windowCapture := db.windowCapture.insert (Ukg.captureRow rec) } :=
  computes_statement (by rw [hnew]; rfl)

/-- The regions of a record, one insert for each. -/
theorem computes_regions {wcId : Int} (regions : List ScreenRegionRecord) {db : Ukg}
    (hwc : (db.windowCapture.get? wcId).isSome) :
    Computes (forM regions (insertRegion wcId) : UkgTx φ Unit) db () { db with
      screenRegion := regions.foldl
        (fun t r => t.insert ⟨wcId, r.regionKind, r.ocrText, r.bounds⟩) db.screenRegion } := by
  have hfold : ∀ db : Ukg, regions.foldl (fun (db : Ukg) r => { db with
      screenRegion := db.screenRegion.insert ⟨wcId, r.regionKind, r.ocrText, r.bounds⟩ }) db
        = { db with
            screenRegion := regions.foldl
              (fun t r => t.insert ⟨wcId, r.regionKind, r.ocrText, r.bounds⟩)
              db.screenRegion } := by
    intro db
    induction regions generalizing db with
    | nil => rfl
    | cons r regions ih => rw [List.foldl_cons, ih, List.foldl_cons]
  rw [← hfold]
  exact computes_forM (fun db : Ukg => (db.windowCapture.get? wcId).isSome)
    (fun r db h => ⟨computes_insertRegion r h, h⟩) regions hwc

/-- The loop over the applications of a record, as a fold over the tables. -/
theorem relateAll_app (wcId : Int) (xs : List AppRecord) (t : Linked AppRecord) :
    Ukg.relateAll Ukg.upsertApp wcId xs t = xs.foldl (relateOne appKey wcId) t := by
  have hsame : Ukg.upsertApp = upsertBy appKey := by
    unfold Ukg.upsertApp upsertBy
    congr 1
    funext a b
    rw [Bool.eq_iff_iff]
    simp [appKey]
  unfold Ukg.relateAll relateOne
  rw [hsame]

/-- The loop over its files, which are known by their paths. -/
theorem relateAll_file (wcId : Int) (xs : List FileRecord) (t : Linked FileRecord) :
    Ukg.relateAll Ukg.upsertFile wcId xs t = xs.foldl (relateOne FileRecord.path wcId) t := rfl

/-- The loop over its pages, which are known by their addresses. -/
theorem relateAll_web (wcId : Int) (xs : List WebRecord) (t : Linked WebRecord) :
    Ukg.relateAll Ukg.upsertWeb wcId xs t = xs.foldl (relateOne WebRecord.uri wcId) t := rfl

/-- **The transaction.**  Unless one of its statements is made to fail, it does what the model in
    one step does. -/
theorem computes_insertCapture [TextTables] (rec : WindowCaptureRecord) {db : Ukg}
    (hfresh : ∀ row ∈ db.textIndex, row.rowid < db.windowCapture.nextId) :
    Computes (insertCapture rec : UkgTx φ Int) db (db.insertCapture rec).2
      (db.insertCapture rec).1 := by
  refine (computes_queryOptional _ db).bind ?_
  cases htoken : db.captureOfToken rec.imageToken with
  | some id =>
    have hsame : db.insertCapture rec = (db, id) := by rw [Ukg.insertCapture, htoken]
    rw [hsame]
    exact computes_pure id db
  | none =>
    have hrow : (db.windowCapture.nextId, Ukg.captureRow rec)
        ∈ (db.windowCapture.insert (Ukg.captureRow rec)).rows := by simp
    have hwc : ((db.windowCapture.insert (Ukg.captureRow rec)).get?
        db.windowCapture.nextId).isSome := by
      rw [Table.get?_eq_some.mpr hrow]
      rfl
    rw [Ukg.insertCapture, htoken]
    dsimp only
    rw [relateAll_app, relateAll_file, relateAll_web]
    refine (computes_insertWindowCapture htoken).bind ?_
    refine (computes_relateAll appKind rec.apps hwc).bind ?_
    refine (computes_relateAll fileKind rec.files hwc).bind ?_
    refine (computes_relateAll webKind rec.webs hwc).bind ?_
    refine (computes_regions rec.regions hwc).bind ?_
    refine (computes_insertText ?_).bind ?_
    · exact fun row hmem => (hfresh row hmem).ne
    · exact (computes_execute id _).bind (computes_pure _ _)

end Sql

/-! ### What the database keeps -/

/-- A capture is related to the entries of its record: to each identity once, and to no other. -/
def Exact {α κ : Type} (key : α → κ) (t : Linked α) (wcId : Int) (xs : List α) : Prop :=
  (related key t wcId).Nodup ∧ ∀ i, i ∈ related key t wcId ↔ ∃ x ∈ xs, i = some (key x)

/-- What is kept of the entries of one kind; `entries` are those of a record.  The tables are
    sound, and each stored capture is related exactly to its own. -/
structure KindIntact {α κ : Type} (k : Kind α κ) (entries : WindowCaptureRecord → List α)
    (db : Ukg) (stored : List (Int × WindowCaptureRecord)) : Prop where
  sound : Sound k.key (k.part.get db)
  exact : ∀ s ∈ stored, Exact k.key (k.part.get db) s.1 (entries s.2)
  others : ∀ wcId, wcId ∉ stored.map Prod.fst → related k.key (k.part.get db) wcId = []

section
variable [TextTables]

/-- The row of the full-text index of a capture. -/
def textRow (s : Int × WindowCaptureRecord) : TextIndexRow :=
  ⟨s.1, s.2.name, s.2.windowTitle, trim (Ukg.allOcr s.2.regions)⟩

/-- The database holds these captures and what belongs to them: one row for each token, its
    entries of all kinds, its regions and its text. -/
structure Intact (db : Ukg) (stored : List (Int × WindowCaptureRecord)) : Prop where
  captures : db.windowCapture.rows = stored.map fun s => (s.1, Ukg.captureRow s.2)
  tokens : (stored.map fun s => s.2.imageToken).Nodup
  text : db.textIndex = stored.map textRow
  apps : KindIntact appKind WindowCaptureRecord.apps db stored
  files : KindIntact fileKind WindowCaptureRecord.files db stored
  webs : KindIntact webKind WindowCaptureRecord.webs db stored

omit [TextTables] in
/-- In a new database nothing is related to anything. -/
theorem kindIntact_new {α κ : Type} (k : Kind α κ) (entries : WindowCaptureRecord → List α)
    (hempty : k.part.get Ukg.new = (Table.empty, Table.empty)) :
    KindIntact k entries Ukg.new [] := by
  refine ⟨?_, by simp, fun wcId _ => ?_⟩
  · rw [hempty]
    exact ⟨List.nodup_nil, by simp⟩
  · rw [hempty]
    rfl

/-- A new database is intact, for no records. -/
theorem intact_new : Intact Ukg.new [] where
  captures := rfl
  tokens := List.nodup_nil
  text := rfl
  apps := kindIntact_new appKind _ rfl
  files := kindIntact_new fileKind _ rfl
  webs := kindIntact_new webKind _ rfl

omit [TextTables] in
/-- The entries of one more capture: they are related to it alone, for its id is new. -/
theorem KindIntact.concat {α κ : Type} [DecidableEq κ] {k : Kind α κ}
    {entries : WindowCaptureRecord → List α} {db db' : Ukg}
    {stored : List (Int × WindowCaptureRecord)} (h : KindIntact k entries db stored) {wcId : Int}
    (hnew : wcId ∉ stored.map Prod.fst) {rec : WindowCaptureRecord}
    (hdb : k.part.get db' = (entries rec).foldl (relateOne k.key wcId) (k.part.get db)) :
    KindIntact k entries db' (stored ++ [(wcId, rec)]) := by
  obtain ⟨hsound, hothers, hnodup, hmem⟩ := relateAll_spec h.sound wcId (entries rec)
  rw [← hdb] at hsound hothers hnodup hmem
  rw [h.others wcId hnew] at hnodup hmem
  refine ⟨hsound, fun s hs => ?_, fun other hother => ?_⟩
  · rcases List.mem_append.mp hs with hs | hs
    · have hne : s.1 ≠ wcId := fun heq => hnew (heq ▸ List.mem_map_of_mem hs)
      unfold Exact
      rw [hothers s.1 hne]
      exact h.exact s hs
    · obtain rfl := List.mem_singleton.mp hs
      refine ⟨hnodup List.nodup_nil, fun i => ?_⟩
      rw [hmem]
      simp
  · rw [List.map_append, List.mem_append, not_or] at hother
    have hne : other ≠ wcId := by simpa using hother.2
    rw [hothers other hne]
    exact h.others other hother.1

namespace Intact

variable {db : Ukg} {stored : List (Int × WindowCaptureRecord)}

/-- The ids in use are smaller than the next one. -/
theorem lt_nextId (h : Intact db stored) {s : Int × WindowCaptureRecord} (hs : s ∈ stored) :
    s.1 < db.windowCapture.nextId := by
  have hrow : (s.1, Ukg.captureRow s.2) ∈ db.windowCapture.rows := by
    rw [h.captures]
    exact List.mem_map_of_mem hs
  exact Table.lt_nextId hrow

/-- The next id is that of no stored record. -/
theorem nextId_notMem (h : Intact db stored) :
    db.windowCapture.nextId ∉ stored.map Prod.fst := by
  intro hmem
  obtain ⟨s, hs, heq⟩ := List.mem_map.mp hmem
  exact absurd (h.lt_nextId hs) (heq ▸ lt_irrefl _)

/-- The capture with a token is the one stored with it, so the code's lookup of the token can be
    replaced by one in the list. -/
theorem captureOfToken_eq (h : Intact db stored) (token : String) :
    db.captureOfToken token
      = (stored.find? fun s => s.2.imageToken = token).map Prod.fst := by
  have hsame : ∀ s ∈ stored, ((Ukg.captureRow s.2).imageToken == some token)
      = decide (s.2.imageToken = token) := by
    intro s _
    simp [Ukg.captureRow, Bool.beq_eq_decide_eq]
  rw [Ukg.captureOfToken, Table.find?, h.captures, List.find?_map, Option.map_map,
    ← List.find?_congr hsame]
  rfl

/-- A stored record is found under its token. -/
theorem captureOfToken_of_mem (h : Intact db stored) {s : Int × WindowCaptureRecord}
    (hs : s ∈ stored) : db.captureOfToken s.2.imageToken = some s.1 := by
  rw [h.captureOfToken_eq]
  cases hfind : stored.find? fun s' => s'.2.imageToken = s.2.imageToken with
  | none => simpa using List.find?_eq_none.mp hfind s hs
  | some s' =>
    have htoken : s'.2.imageToken = s.2.imageToken := by simpa using List.find?_some hfind
    rw [List.inj_on_of_nodup_map h.tokens (List.mem_of_find?_eq_some hfind) hs htoken,
      Option.map_some]

/-- A token is known to the database exactly if a stored capture has it. -/
theorem any_token (h : Intact db stored) (token : String) :
    (stored.any fun s => s.2.imageToken = token) = (db.captureOfToken token).isSome := by
  rw [h.captureOfToken_eq, Option.isSome_map, List.isSome_find?]

/-- Each capture has one row of the full-text index. -/
theorem filter_textIndex (h : Intact db stored) {s : Int × WindowCaptureRecord}
    (hs : s ∈ stored) :
    (db.textIndex.filter fun row => row.rowid = s.1) = [textRow s] := by
  have hids : (stored.map Prod.fst).Nodup := by
    have hsorted := db.windowCapture.sorted
    rw [h.captures, List.pairwise_map] at hsorted
    exact List.pairwise_map.mpr (hsorted.imp fun hlt => hlt.ne)
  -- the rows before and after the capture's own belong to other captures
  obtain ⟨before, after, rfl⟩ := List.append_of_mem hs
  rw [List.map_append, List.map_cons, List.nodup_append, List.nodup_cons] at hids
  obtain ⟨-, ⟨hafter, -⟩, hbefore⟩ := hids
  have hnone : ∀ xs : List (Int × WindowCaptureRecord), (∀ s' ∈ xs, s'.1 ≠ s.1) →
      (xs.map textRow).filter (fun row => row.rowid = s.1) = [] := by
    intro xs hxs
    rw [List.filter_eq_nil_iff]
    rintro _ hrow
    obtain ⟨s', hs', rfl⟩ := List.mem_map.mp hrow
    exact fun heq => hxs s' hs' (of_decide_eq_true heq)
  rw [h.text, List.map_append, List.map_cons, List.filter_append,
    hnone before fun s' hs' => hbefore _ (List.mem_map_of_mem hs') _ List.mem_cons_self,
    List.filter_cons_of_pos (by simp [textRow]),
    hnone after fun s' hs' heq => hafter (heq ▸ List.mem_map_of_mem hs')]
  rfl

/-- **One more capture** keeps the database intact, with its record at the end of those stored. -/
theorem insertCapture (h : Intact db stored) (rec : WindowCaptureRecord)
    (htoken : db.captureOfToken rec.imageToken = none) :
    Intact (db.insertCapture rec).1 (stored ++ [((db.insertCapture rec).2, rec)]) := by
  have hnew := h.nextId_notMem
  rw [Ukg.insertCapture, htoken]
  dsimp only
  refine ⟨?_, ?_, ?_, h.apps.concat hnew ?_, h.files.concat hnew ?_, h.webs.concat hnew ?_⟩
  · rw [Table.rows_insert, h.captures, List.map_append]
    rfl
  · rw [List.map_append, List.nodup_append]
    -- a stored capture with the new token would have been found
    refine ⟨h.tokens, List.nodup_singleton _, ?_⟩
    rintro _ hold _ hlast rfl
    obtain ⟨s, hs, hsame⟩ := List.mem_map.mp hold
    have hfound := h.captureOfToken_of_mem hs
    rw [hsame, List.mem_singleton.mp hlast] at hfound
    rw [hfound] at htoken
    cases htoken
  · rw [h.text, List.map_append]
    rfl
  · exact Sql.relateAll_app _ _ _
  · exact Sql.relateAll_file _ _ _
  · exact Sql.relateAll_web _ _ _

end Intact

end

/-! ### Any sequence of calls -/

/-- A call of `insert_capture`, and how its statements end. -/
structure Call (φ : Type) where
  record : WindowCaptureRecord
  outcomes : List (Outcome φ)

section
variable [TextTables] {φ : Type}

/-- `Ukg::insert_capture`: the answer, and the database it leaves.  Its statements run in a
    transaction, so one that fails takes all of them back. -/
def Call.run (c : Call φ) (db : Ukg) : Except (TxError φ) Int × Ukg :=
  transact (Sql.insertCapture c.record) db c.outcomes

/-- The captures stored after an answer: one more, unless the call failed or the token is known.
    It is computed from what the caller can see. -/
def noteAnswer (stored : List (Int × WindowCaptureRecord)) (rec : WindowCaptureRecord) :
    Except (TxError φ) Int → List (Int × WindowCaptureRecord)
  | .ok id =>
      if stored.any fun s => s.2.imageToken = rec.imageToken then stored else stored ++ [(id, rec)]
  | .error _ => stored

/-- The database after calls in turn, and the captures they have stored according to their
    answers. -/
def history (calls : List (Call φ)) : Ukg × List (Int × WindowCaptureRecord) :=
  calls.foldl (fun h c => ((c.run h.1).2, noteAnswer h.2 c.record (c.run h.1).1)) (Ukg.new, [])

/-- What a call does to a database that holds these captures: it answers with the id of its
    token, and stores its record unless it is there or the call fails. -/
structure Call.Faithful (c : Call φ) (db : Ukg) (stored : List (Int × WindowCaptureRecord)) :
    Prop where
  /-- A call fails for an outcome it met, and leaves the database as it was. -/
  failed : ∀ e, (c.run db).1 = .error e →
    (c.run db).2 = db ∧ ∃ f, e = .fault f ∧ some f ∈ c.outcomes
  /-- A known token answers with the original id, and changes nothing. -/
  repeated : ∀ s ∈ stored, s.2.imageToken = c.record.imageToken → ∀ id, (c.run db).1 = .ok id →
    id = s.1 ∧ (c.run db).2 = db

/-- **One call.** It fails and changes nothing, or it does what the model in one step does; this
    is the only place that looks at its statements. -/
theorem Call.run_cases (c : Call φ) {db : Ukg} {stored : List (Int × WindowCaptureRecord)}
    (h : Intact db stored) :
    c.run db = (.ok (db.insertCapture c.record).2, (db.insertCapture c.record).1) ∨
      ∃ f, some f ∈ c.outcomes ∧ c.run db = (.error (.fault f), db) := by
  refine transact_of_computes (Sql.computes_insertCapture c.record fun row hrow => ?_) c.outcomes
  rw [h.text] at hrow
  obtain ⟨s, hs, rfl⟩ := List.mem_map.mp hrow
  exact h.lt_nextId hs

/-- **Each call is faithful** to what was stored before it: the step of the induction over calls. -/
theorem Call.faithful (c : Call φ) {db : Ukg} {stored : List (Int × WindowCaptureRecord)}
    (h : Intact db stored) : c.Faithful db stored := by
  rcases c.run_cases h with hrun | ⟨f, hf, hrun⟩
  · refine ⟨fun e herror => ?_, fun s hs htoken id hok => ?_⟩
    · rw [hrun] at herror
      cases herror
    · have hknown := h.captureOfToken_of_mem hs
      rw [htoken] at hknown
      rw [hrun, Ukg.insertCapture, hknown] at hok ⊢
      exact ⟨(Except.ok.inj hok).symm, rfl⟩
  · refine ⟨fun e herror => ?_, fun s hs htoken id hok => ?_⟩
    · rw [hrun] at herror ⊢
      exact ⟨rfl, f, (Except.error.inj herror).symm, hf⟩
    · rw [hrun] at hok
      cases hok

/-- **One call keeps the database intact**, for the records that its answer says are stored. -/
theorem Call.intact (c : Call φ) {db : Ukg} {stored : List (Int × WindowCaptureRecord)}
    (h : Intact db stored) : Intact (c.run db).2 (noteAnswer stored c.record (c.run db).1) := by
  rcases c.run_cases h with hrun | ⟨f, -, hrun⟩
  · rw [hrun]
    cases htoken : db.captureOfToken c.record.imageToken with
    | none =>
      have hnew : (stored.any fun s => s.2.imageToken = c.record.imageToken) = false := by
        rw [h.any_token, htoken, Option.isSome_none]
      rw [noteAnswer, hnew, if_neg Bool.false_ne_true]
      exact h.insertCapture c.record htoken
    | some id =>
      have hknown : (stored.any fun s => s.2.imageToken = c.record.imageToken) = true := by
        rw [h.any_token, htoken, Option.isSome_some]
      rw [noteAnswer, if_pos hknown, Ukg.insertCapture, htoken]
      exact h
  · rw [hrun]
    exact h

/-- Whatever calls are made and wherever their statements fail, the database is intact for the
    records of those that succeeded. -/
theorem intact_history (calls : List (Call φ)) : Intact (history calls).1 (history calls).2 := by
  induction calls using List.reverseRecOn with
  | nil => exact intact_new
  | append_singleton calls c ih =>
    simp only [history, List.foldl_append, List.foldl_cons, List.foldl_nil]
    exact c.intact ih

/-- **Inserting captures.**  After any calls, whatever they insert and wherever their statements
    fail, the database holds the captures stored and exactly what belongs to them, and the next
    call fails without a trace, repeats an answer without a trace, or stores one more. -/
theorem insertCapture_intact (calls : List (Call φ)) :
    Intact (history calls).1 (history calls).2 ∧
    (∀ s ∈ (history calls).2,
      ((history calls).1.textIndex.filter fun row => row.rowid = s.1) = [textRow s]) ∧
    ∀ c : Call φ, c.Faithful (history calls).1 (history calls).2 :=
  ⟨intact_history calls, fun _ hs => (intact_history calls).filter_textIndex hs,
    fun c => c.faithful (intact_history calls)⟩

end

/-! ### An app without a path -/

section

attribute [local instance] TextTables.ascii

/-- A record of two apps that differ in their paths only: one has none, the other an empty one. -/
def pathlessApps : WindowCaptureRecord where
  name := "n"
  imageToken := "t"
  isForeground := true
  windowId := 0
  windowBounds := ""
  windowTitle := ""
  timestamp100ns := 0
  apps := [{ name := "a" }, { name := "a", path := some "" }]

/-- They are one app, and the capture is related to it once. -/
theorem pathlessApps_one :
    ¬ Exact (fun a : AppRecord => (a.name, a.path))
      (appKind.part.get (history [(⟨pathlessApps, []⟩ : Call Unit)]).1) 1 pathlessApps.apps := by
  rintro ⟨-, hexact⟩
  have hempty := (hexact (some ("a", some ""))).mpr ⟨_, List.mem_of_getLast? rfl, rfl⟩
  revert hempty
  decide +kernel

end

end Precall.Store
