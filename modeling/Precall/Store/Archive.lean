import Mathlib.Data.List.Dedup
import Precall.Store.Integrity

namespace Precall.Store

open TableLib TextLib TransactionLib Precall.Proto

/-!
# What `ukg.db` is for

Seventeen tables stand for one list of captures: each with the record it came from, whether its
text is done, its topics, the state of its image and the time of its last attempt.  `Archive` is
that list, `Archive.apply` what each writer of `precall-store/src/ukg.rs` does to it.

* `UkgWrite` / `UkgWrite.sql` — the writers, statement by statement against the foreign keys of
  `schema.rs`; `UkgWrite.apply` — the model's one step;
* `Holds` — the database holds an archive; `Holds.apply` — every writer keeps it;
* `ReadsBack` — what the readers return for a capture of the archive;
* `archive_refines` — after any calls, wherever their statements fail, the database holds the
  archive of the calls that succeeded, and the next call is refused exactly if a row that it writes
  would point to a capture that is not there.
-/

/-! ### The archive -/

/-- One capture of the archive; a topic it has been given again keeps its last score. -/
structure Entry where
  record : WindowCaptureRecord
  processed : Bool := false
  topics : List (String × F64)
  distinct : (topics.map Prod.fst).Nodup
  image : Option ImageEmbedding := none
  attempted : Option Int := none

/-- The captures under their ids, as the abstract state of the database; ids are never used
    again, also after a wipe. -/
abbrev Archive := Table Entry

/-- A capture that has just arrived: it has its record and nothing that enrichment adds. -/
def Entry.fresh (rec : WindowCaptureRecord) : Entry where
  record := rec
  topics := []
  distinct := List.nodup_nil

/-- One more topic, in place of an equal one, with the score that a column can keep. -/
def Entry.attach (e : Entry) (title : String) (score : F64) : Entry where
  record := e.record
  processed := e.processed
  topics := (e.topics.filter fun t => t.1 ≠ title) ++ [(title, Ukg.storedScore score)]
  distinct := by
    rw [List.map_append, List.nodup_append]
    refine ⟨e.distinct.sublist (List.filter_sublist.map _), List.nodup_singleton _, ?_⟩
    rintro _ hold _ hnew rfl
    obtain ⟨t, ht, hname⟩ := List.mem_map.mp hold
    have hne : t.1 ≠ title := by simpa using (List.mem_filter.mp ht).2
    exact hne (hname.trans (List.mem_singleton.mp hnew))
  image := e.image
  attempted := e.attempted

/-- The row of a capture. -/
def Entry.row (e : Entry) : WindowCaptureRow :=
  { Ukg.captureRow e.record with isProcessed := e.processed }

/-- A call that writes what belongs to captures, with the arguments its callers give it. -/
inductive UkgWrite where
  | insertCapture (rec : WindowCaptureRecord)
  | attachTopic (wcId : Int) (title : String) (score : F64)
  | markProcessed (wcId : Int)
  | markAllUnprocessed
  | setImageEmbeddingState (wcId : Int) (state : ImageState) (attempts : Int)
      (lastError : Option String) (now : Int)
  | resetImageEmbeddingStates
  | touchEnrichAttempt (wcId now : Int)
  deriving DecidableEq

/-- The capture to which the foreign key of a row that the call writes points.  `mark_processed` has
    none: it updates a row or, where there is none, nothing. -/
def UkgWrite.names : UkgWrite → Option Int
  | .attachTopic wcId .. => some wcId
  | .setImageEmbeddingState wcId .. | .touchEnrichAttempt wcId .. => some wcId
  | _ => none

namespace Archive

/-- The captures and their records. -/
def stored (a : Archive) : List (Int × WindowCaptureRecord) := a.rows.map fun r => (r.1, r.2.record)

/-- Has a capture with this token been archived? A second one with it is not. -/
def knows (a : Archive) (token : String) : Bool :=
  a.rows.any fun r => r.2.record.imageToken = token

/-- Rewrite one capture; where there is none under the id, nothing happens. -/
def edit (a : Archive) (wcId : Int) (f : Entry → Entry) : Archive :=
  a.update fun id e => if id = wcId then f e else e

/-- What a call does to the archive; the database's function below has the same name and takes
    the same calls. -/
def apply (a : Archive) : UkgWrite → Archive
  | .insertCapture rec => if a.knows rec.imageToken then a else a.insert (Entry.fresh rec)
  | .attachTopic wcId title score => a.edit wcId fun e => e.attach title score
  | .markProcessed wcId => a.edit wcId fun e => { e with processed := true }
  | .markAllUnprocessed => a.update fun _ e => { e with processed := false }
  | .setImageEmbeddingState wcId state attempts lastError now =>
      a.edit wcId fun e => { e with image := some ⟨state, attempts, lastError, now⟩ }
  | .resetImageEmbeddingStates => a.update fun _ e => { e with image := none }
  | .touchEnrichAttempt wcId now => a.edit wcId fun e => { e with attempted := some now }

/-- Editing an entry changes no other. -/
theorem get?_edit (a : Archive) (wcId id : Int) (f : Entry → Entry) :
    (a.edit wcId f).get? id = if id = wcId then (a.get? id).map f else a.get? id := by
  rw [edit, Table.get?_update]
  by_cases hid : id = wcId
  · simp only [if_pos hid]
  · simp only [if_neg hid, Option.map_id']

/-- What a rewriting of entries leaves alone, it leaves when it is applied to one of them, so the
    frame lemmas below serve single edits too. -/
theorem keeps (f : Entry → Entry) (wcId : Int) {β : Type} (g : Entry → β)
    (hf : ∀ e, g (f e) = g e) (id : Int) (e : Entry) : g (if id = wcId then f e else e) = g e := by
  split
  · exact hf e
  · rfl

section
variable {β : Type} {f : Int → Entry → Entry} (g : Entry → β)

/-- An update that leaves a field alone leaves it in every row. -/
theorem rows_update_of (a : Archive) (hf : ∀ id e, g (f id e) = g e) :
    (a.update f).rows.map (fun r => (r.1, g r.2)) = a.rows.map fun r => (r.1, g r.2) := by
  rw [Table.rows_update, List.map_map]
  exact List.map_congr_left fun r _ => congrArg (r.1, ·) (hf r.1 r.2)

/-- Nor does a reader of that field see it. -/
theorem get?_update_of (a : Archive) (hf : ∀ id e, g (f id e) = g e) (id : Int) :
    ((a.update f).get? id).map g = (a.get? id).map g := by
  rw [Table.get?_update, Option.map_map]
  exact congrArg (fun k => (a.get? id).map k) (funext (hf id))

end

end Archive

/-! ### The writers -/

namespace UkgWrite

/-- The model's one step. -/
def apply [TextTables] (db : Ukg) : UkgWrite → Ukg
  | .insertCapture rec => (db.insertCapture rec).1
  | .attachTopic wcId title score => db.attachTopic wcId title score
  | .markProcessed wcId => db.markProcessed wcId
  | .markAllUnprocessed => db.markAllUnprocessed
  | .setImageEmbeddingState wcId state attempts lastError now =>
      db.setImageEmbeddingState wcId state attempts lastError now
  | .resetImageEmbeddingStates => db.resetImageEmbeddingStates
  | .touchEnrichAttempt wcId now => db.touchEnrichAttempt wcId now

/-- The capture a call names is there; a call that names none refers to nothing that could be
    missing. -/
def Refers (w : UkgWrite) (db : Ukg) : Prop :=
  ∀ wcId, w.names = some wcId → (db.windowCapture.get? wcId).isSome

instance (w : UkgWrite) (db : Ukg) : Decidable (w.Refers db) :=
  match h : w.names with
  | none => isTrue fun _ hw => by rw [h] at hw; cases hw
  | some wcId =>
    decidable_of_iff ((db.windowCapture.get? wcId).isSome = true)
      ⟨fun hs _ hw => by rw [h] at hw; cases hw; exact hs, fun hall => hall wcId h⟩

end UkgWrite

namespace Sql

variable {φ : Type}

/-- `INSERT OR REPLACE` of a topic relation; both foreign keys must be there, and the score is one
    that the column can keep. -/
def replaceTopicRelation (wcId topicId : Int) (score : F64) : UkgTx φ Unit := statement fun db =>
  if (db.windowCapture.get? wcId).isSome ∧ (db.topic.get? topicId).isSome then
    .ok ((), { db with
      topicRelation := (db.topicRelation.deleteWhere fun r =>
        r.windowCaptureId == wcId && r.topicId == topicId).insert
          ⟨wcId, topicId, Ukg.storedScore score⟩ })
  else .error .constraint

/-- `Ukg::attach_topic`. -/
def attachTopic (wcId : Int) (title : String) (score : F64) : UkgTx φ Unit := do
  execute fun db => { db with topic := insertOrIgnore id db.topic title }
  let topicId ← queryRow fun db => db.topic.find? fun t => title = t
  replaceTopicRelation wcId topicId score
  -- the commit
  execute id

/-- A statement that writes a row of the capture it names, if that is there; if not, the foreign
    key refuses it. -/
def rowOf (wcId : Int) (f : Ukg → Ukg) : UkgTx φ Unit := statement fun db =>
  if (db.windowCapture.get? wcId).isSome then .ok ((), f db) else .error .constraint

end Sql

/-- The statements of a call, in their transaction; `mark_processed` and the two resets are
    single statements without a foreign key. -/
def UkgWrite.sql [TextTables] {φ : Type} : UkgWrite → Sql.UkgTx φ Unit
  | .insertCapture rec => Sql.insertCapture rec >>= fun _ => pure ()
  | .attachTopic wcId title score => Sql.attachTopic wcId title score
  | .markProcessed wcId => execute fun db => db.markProcessed wcId
  | .markAllUnprocessed => execute Ukg.markAllUnprocessed
  | .setImageEmbeddingState wcId state attempts lastError now =>
      Sql.rowOf wcId fun db => db.setImageEmbeddingState wcId state attempts lastError now
  | .resetImageEmbeddingStates => execute Ukg.resetImageEmbeddingStates
  | .touchEnrichAttempt wcId now => Sql.rowOf wcId fun db => db.touchEnrichAttempt wcId now

namespace Sql

variable {φ : Type}

/-- The topic's row is found, and the relation refers to rows if the capture is there. -/
theorem computes_attachTopic {wcId : Int} (title : String) (score : F64) {db : Ukg}
    (hwc : (db.windowCapture.get? wcId).isSome) :
    Computes (attachTopic wcId title score : UkgTx φ Unit) db ()
      (db.attachTopic wcId title score) := by
  obtain ⟨hinsert, hfind⟩ := upsertBy_eq id db.topic title
  obtain ⟨y, hy, -⟩ := mem_of_find? hfind
  have hlink : Computes (replaceTopicRelation wcId (upsertBy id db.topic title).2 score
      : UkgTx φ Unit) { db with topic := insertOrIgnore id db.topic title } ()
      (db.attachTopic wcId title score) := by
    refine computes_statement ?_
    rw [Table.get?_eq_some.mpr hy, if_pos ⟨hwc, rfl⟩, hinsert]
    rfl
  have hquery : Computes (queryRow fun db => db.topic.find? fun t => title = t : UkgTx φ Int)
      { db with topic := insertOrIgnore id db.topic title } (upsertBy id db.topic title).2 _ :=
    computes_queryRow hfind
  exact (computes_execute _ db).bind (hquery.bind (hlink.bind (computes_execute id _)))

/-- The topic is written, and then its relation refused, so the transaction takes the topic back. -/
theorem refuses_attachTopic {wcId : Int} (title : String) (score : F64) {db : Ukg}
    (hwc : ¬ (db.windowCapture.get? wcId).isSome = true) :
    Refuses (attachTopic wcId title score : UkgTx φ Unit) db := by
  obtain ⟨-, hfind⟩ := upsertBy_eq id db.topic title
  have hquery : Computes (queryRow fun db => db.topic.find? fun t => title = t : UkgTx φ Int)
      { db with topic := insertOrIgnore id db.topic title } (upsertBy id db.topic title).2 _ :=
    computes_queryRow hfind
  refine (computes_execute _ db).refuses (hquery.refuses (Refuses.bind ?_ _))
  exact refuses_statement (by rw [if_neg fun hboth => hwc hboth.1])

/-- A row about a capture that is there is written. -/
theorem computes_rowOf {wcId : Int} (f : Ukg → Ukg) {db : Ukg}
    (hwc : (db.windowCapture.get? wcId).isSome) :
    Computes (rowOf wcId f : UkgTx φ Unit) db () (f db) :=
  computes_statement (by rw [if_pos hwc])

/-- A row about a capture that is not there breaks the foreign key. -/
theorem refuses_rowOf {wcId : Int} (f : Ukg → Ukg) {db : Ukg}
    (hwc : ¬ (db.windowCapture.get? wcId).isSome = true) :
    Refuses (rowOf wcId f : UkgTx φ Unit) db :=
  refuses_statement (by rw [if_neg hwc])

end Sql

/-! ### Topics -/

/-- The topics of a capture, in the order of the relation. -/
def Ukg.topicsOf (db : Ukg) (wcId : Int) : List (String × F64) :=
  db.topicRelation.rows.filterMap fun r =>
    if r.2.windowCaptureId = wcId then (db.topic.get? r.2.topicId).map (·, r.2.score) else none

/-- Titles are unique, and relations point to them: what the lookup of a topic relies on. -/
structure TopicsSound (db : Ukg) : Prop where
  titles : Unique id db.topic
  points : ∀ r ∈ db.topicRelation.rows, ∃ title, (r.2.topicId, title) ∈ db.topic.rows

/-- **A topic.** The capture gains it, in place of an equal one, and no other capture's topics
    change. -/
theorem TopicsSound.attach {db : Ukg} (h : TopicsSound db) (wcId : Int) (title : String)
    (score : F64) :
    TopicsSound (db.attachTopic wcId title score) ∧
      ∀ other, (db.attachTopic wcId title score).topicsOf other
        = if other = wcId then
            ((db.topicsOf wcId).filter fun t => t.1 ≠ title) ++ [(title, Ukg.storedScore score)]
          else db.topicsOf other := by
  obtain ⟨hinsert, hfind⟩ := upsertBy_eq id db.topic title
  obtain ⟨y, hy, rfl : y = title⟩ := mem_of_find? hfind
  rw [hinsert] at hy
  have hgrow : db.topic.rows ⊆ (upsertBy id db.topic y).1.rows := rows_subset_upsertBy id _ _
  have hunique : Unique id (upsertBy id db.topic y).1 := hinsert ▸ h.titles.insertOrIgnore
  generalize hup : upsertBy id db.topic y = up at hy hgrow hunique
  have hattach : db.attachTopic wcId y score = { db with
      topic := up.1
      topicRelation := (db.topicRelation.deleteWhere fun r =>
        r.windowCaptureId == wcId && r.topicId == up.2).insert
          ⟨wcId, up.2, Ukg.storedScore score⟩ } := by
    rw [← hup]
    rfl
  rw [hattach]
  refine ⟨⟨hunique, fun r hr => ?_⟩, fun other => ?_⟩
  · rcases List.mem_append.mp hr with hr | hr
    · obtain ⟨t, ht⟩ := h.points r (List.mem_of_mem_filter hr)
      exact ⟨t, hgrow ht⟩
    · rw [List.mem_singleton.mp hr]
      exact ⟨y, hy⟩
  -- the rows that stay, one by one: those of other captures, and those of other titles
  have hkept : ∀ r ∈ db.topicRelation.rows,
      (if (!(r.2.windowCaptureId == wcId && r.2.topicId == up.2)) = true then
        if r.2.windowCaptureId = other then (up.1.get? r.2.topicId).map (·, r.2.score) else none
        else none)
      = if other = wcId then
          (if r.2.windowCaptureId = wcId then (db.topic.get? r.2.topicId).map (·, r.2.score)
            else none).filter fun t => t.1 ≠ y
        else if r.2.windowCaptureId = other then (db.topic.get? r.2.topicId).map (·, r.2.score)
          else none := by
    intro r hr
    obtain ⟨t, ht⟩ := h.points r hr
    have hsame : r.2.topicId = up.2 ↔ t = y := by
      constructor
      · intro heq
        exact Table.eq_of_mem (heq ▸ hgrow ht) hy
      · rintro rfl
        exact (Prod.mk.inj (hunique.eq_of_key (hgrow ht) hy rfl)).1
    rw [Table.get?_eq_some.mpr ht, Table.get?_eq_some.mpr (hgrow ht)]
    by_cases hother : other = wcId
    · subst hother
      by_cases hrow : r.2.windowCaptureId = other
      · by_cases htitle : t = y
        · simp [hrow, hsame.mpr htitle, htitle, Option.filter]
        · simp [hrow, mt hsame.mp htitle, htitle, Option.filter]
      · simp [hrow]
    · by_cases hrow : r.2.windowCaptureId = other
      · simp [hrow, hother]
      · simp [hrow, hother]
  simp only [Ukg.topicsOf, Table.rows_insert, Table.deleteWhere, List.filterMap_append,
    List.filterMap_filter, List.filterMap_congr hkept, List.filterMap_cons, List.filterMap_nil,
    Table.get?_eq_some.mpr hy]
  by_cases hother : other = wcId
  · simp only [if_pos hother, if_pos hother.symm, List.filter_filterMap]
    rfl
  · simp only [if_neg hother, if_neg (Ne.symm hother), List.append_nil]

/-! ### What the database holds -/

/-- The row of a region. -/
def regionRow (wcId : Int) (r : ScreenRegionRecord) : ScreenRegionRow :=
  ⟨wcId, r.regionKind, r.ocrText, r.bounds⟩

section
variable [TextTables]

/-- The tables that only ingestion writes hold these captures: regions, full-text rows and the
    three kinds of related entities. -/
structure RecordsHold (db : Ukg) (stored : List (Int × WindowCaptureRecord)) : Prop where
  tokens : (stored.map fun s => s.2.imageToken).Nodup
  text : db.textIndex = stored.map textRow
  regions : db.screenRegion.rows.map Prod.snd
    = stored.flatMap fun s => s.2.regions.map (regionRow s.1)
  apps : KindIntact appKind WindowCaptureRecord.apps db stored
  files : KindIntact fileKind WindowCaptureRecord.files db stored
  webs : KindIntact webKind WindowCaptureRecord.webs db stored

/-- The database holds the archive: the relation between the two levels, table by table, that
    every call keeps. -/
structure Holds (db : Ukg) (a : Archive) : Prop where
  captures : db.windowCapture.rows = a.rows.map fun r => (r.1, r.2.row)
  counter : db.windowCapture.nextId = a.nextId
  records : RecordsHold db a.stored
  topics : TopicsSound db
  attached : ∀ wcId, db.topicsOf wcId = ((a.get? wcId).map Entry.topics).getD []
  images : ∀ wcId, db.imageEmbedding.lookup wcId = ((a.get? wcId).map Entry.image).join
  attempts : ∀ wcId, db.enrichAttempt.lookup wcId = ((a.get? wcId).map Entry.attempted).join

/-- The tables of the records are these tables only, so a write to any other keeps it. -/
theorem RecordsHold.congr {db db' : Ukg} {stored : List (Int × WindowCaptureRecord)}
    (h : RecordsHold db stored) (htext : db'.textIndex = db.textIndex)
    (hregions : db'.screenRegion = db.screenRegion)
    (happs : appKind.part.get db' = appKind.part.get db)
    (hfiles : fileKind.part.get db' = fileKind.part.get db)
    (hwebs : webKind.part.get db' = webKind.part.get db) : RecordsHold db' stored where
  tokens := h.tokens
  text := htext.trans h.text
  regions := (congrArg (fun t => t.rows.map Prod.snd) hregions).trans h.regions
  apps := ⟨happs ▸ h.apps.sound, happs ▸ h.apps.exact, happs ▸ h.apps.others⟩
  files := ⟨hfiles ▸ h.files.sound, hfiles ▸ h.files.exact, hfiles ▸ h.files.others⟩
  webs := ⟨hwebs ▸ h.webs.sound, hwebs ▸ h.webs.exact, hwebs ▸ h.webs.others⟩

/-- A new database holds the empty archive. -/
theorem holds_new : Holds Ukg.new Table.empty where
  captures := rfl
  counter := rfl
  records := {
    tokens := List.nodup_nil
    text := rfl
    regions := rfl
    apps := kindIntact_new appKind _ rfl
    files := kindIntact_new fileKind _ rfl
    webs := kindIntact_new webKind _ rfl }
  topics := ⟨List.nodup_nil, fun _ hr => absurd hr List.not_mem_nil⟩
  attached := fun _ => rfl
  images := fun _ => rfl
  attempts := fun _ => rfl

omit [TextTables] in
/-- One row after the other: a loop of inserts appends the rows it is given, in their order. -/
theorem rows_foldl_insert {α β : Type} (f : β → α) (xs : List β) (t : Table α) :
    (xs.foldl (fun t x => t.insert (f x)) t).rows.map Prod.snd
      = t.rows.map Prod.snd ++ xs.map f := by
  induction xs generalizing t with
  | nil => simp
  | cons x xs ih => rw [List.foldl_cons, ih, Table.rows_insert]; simp

namespace Holds

variable {db : Ukg} {a : Archive}

/-- The capture under an id is the one of the archive. -/
theorem get? (h : Holds db a) (wcId : Int) :
    db.windowCapture.get? wcId = (a.get? wcId).map Entry.row :=
  Table.get?_of_rows (f := fun _ => Entry.row) h.captures wcId

/-- A capture of the database is one of the archive. -/
theorem isSome_get? (h : Holds db a) {wcId : Int} :
    (db.windowCapture.get? wcId).isSome = (a.get? wcId).isSome := by
  rw [h.get?, Option.isSome_map]

/-- A token is known to the database exactly if it is to the archive, so both levels take the
    same branch of `insert_capture`. -/
theorem knows (h : Holds db a) (token : String) :
    (db.captureOfToken token).isSome = a.knows token := by
  rw [Ukg.captureOfToken, Table.find?, Option.isSome_map, List.isSome_find?, h.captures,
    List.any_map]
  refine congrArg (fun p => a.rows.any p) (funext fun r => ?_)
  show (some r.2.record.imageToken == some token) = decide (r.2.record.imageToken = token)
  rw [Option.some_beq_some]
  rfl

/-- **A capture that has not been there.** Its row, its regions, its text and its relations are
    all that is added, and the archive gains its entry. -/
theorem insertNew (h : Holds db a) (rec : WindowCaptureRecord)
    (htoken : db.captureOfToken rec.imageToken = none) :
    Holds (db.insertCapture rec).1 (a.insert (Entry.fresh rec)) := by
  have hnone : a.get? a.nextId = none := Table.get?_nextId a
  have hnew : db.windowCapture.nextId ∉ a.stored.map Prod.fst := by
    rw [h.counter, Archive.stored, List.map_map]
    intro hmem
    obtain ⟨r, hr, heq⟩ := List.mem_map.mp hmem
    exact absurd (Table.lt_nextId hr) (heq ▸ lt_irrefl _)
  have hstored : Archive.stored (a.insert (Entry.fresh rec))
      = a.stored ++ [(db.windowCapture.nextId, rec)] := by
    rw [h.counter, Archive.stored, Table.rows_insert, List.map_append]
    rfl
  -- an arriving capture has no topics, no image and no attempt yet
  have hget : ∀ (β : Type) (f : Entry → Option β), f (Entry.fresh rec) = none → ∀ wcId,
      (((a.insert (Entry.fresh rec)).get? wcId).map f).join = ((a.get? wcId).map f).join := by
    intro β f hf wcId
    by_cases hid : wcId = a.nextId
    · rw [hid, Table.get?_insert_self, hnone, Option.map_some, hf]
      rfl
    · rw [Table.get?_insert_ne _ _ hid]
  rw [Ukg.insertCapture, htoken]
  dsimp only
  refine ⟨?_, ?_, ?_, ⟨h.topics.titles, h.topics.points⟩,
    fun wcId => (h.attached wcId).trans ?_,
    fun wcId => (h.images wcId).trans (hget _ _ rfl wcId).symm,
    fun wcId => (h.attempts wcId).trans (hget _ _ rfl wcId).symm⟩
  · rw [Table.rows_insert, h.captures, h.counter, Table.rows_insert, List.map_append]
    rfl
  · show db.windowCapture.nextId + 1 = a.nextId + 1
    rw [h.counter]
  · rw [hstored]
    refine ⟨?_, ?_, ?_, h.records.apps.concat hnew (Sql.relateAll_app _ _ _),
      h.records.files.concat hnew (Sql.relateAll_file _ _ _),
      h.records.webs.concat hnew (Sql.relateAll_web _ _ _)⟩
    · rw [List.map_append, List.nodup_append]
      refine ⟨h.records.tokens, List.nodup_singleton _, ?_⟩
      rintro _ hold _ hlast rfl
      -- a stored capture with the new token would have been found
      have hunknown := h.knows rec.imageToken
      rw [htoken, Option.isSome_none, Archive.knows, Eq.comm, List.any_eq_false] at hunknown
      obtain ⟨s, hs, hsame⟩ := List.mem_map.mp hold
      obtain ⟨r, hr, rfl⟩ := List.mem_map.mp hs
      exact hunknown r hr (decide_eq_true (hsame.trans (List.mem_singleton.mp hlast)))
    · rw [h.records.text, List.map_append]
      rfl
    · refine (rows_foldl_insert (regionRow db.windowCapture.nextId) _ _).trans ?_
      rw [h.records.regions, List.flatMap_append, List.flatMap_cons, List.flatMap_nil,
        List.append_nil]
  · by_cases hid : wcId = a.nextId
    · rw [hid, Table.get?_insert_self, hnone]
      rfl
    · rw [Table.get?_insert_ne _ _ hid]

/-- A call of `insert_capture`, whether the token is known or new. -/
theorem insertCapture (h : Holds db a) (rec : WindowCaptureRecord) :
    Holds (db.insertCapture rec).1 (a.apply (.insertCapture rec)) := by
  have hknows := h.knows rec.imageToken
  cases htoken : db.captureOfToken rec.imageToken with
  | none =>
    rw [htoken, Option.isSome_none] at hknows
    rw [Archive.apply, ← hknows, if_neg Bool.false_ne_true]
    exact h.insertNew rec htoken
  | some id =>
    rw [htoken, Option.isSome_some] at hknows
    rw [Archive.apply, ← hknows, if_pos rfl, Ukg.insertCapture, htoken]
    exact h

section
variable {db' : Ukg} {f : Int → Entry → Entry}

/-! Rewriting entries shows in the tables of what is rewritten, and in no other. -/

/-- An update of the archive that leaves the rows of the captures alone leaves them as the
    database has them. -/
theorem captures_update (h : Holds db a) (hsame : db'.windowCapture = db.windowCapture)
    (hf : ∀ id e, (f id e).row = e.row) :
    db'.windowCapture.rows = (a.update f).rows.map fun r => (r.1, r.2.row) := by
  rw [hsame, h.captures]
  exact (a.rows_update_of Entry.row hf).symm

/-- Such an update of the archive leaves the stored records as they are. -/
theorem records_update (h : RecordsHold db' a.stored) (hf : ∀ id e, (f id e).record = e.record) :
    RecordsHold db' (Archive.stored (a.update f)) := by
  have hstored : Archive.stored (a.update f) = a.stored := a.rows_update_of Entry.record hf
  rw [hstored]
  exact h

/-- An update that leaves the topics of the entries alone, where the topics of the database do
    not change either. -/
theorem attached_update (h : Holds db a) (htopics : db'.topic = db.topic)
    (hrelation : db'.topicRelation = db.topicRelation) (hf : ∀ id e, (f id e).topics = e.topics)
    (wcId : Int) : db'.topicsOf wcId = (((a.update f).get? wcId).map Entry.topics).getD [] := by
  rw [Ukg.topicsOf, htopics, hrelation, a.get?_update_of Entry.topics hf]
  exact h.attached wcId

/-- The same for the states of the screenshots. -/
theorem images_update (h : Holds db a) (hsame : db'.imageEmbedding = db.imageEmbedding)
    (hf : ∀ id e, (f id e).image = e.image) (wcId : Int) :
    db'.imageEmbedding.lookup wcId = (((a.update f).get? wcId).map Entry.image).join := by
  rw [hsame, a.get?_update_of Entry.image hf]
  exact h.images wcId

/-- The same for the times of the last attempts. -/
theorem attempts_update (h : Holds db a) (hsame : db'.enrichAttempt = db.enrichAttempt)
    (hf : ∀ id e, (f id e).attempted = e.attempted) (wcId : Int) :
    db'.enrichAttempt.lookup wcId = (((a.update f).get? wcId).map Entry.attempted).join := by
  rw [hsame, a.get?_update_of Entry.attempted hf]
  exact h.attempts wcId

end

/-- **A topic** of a capture that is there joins its entry. -/
theorem attachTopic (h : Holds db a) {wcId : Int} (hwc : (db.windowCapture.get? wcId).isSome)
    (title : String) (score : F64) : Holds (db.attachTopic wcId title score)
      (a.edit wcId fun e => e.attach title score) := by
  obtain ⟨htopics, hattached⟩ := h.topics.attach wcId title score
  obtain ⟨e, he⟩ := Option.isSome_iff_exists.mp (h.isSome_get? ▸ hwc)
  have hkeep := @Archive.keeps (fun e => e.attach title score) wcId
  refine ⟨h.captures_update rfl (hkeep Entry.row fun _ => rfl), h.counter,
    records_update (h.records.congr rfl rfl rfl rfl rfl) (hkeep Entry.record fun _ => rfl), htopics,
    fun id => ?_, h.images_update rfl (hkeep Entry.image fun _ => rfl),
    h.attempts_update rfl (hkeep Entry.attempted fun _ => rfl)⟩
  rw [hattached, Archive.get?_edit]
  by_cases hid : id = wcId
  · rw [if_pos hid, if_pos hid, hid, h.attached, he]
    rfl
  · rw [if_neg hid, if_neg hid]
    exact h.attached id

/-- **A verdict on an image** replaces the one in the entry. -/
theorem setImageEmbeddingState (h : Holds db a) {wcId : Int}
    (hwc : (db.windowCapture.get? wcId).isSome) (state : ImageState) (attempts : Int)
    (lastError : Option String) (now : Int) :
    Holds (db.setImageEmbeddingState wcId state attempts lastError now)
      (a.edit wcId fun e => { e with image := some ⟨state, attempts, lastError, now⟩ }) := by
  obtain ⟨e, he⟩ := Option.isSome_iff_exists.mp (h.isSome_get? ▸ hwc)
  have hkeep := @Archive.keeps
    (fun e => { e with image := some ⟨state, attempts, lastError, now⟩ }) wcId
  refine ⟨h.captures_update rfl (hkeep Entry.row fun _ => rfl), h.counter,
    records_update (h.records.congr rfl rfl rfl rfl rfl) (hkeep Entry.record fun _ => rfl),
    ⟨h.topics.titles, h.topics.points⟩,
    h.attached_update rfl rfl (hkeep Entry.topics fun _ => rfl), fun id => ?_,
    h.attempts_update rfl (hkeep Entry.attempted fun _ => rfl)⟩
  rw [Archive.get?_edit]
  by_cases hid : id = wcId
  · rw [if_pos hid, hid, he]
    exact AList.lookup_insert _
  · rw [if_neg hid]
    exact (AList.lookup_insert_ne hid).trans (h.images id)

/-- **The time of an attempt** replaces the one in the entry. -/
theorem touchEnrichAttempt (h : Holds db a) {wcId : Int}
    (hwc : (db.windowCapture.get? wcId).isSome) (now : Int) :
    Holds (db.touchEnrichAttempt wcId now)
      (a.edit wcId fun e => { e with attempted := some now }) := by
  obtain ⟨e, he⟩ := Option.isSome_iff_exists.mp (h.isSome_get? ▸ hwc)
  have hkeep := @Archive.keeps (fun e => { e with attempted := some now }) wcId
  refine ⟨h.captures_update rfl (hkeep Entry.row fun _ => rfl), h.counter,
    records_update (h.records.congr rfl rfl rfl rfl rfl) (hkeep Entry.record fun _ => rfl),
    ⟨h.topics.titles, h.topics.points⟩,
    h.attached_update rfl rfl (hkeep Entry.topics fun _ => rfl),
    h.images_update rfl (hkeep Entry.image fun _ => rfl), fun id => ?_⟩
  rw [Archive.get?_edit]
  by_cases hid : id = wcId
  · rw [if_pos hid, hid, he]
    exact AList.lookup_insert _
  · rw [if_neg hid]
    exact (AList.lookup_insert_ne hid).trans (h.attempts id)

/-- **Forgetting the verdicts**, in every entry at once. -/
theorem resetImageEmbeddingStates (h : Holds db a) :
    Holds db.resetImageEmbeddingStates (a.update fun _ e => { e with image := none }) := by
  refine ⟨h.captures_update rfl fun _ _ => rfl, h.counter,
    records_update (h.records.congr rfl rfl rfl rfl rfl) fun _ _ => rfl,
    ⟨h.topics.titles, h.topics.points⟩, h.attached_update rfl rfl fun _ _ => rfl, fun id => ?_,
    h.attempts_update rfl fun _ _ => rfl⟩
  rw [Table.get?_update]
  show none = _
  cases a.get? id <;> rfl

/-- **Flags.**  Captures marked, and captures put back to work. -/
theorem flags (h : Holds db a) (g : Int → Bool → Bool) :
    Holds { db with windowCapture :=
        db.windowCapture.update fun id w => { w with isProcessed := g id w.isProcessed } }
      (a.update fun id e => { e with processed := g id e.processed }) := by
  refine ⟨?_, h.counter, records_update (h.records.congr rfl rfl rfl rfl rfl) fun _ _ => rfl,
    ⟨h.topics.titles, h.topics.points⟩, h.attached_update rfl rfl fun _ _ => rfl,
    h.images_update rfl fun _ _ => rfl, h.attempts_update rfl fun _ _ => rfl⟩
  rw [Table.rows_update, h.captures, Table.rows_update, List.map_map, List.map_map]
  rfl

/-- **Every writer.**  A call that names a capture that is there does what it does to the
    archive. -/
theorem apply (h : Holds db a) {w : UkgWrite} (hw : w.Refers db) :
    Holds (w.apply db) (a.apply w) := by
  cases w with
  | insertCapture rec => exact h.insertCapture rec
  | attachTopic wcId title score => exact h.attachTopic (hw wcId rfl) title score
  | markProcessed wcId =>
    have hrow : ∀ (id : Int) (w : WindowCaptureRow),
        { w with isProcessed := if id = wcId then true else w.isProcessed }
          = if id = wcId then { w with isProcessed := true } else w := by
      intro id w
      split <;> rfl
    have hentry : ∀ (id : Int) (e : Entry),
        { e with processed := if id = wcId then true else e.processed }
          = if id = wcId then { e with processed := true } else e := by
      intro id e
      split <;> rfl
    have hflag := h.flags fun id b => if id = wcId then true else b
    simp only [hrow, hentry] at hflag
    exact hflag
  | markAllUnprocessed => exact h.flags fun _ _ => false
  | setImageEmbeddingState wcId state attempts lastError now =>
    exact h.setImageEmbeddingState (hw wcId rfl) state attempts lastError now
  | resetImageEmbeddingStates => exact h.resetImageEmbeddingStates
  | touchEnrichAttempt wcId now => exact h.touchEnrichAttempt (hw wcId rfl) now

/-- The other tables are not the archive's: dwell times, settings and clients may change freely. -/
theorem aside (h : Holds db a) (appDwell webDwell : Table DwellRow)
    (config : AList fun _ : String => String) (client : AList fun _ : String => ClientRow) :
    Holds { db with appDwell := appDwell, webDwell := webDwell, config := config, client := client }
      a :=
  ⟨h.captures, h.counter, h.records.congr rfl rfl rfl rfl rfl, ⟨h.topics.titles, h.topics.points⟩,
    h.attached, h.images, h.attempts⟩

/-- **The wipe** leaves an empty archive, whose next id is still the one after the last. -/
theorem purgeAll (h : Holds db a) : Holds db.purgeAll a.deleteAll where
  captures := rfl
  counter := h.counter
  records := {
    tokens := List.nodup_nil
    text := rfl
    regions := rfl
    apps := ⟨⟨h.records.apps.sound.unique, fun _ hr => absurd hr List.not_mem_nil⟩,
      fun _ hs => absurd hs List.not_mem_nil, fun _ _ => rfl⟩
    files := ⟨⟨h.records.files.sound.unique, fun _ hr => absurd hr List.not_mem_nil⟩,
      fun _ hs => absurd hs List.not_mem_nil, fun _ _ => rfl⟩
    webs := ⟨⟨h.records.webs.sound.unique, fun _ hr => absurd hr List.not_mem_nil⟩,
      fun _ hs => absurd hs List.not_mem_nil, fun _ _ => rfl⟩ }
  topics := ⟨h.topics.titles, fun _ hr => absurd hr List.not_mem_nil⟩
  attached := fun _ => rfl
  images := fun _ => rfl
  attempts := fun _ => rfl

end Holds

/-! ### What is read back -/

omit [TextTables] in
/-- The apps of a capture are those its relations lead to, in some order, which is the engine's. -/
theorem captureAppNames_perm [Ukg.JoinOrder] (db : Ukg) (wcId : Int) :
    (db.captureAppNames wcId).Perm
      ((related appKey (db.app, db.appRelation) wcId).filterMap fun key => key.map Prod.fst) := by
  unfold Ukg.captureAppNames related
  rw [List.filterMap_filterMap]
  refine ((Ukg.JoinOrder.walk_perm _).filterMap _).trans (List.Perm.of_eq ?_)
  refine List.filterMap_congr fun r _ => ?_
  split
  · rw [Option.bind_some, Option.map_map]
    rfl
  · rfl

omit [TextTables] in
/-- The entries of a capture are those of its record, each once. -/
theorem Exact.perm {α κ : Type} [DecidableEq κ] {key : α → κ} {t : Linked α} {wcId : Int}
    {xs : List α} (h : Exact key t wcId xs) :
    (related key t wcId).Perm ((xs.map key).dedup.map some) := by
  refine (List.perm_ext_iff_of_nodup h.1 ?_).mpr fun i => ?_
  · exact (List.nodup_dedup _).map (Option.some_injective κ)
  · rw [h.2]
    simp [eq_comm]

/-- What is read for a capture: by `image_token`, `capture_timestamp`, `capture_app_names`,
    `regions` and `image_embedding_state`, and, where the crate has no reader of its own, by
    following the relations and looking up the rows of the capture's id. -/
structure ReadsBack [Ukg.JoinOrder] (db : Ukg) (wcId : Int) (e : Entry) : Prop where
  token : db.imageToken wcId = .ok (some e.record.imageToken)
  timestamp : db.captureTimestamp wcId = some (asI64 e.record.timestamp100ns)
  apps : (db.captureAppNames wcId).Perm ((e.record.apps.map appKey).dedup.map Prod.fst)
  files : (related fileKind.key (fileKind.part.get db) wcId).Perm
    ((e.record.files.map fileKind.key).dedup.map some)
  webs : (related webKind.key (webKind.part.get db) wcId).Perm
    ((e.record.webs.map webKind.key).dedup.map some)
  regions : (db.regions wcId).map Prod.snd = e.record.regions.map (regionRow wcId)
  text : (db.textIndex.filter fun row => row.rowid = wcId) = [textRow (wcId, e.record)]
  topics : db.topicsOf wcId = e.topics
  processed : (db.windowCapture.get? wcId).map WindowCaptureRow.isProcessed = some e.processed
  image : db.imageEmbeddingState wcId = e.image.map fun i => (i.state, i.attempts, i.lastError)
  attempted : db.enrichAttempt.lookup wcId = e.attempted

/-- What is read where there is none: every reader finds nothing, rather than what is left of
    another capture. -/
structure ReadsNothing [Ukg.JoinOrder] (db : Ukg) (wcId : Int) : Prop where
  token : db.imageToken wcId = .ok none
  timestamp : db.captureTimestamp wcId = none
  apps : db.captureAppNames wcId = []
  files : related fileKind.key (fileKind.part.get db) wcId = []
  webs : related webKind.key (webKind.part.get db) wcId = []
  regions : db.regions wcId = []
  text : (db.textIndex.filter fun row => row.rowid = wcId) = []
  topics : db.topicsOf wcId = []
  processed : db.windowCapture.get? wcId = none
  image : db.imageEmbeddingState wcId = none
  attempted : db.enrichAttempt.lookup wcId = none

namespace Holds

variable {db : Ukg} {a : Archive}

/-- The regions of a capture are those of its record, in order: filtering the table by the id
    undoes the loop that filled it. -/
theorem regions_eq (h : Holds db a) (wcId : Int) : (db.regions wcId).map Prod.snd
    = ((a.get? wcId).map fun e => e.record.regions.map (regionRow wcId)).getD [] := by
  rw [← Table.flatMap_key]
  have hrows : (db.regions wcId).map Prod.snd
      = (db.screenRegion.rows.map Prod.snd).filter fun row => row.windowCaptureId == wcId := by
    rw [List.filter_map]
    rfl
  rw [hrows, h.records.regions, Archive.stored, List.flatMap_map, List.filter_flatMap]
  refine List.flatMap_congr fun r _ => ?_
  rw [List.filter_map]
  by_cases hid : r.1 = wcId
  · rw [if_pos hid, ← hid]
    exact congrArg (List.map (regionRow r.1))
      (List.filter_eq_self.mpr fun _ _ => beq_self_eq_true r.1)
  · rw [if_neg hid]
    exact congrArg (List.map (regionRow r.1))
      (List.filter_eq_nil_iff.mpr fun _ _ => mt beq_iff_eq.mp hid)

/-- The row of the full-text index of a capture, of which there is one. -/
theorem text_eq (h : Holds db a) (wcId : Int) : (db.textIndex.filter fun row => row.rowid = wcId)
    = ((a.get? wcId).map fun e => [textRow (wcId, e.record)]).getD [] := by
  rw [← Table.flatMap_key, h.records.text, Archive.stored, List.map_map, List.map_eq_flatMap,
    List.filter_flatMap]
  refine List.flatMap_congr fun r _ => ?_
  by_cases hid : r.1 = wcId
  · rw [if_pos hid, ← hid, List.filter_cons_of_pos (by simp [textRow]), List.filter_nil]
    rfl
  · have hrow : ¬ decide ((textRow (r.1, r.2.record)).rowid = wcId) = true :=
      fun heq => hid (of_decide_eq_true heq)
    rw [if_neg hid]
    exact List.filter_cons_of_neg hrow

/-- **Reading a capture** gives back its own entry, field by field. -/
theorem readsBack [Ukg.JoinOrder] (h : Holds db a) {wcId : Int} {e : Entry}
    (he : a.get? wcId = some e) : ReadsBack db wcId e := by
  have hrow : db.windowCapture.get? wcId = some e.row := by rw [h.get?, he, Option.map_some]
  have hstored : (wcId, e.record) ∈ a.stored :=
    List.mem_map_of_mem (f := fun r => (r.1, r.2.record)) (Table.get?_eq_some.mp he)
  refine ⟨?_, ?_, ?_, (h.records.files.exact _ hstored).perm,
    (h.records.webs.exact _ hstored).perm, ?_, ?_, ?_, ?_, ?_, ?_⟩
  · rw [Ukg.imageToken, hrow]
    rfl
  · rw [Ukg.captureTimestamp, hrow]
    rfl
  · refine (captureAppNames_perm db wcId).trans ?_
    refine ((h.records.apps.exact _ hstored).perm.filterMap fun key => key.map Prod.fst).trans ?_
    rw [List.filterMap_map]
    exact List.Perm.of_eq (congrFun List.filterMap_eq_map _)
  · rw [h.regions_eq, he]
    rfl
  · rw [h.text_eq, he]
    rfl
  · rw [h.attached, he]
    rfl
  · rw [hrow]
    rfl
  · rw [Ukg.imageEmbeddingState, h.images, he]
    rfl
  · rw [h.attempts, he]
    rfl

/-- **Reading no capture** gives nothing, field by field. -/
theorem readsNothing [Ukg.JoinOrder] (h : Holds db a) {wcId : Int} (hnone : a.get? wcId = none) :
    ReadsNothing db wcId := by
  have hrow : db.windowCapture.get? wcId = none := by rw [h.get?, hnone, Option.map_none]
  have hnew : wcId ∉ a.stored.map Prod.fst := by
    rw [Archive.stored, List.map_map]
    intro hmem
    obtain ⟨r, hr, rfl⟩ := List.mem_map.mp hmem
    exact Table.get?_eq_none.mp hnone r.2 hr
  refine ⟨?_, ?_, ?_, h.records.files.others wcId hnew, h.records.webs.others wcId hnew, ?_, ?_, ?_,
    hrow, ?_, ?_⟩
  · rw [Ukg.imageToken, hrow]
  · rw [Ukg.captureTimestamp, hrow, Option.map_none]
  · have hothers : related appKey (db.app, db.appRelation) wcId = [] :=
      h.records.apps.others wcId hnew
    have hnames := captureAppNames_perm db wcId
    rw [hothers, List.filterMap_nil] at hnames
    exact hnames.eq_nil
  · have hregions := h.regions_eq wcId
    rw [hnone] at hregions
    exact List.map_eq_nil_iff.mp hregions
  · rw [h.text_eq, hnone]
    rfl
  · rw [h.attached, hnone]
    rfl
  · rw [Ukg.imageEmbeddingState, h.images, hnone]
    rfl
  · rw [h.attempts, hnone]
    rfl

end Holds

end

/-! ### Any calls -/

section
variable [TextTables] {φ : Type}

/-- **A call that names a capture that is there**, or none: unless one of its statements is made
    to fail it does what the model does in one step. -/
theorem computes_sql {db : Ukg} {a : Archive} (h : Holds db a) {w : UkgWrite} (hw : w.Refers db) :
    Computes (w.sql : Sql.UkgTx φ Unit) db () (w.apply db) := by
  cases w with
  | insertCapture rec =>
    refine (Sql.computes_insertCapture rec fun row hrow => ?_).bind (computes_pure () _)
    rw [h.records.text] at hrow
    obtain ⟨s, hs, rfl⟩ := List.mem_map.mp hrow
    obtain ⟨r, hr, rfl⟩ := List.mem_map.mp hs
    rw [h.counter]
    exact Table.lt_nextId hr
  | attachTopic wcId title score => exact Sql.computes_attachTopic title score (hw wcId rfl)
  | markProcessed wcId => exact computes_execute _ db
  | markAllUnprocessed => exact computes_execute _ db
  | setImageEmbeddingState wcId state attempts lastError now =>
    exact Sql.computes_rowOf _ (hw wcId rfl)
  | resetImageEmbeddingStates => exact computes_execute _ db
  | touchEnrichAttempt wcId now => exact Sql.computes_rowOf _ (hw wcId rfl)

/-- **A call whose row would point to a capture that is not there** is refused. -/
theorem refuses_sql {db : Ukg} {w : UkgWrite} (hw : ¬ w.Refers db) :
    Refuses (w.sql : Sql.UkgTx φ Unit) db := by
  obtain ⟨wcId, hname, hnone⟩ : ∃ wcId, w.names = some wcId ∧
      ¬ (db.windowCapture.get? wcId).isSome = true := by
    simpa [UkgWrite.Refers] using hw
  cases w with
  | attachTopic id title score =>
    obtain rfl : id = wcId := Option.some.inj hname
    exact Sql.refuses_attachTopic title score hnone
  | setImageEmbeddingState id state attempts lastError now =>
    obtain rfl : id = wcId := Option.some.inj hname
    exact Sql.refuses_rowOf _ hnone
  | touchEnrichAttempt id now =>
    obtain rfl : id = wcId := Option.some.inj hname
    exact Sql.refuses_rowOf _ hnone
  | insertCapture rec => cases hname
  | markProcessed id => cases hname
  | markAllUnprocessed => cases hname
  | resetImageEmbeddingStates => cases hname

/-- A call and how its statements end, or a wipe that runs to its end. -/
inductive Turn (φ : Type) where
  | call (w : UkgWrite) (outcomes : List (Outcome φ))
  | wiped

/-- A turn: the database it leaves, and the archive, which follows the calls that succeed. -/
def Turn.extend (s : Ukg × Archive) : Turn φ → Ukg × Archive
  | .call w outcomes =>
      match transact w.sql s.1 outcomes with
      | (.ok (), db) => (db, s.2.apply w)
      | (.error _, db) => (db, s.2)
  | .wiped => (s.1.purgeAll, s.2.deleteAll)

/-- The database after turns from an empty one, and the archive of what succeeded: the two sides
    of the refinement, side by side. -/
def archived (turns : List (Turn φ)) : Ukg × Archive :=
  turns.foldl Turn.extend (Ukg.new, Table.empty)

/-- How a call ends, in the two cases that the archive tells apart. -/
structure Answers (φ : Type) (db : Ukg) (w : UkgWrite) : Prop where
  /-- It succeeds, or a statement of it is made to fail and nothing is changed. -/
  known : w.Refers db → ∀ outcomes : List (Outcome φ),
    transact w.sql db outcomes = (.ok (), w.apply db) ∨
      ∃ f, some f ∈ outcomes ∧ transact w.sql db outcomes = (.error (.fault f), db)
  /-- A foreign key refuses it, or a statement of it is made to fail, and nothing is changed. -/
  unknown : ¬ w.Refers db → ∀ outcomes : List (Outcome φ),
    transact w.sql db outcomes = (.error .constraint, db) ∨
      ∃ f, some f ∈ outcomes ∧ transact w.sql db outcomes = (.error (.fault f), db)

/-- **Every writer answers as the archive says**, one case for each of them: what it computes
    where its capture is there, and that it is refused where not. -/
theorem answers {db : Ukg} {a : Archive} (h : Holds db a) (w : UkgWrite) : Answers φ db w where
  known := fun hw => transact_of_computes (computes_sql h hw)
  unknown := fun hw => transact_of_refuses (refuses_sql hw)

/-- **One turn** keeps the relation, whether its call succeeds or fails: the step of the
    refinement. -/
theorem Turn.holds {s : Ukg × Archive} (h : Holds s.1 s.2) (t : Turn φ) :
    Holds (t.extend s).1 (t.extend s).2 := by
  cases t with
  | wiped => exact h.purgeAll
  | call w outcomes =>
    have hfails : ∀ e, transact w.sql s.1 outcomes = (.error e, s.1) →
        Holds (Turn.extend s (.call w outcomes)).1 (Turn.extend s (.call w outcomes)).2 := by
      intro e hrun
      rw [Turn.extend, hrun]
      exact h
    by_cases hw : w.Refers s.1
    · rcases (answers h w).known hw outcomes with hrun | ⟨f, -, hrun⟩
      · rw [Turn.extend, hrun]
        exact h.apply hw
      · exact hfails _ hrun
    · rcases (answers h w).unknown hw outcomes with hrun | ⟨f, -, hrun⟩
      · exact hfails _ hrun
      · exact hfails _ hrun

/-- After any turns of writers, whatever fails in them, the database holds the archive of those
    that succeeded: by induction on the turns. -/
theorem holds_archived (turns : List (Turn φ)) :
    Holds (archived turns).1 (archived turns).2 := by
  induction turns using List.reverseRecOn with
  | nil => exact holds_new
  | append_singleton turns t ih =>
    rw [archived, List.foldl_append]
    exact t.holds ih

/-- **The database is the archive.**  After any calls of its writers and any wipes, wherever the
    statements of the calls fail, the database holds the archive of the calls that succeeded: what
    is read for a capture is what the archive has, and nothing where it has none.  Unless one of its
    statements fails, every next call does what it does to the archive, or is refused and changes
    nothing if its row would point to a capture that is not there. -/
theorem archive_refines [Ukg.JoinOrder] (turns : List (Turn φ)) :
    Holds (archived turns).1 (archived turns).2 ∧
    (∀ wcId e, (archived turns).2.get? wcId = some e → ReadsBack (archived turns).1 wcId e) ∧
    (∀ wcId, (archived turns).2.get? wcId = none → ReadsNothing (archived turns).1 wcId) ∧
    ∀ w : UkgWrite, Answers φ (archived turns).1 w :=
  ⟨holds_archived turns, fun _ _ he => (holds_archived turns).readsBack he,
    fun _ hnone => (holds_archived turns).readsNothing hnone,
    fun w => answers (holds_archived turns) w⟩

end

end Precall.Store
