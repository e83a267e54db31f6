import Mathlib.Data.List.AList
import Mathlib.Data.List.Sort
import Precall.Lib.Table
import Precall.Lib.Text
import Precall.Proto.Metadata

namespace Precall.Store

open TableLib TextLib Precall.Proto

/-!
# `ukg.db` — the metadata database

The tables of `precall-store/src/schema.rs` and the operations of `ukg.rs` on them, each one
transaction: what ingestion writes (`insertCapture`, `addAppDwell`, `addWebDwell`,
`touchClient`), what enrichment reads and writes (the two work queues, `markProcessed`,
`setImageEmbeddingState`, `attachTopic`, …), and the wipe (`purgeAll`).

Floating-point columns hold bit patterns; no operation here computes with them.
-/

/-- A 64-bit float, as its bits: the only computation on one is SQLite's when it stores it. -/
abbrev F64 := UInt64

/-- A row of `WindowCapture`; its id is that of the table. -/
structure WindowCaptureRow where
  name : String
  imageToken : Option String
  isForeground : Bool
  windowId : Int
  windowBounds : String
  windowTitle : String
  properties : Option String
  timeStamp : Int
  isProcessed : Bool
  activationUri : Option String
  activityId : Option String
  fallbackUri : Option String
  deriving DecidableEq, Repr

/-- A row of `ScreenRegion`, which belongs to a capture. -/
structure ScreenRegionRow where
  windowCaptureId : Int
  regionKind : String
  ocrText : Option String
  bounds : String
  deriving DecidableEq, Repr

/-- A row of the full-text index, under the id of its capture: name, title and recognized text. -/
structure TextIndexRow where
  rowid : Int
  name : String
  windowTitle : String
  ocrText : String
  deriving DecidableEq, Repr

/-- A row of the relation between captures and topics. -/
structure TopicRelation where
  windowCaptureId : Int
  topicId : Int
  score : F64
  deriving DecidableEq, Repr

/-- A row of `AppDwellTime` or `WebDomainDwellTime`; `key` is the app id or the domain. -/
structure DwellRow where
  key : String
  hourOfDay : Int
  dayOfWeek : Int
  hourStart : Int
  dwellTime : Int
  deriving DecidableEq, Repr

/-- The `State` column of `PrecallImageEmbedding`: still to be embedded, embedded, or given up. -/
inductive ImageState where
  | pending
  | done
  | skipped
  deriving DecidableEq, Repr

/-- A row of `PrecallImageEmbedding`, under the id of its capture: how far the embedding of its
    screenshot has come. -/
structure ImageEmbedding where
  state : ImageState
  attempts : Int
  lastError : Option String
  updatedAt : Int
  deriving DecidableEq, Repr

/-- A row of `PrecallClient`, under the id of the client. -/
structure ClientRow where
  hostname : String
  firstSeen : Int
  lastSeen : Int
  deriving DecidableEq, Repr

/-- Why a query of `ukg.db` failed: a column that is NULL where a value is read, or a `MATCH`
    expression that does not parse. -/
inductive UkgError where
  | nullColumn (name : String)
  | matchSyntax (expression : String)
  deriving DecidableEq, Repr

/-- The state of one `ukg.db`, table by table.  Tables with an id of their own are `Table`s,
    those under a foreign id are association lists. -/
structure Ukg where
  windowCapture : Table WindowCaptureRow
  app : Table AppRecord
  appRelation : Table (Int × Int)
  file : Table FileRecord
  fileRelation : Table (Int × Int)
  web : Table WebRecord
  webRelation : Table (Int × Int)
  screenRegion : Table ScreenRegionRow
  topic : Table String
  topicRelation : Table TopicRelation
  appDwell : Table DwellRow
  webDwell : Table DwellRow
  textIndex : List TextIndexRow
  config : AList fun _ : String => String
  client : AList fun _ : String => ClientRow
  imageEmbedding : AList fun _ : Int => ImageEmbedding
  enrichAttempt : AList fun _ : Int => Int

namespace Ukg

/-- A database just created. -/
def new : Ukg where
  windowCapture := Table.empty
  app := Table.empty
  appRelation := Table.empty
  file := Table.empty
  fileRelation := Table.empty
  web := Table.empty
  webRelation := Table.empty
  screenRegion := Table.empty
  topic := Table.empty
  topicRelation := Table.empty
  appDwell := Table.empty
  webDwell := Table.empty
  textIndex := []
  config := ∅
  client := ∅
  imageEmbedding := ∅
  enrichAttempt := ∅

/-! ### Ingestion -/

/-- `INSERT OR IGNORE` under a unique key, then `SELECT` the id under that key: the first row
    under a key stays, and later ones are told its id. -/
def upsert {α : Type} (same : α → α → Bool) (t : Table α) (x : α) : Table α × Int :=
  match t.find? (same x) with
  | some id => (t, id)
  | none => (t.insert x, t.nextId)

/-- `upsert_app`: an application is known by its name and its path, and a missing path counts as
    the empty one. -/
def upsertApp : Table AppRecord → AppRecord → Table AppRecord × Int :=
  upsert fun a b => a.name == b.name && a.path.getD "" == b.path.getD ""

/-- `upsert_file`: a file is known by its path. -/
def upsertFile : Table FileRecord → FileRecord → Table FileRecord × Int :=
  upsert fun f g => f.path == g.path

/-- `upsert_web`: a page is known by its address. -/
def upsertWeb : Table WebRecord → WebRecord → Table WebRecord × Int :=
  upsert fun v w => v.uri == w.uri

/-- `INSERT OR IGNORE` of a relation row: a capture is related to an entity once. -/
def insertRelation (rel : Table (Int × Int)) (row : Int × Int) : Table (Int × Int) :=
  match rel.find? (· == row) with
  | some _ => rel
  | none => rel.insert row

/-- Upsert every entry of a record's list and relate it to the capture. -/
def relateAll {α : Type} (upsertOne : Table α → α → Table α × Int) (wcId : Int) (xs : List α)
    (t : Table α × Table (Int × Int)) : Table α × Table (Int × Int) :=
  xs.foldl (fun t x =>
    ((upsertOne t.1 x).1, insertRelation t.2 (wcId, (upsertOne t.1 x).2))) t

/-- The row of a freshly captured record: not yet processed, with its time as an `i64`. -/
def captureRow (rec : WindowCaptureRecord) : WindowCaptureRow where
  name := rec.name
  imageToken := some rec.imageToken
  isForeground := rec.isForeground
  windowId := rec.windowId
  windowBounds := rec.windowBounds
  windowTitle := rec.windowTitle
  properties := rec.properties
  timeStamp := asI64 rec.timestamp100ns
  isProcessed := false
  activationUri := rec.activationUri
  activityId := rec.activityId
  fallbackUri := rec.fallbackUri

/-- The texts of a record's regions, each followed by a space. -/
def allOcr (regions : List ScreenRegionRecord) : String :=
  String.join (regions.map fun r => match r.ocrText with
    | some t => t ++ " "
    | none => "")

/-- The id of the capture that carries an image token; the unique index admits at most one. -/
def captureOfToken (db : Ukg) (token : String) : Option Int :=
  db.windowCapture.find? fun w => w.imageToken == some token

/-- `Ukg::insert_capture` — idempotent on the image token: a token that is stored already gives
    its id back and changes no table.  Otherwise capture, relations, regions and text are written
    in one transaction. -/
def insertCapture [TextTables] (db : Ukg) (rec : WindowCaptureRecord) : Ukg × Int :=
  match db.captureOfToken rec.imageToken with
  | some id => (db, id)
  | none =>
    let wcId := db.windowCapture.nextId
    let apps := relateAll upsertApp wcId rec.apps (db.app, db.appRelation)
    let files := relateAll upsertFile wcId rec.files (db.file, db.fileRelation)
    let webs := relateAll upsertWeb wcId rec.webs (db.web, db.webRelation)
    ({ db with
        windowCapture := db.windowCapture.insert (captureRow rec)
        app := apps.1
        appRelation := apps.2
        file := files.1
        fileRelation := files.2
        web := webs.1
        webRelation := webs.2
        screenRegion := rec.regions.foldl
          (fun t r => t.insert ⟨wcId, r.regionKind, r.ocrText, r.bounds⟩) db.screenRegion
        textIndex := db.textIndex ++
          [⟨wcId, rec.name, rec.windowTitle, trim (allOcr rec.regions)⟩] }, wcId)

/-- `Ukg::touch_client` — the first time a client is seen stays, its name and its last time are
    replaced. -/
def touchClient (db : Ukg) (clientId hostname : String) (now : Int) : Ukg :=
  let firstSeen := ((db.client.lookup clientId).map ClientRow.firstSeen).getD now
  { db with client := db.client.insert clientId ⟨hostname, firstSeen, now⟩ }

/-- `hour_bucket` — hour of day, day of week (0 = Sunday) and start of the hour.  The ticks are
    divided into seconds towards zero, these into days and hours downwards. -/
def hourBucket (ts100ns : Int) : Int × Int × Int :=
  let unixSecs := (ts100ns - 116444736000000000).tdiv 10000000
  let days := unixSecs / 86400
  let hour := (unixSecs % 86400) / 3600
  (hour, (days + 4) % 7, 116444736000000000 + (days * 24 + hour) * (3600 * 10000000))

/-- Accumulate dwell time under a key in the bucket of its hour. -/
def addDwell (t : Table DwellRow) (key : String) (ts100ns dwellMs : Int) : Table DwellRow :=
  let (hour, dow, start) := hourBucket ts100ns
  let same (r : DwellRow) : Bool := r.key == key && r.hourStart == start
  match t.find? same with
  | some _ =>
      t.update fun _ r => if same r then { r with dwellTime := r.dwellTime + dwellMs } else r
  | none => t.insert ⟨key, hour, dow, start, dwellMs⟩

/-- `Ukg::add_app_dwell`. -/
def addAppDwell (db : Ukg) (windowsAppId : String) (ts100ns dwellMs : Int) : Ukg :=
  { db with appDwell := addDwell db.appDwell windowsAppId ts100ns dwellMs }

/-- `Ukg::add_web_dwell`. -/
def addWebDwell (db : Ukg) (domain : String) (ts100ns dwellMs : Int) : Ukg :=
  { db with webDwell := addDwell db.webDwell domain ts100ns dwellMs }

/-! ### Enrichment -/

/-- A score as the column `REAL NOT NULL DEFAULT 0` keeps it: what is no number is bound as NULL,
    for which `OR REPLACE` takes the default, and a negative zero is kept as the integer 0. -/
def storedScore (score : F64) : F64 :=
  if score &&& 0x7fffffffffffffff > 0x7ff0000000000000 ∨ score = 0x8000000000000000 then 0
  else score

/-- `Ukg::attach_topic` — the topic by its title, and its relation, replaced if it exists; the
    score is stored as SQLite keeps it (`storedScore`). -/
def attachTopic (db : Ukg) (wcId : Int) (title : String) (score : F64) : Ukg :=
  let (topics, topicId) := upsert (fun a b => a == b) db.topic title
  let kept := db.topicRelation.deleteWhere fun r =>
    r.windowCaptureId == wcId && r.topicId == topicId
  { db with topic := topics, topicRelation := kept.insert ⟨wcId, topicId, storedScore score⟩ }

/-- `Ukg::mark_processed` — an `UPDATE`, which succeeds also where no row has the id. -/
def markProcessed (db : Ukg) (wcId : Int) : Ukg :=
  { db with windowCapture := db.windowCapture.update fun id w =>
      if id = wcId then { w with isProcessed := true } else w }

/-- `Ukg::mark_all_unprocessed` — every capture goes back to the queue of fresh ones. -/
def markAllUnprocessed (db : Ukg) : Ukg :=
  { db with windowCapture := db.windowCapture.update fun _ w => { w with isProcessed := false } }

/-- `Ukg::set_image_embedding_state` — the state row of a capture is replaced as a whole. -/
def setImageEmbeddingState (db : Ukg) (wcId : Int) (state : ImageState) (attempts : Int)
    (lastError : Option String) (now : Int) : Ukg :=
  { db with imageEmbedding := db.imageEmbedding.insert wcId ⟨state, attempts, lastError, now⟩ }

/-- `Ukg::reset_image_embedding_states` — every state row is deleted; the rows that pace the
    attempts are not. -/
def resetImageEmbeddingStates (db : Ukg) : Ukg := { db with imageEmbedding := ∅ }

/-- `Ukg::touch_enrich_attempt` — the time of the last attempt on a capture is replaced. -/
def touchEnrichAttempt (db : Ukg) (wcId now : Int) : Ukg :=
  { db with enrichAttempt := db.enrichAttempt.insert wcId now }

/-- `Ukg::set_config`. -/
def setConfig (db : Ukg) (key value : String) : Ukg :=
  { db with config := db.config.insert key value }

/-! ### Queries -/

/-- `Ukg::get_config`. -/
def getConfig (db : Ukg) (key : String) : Option String := db.config.lookup key

/-- `Ukg::image_embedding_state`. -/
def imageEmbeddingState (db : Ukg) (wcId : Int) : Option (ImageState × Int × Option String) :=
  (db.imageEmbedding.lookup wcId).map fun e => (e.state, e.attempts, e.lastError)

/-- `Ukg::image_token`; a token that is NULL cannot be read as text. -/
def imageToken (db : Ukg) (wcId : Int) : Except UkgError (Option String) :=
  match db.windowCapture.get? wcId with
  | none => .ok none
  | some row => match row.imageToken with
    | some token => .ok (some token)
    | none => .error (.nullColumn "ImageToken")

/-- `Ukg::capture_timestamp` — `none` if there is no such capture. -/
def captureTimestamp (db : Ukg) (wcId : Int) : Option Int :=
  (db.windowCapture.get? wcId).map WindowCaptureRow.timeStamp

/-- The order in which the engine walks the relations of a join that has no `ORDER BY`. -/
class JoinOrder where
  walk : List (Int × Int × Int) → List (Int × Int × Int)
  walk_perm : ∀ rows, (walk rows).Perm rows

/-- An engine that walks the rows as they were inserted, for the runs on small stores: what is
    proved of all orders is tried there with this one. -/
@[reducible]
def joinInserted : JoinOrder where
  walk := id
  walk_perm := fun _ => List.Perm.refl _

/-- `Ukg::capture_app_names` — the names of a capture's applications in the order of the join;
    the first of them is shown in lists. -/
def captureAppNames [JoinOrder] (db : Ukg) (wcId : Int) : List String :=
  (JoinOrder.walk db.appRelation.rows).filterMap fun r =>
    if r.2.1 = wcId then (db.app.get? r.2.2).map fun a => a.name else none

/-- `Ukg::regions` — the regions of a capture in id order. -/
def regions (db : Ukg) (wcId : Int) : List (Int × ScreenRegionRow) :=
  db.screenRegion.rows.filter fun r => r.2.windowCaptureId == wcId

/-- `LIMIT`: a negative bound is none, as in SQLite. -/
def limitTo {α : Type} (limit : Int) (rows : List α) : List α :=
  if limit < 0 then rows else rows.take limit.toNat

/-- The order of both work queues: least recently attempted first, then by id; no attempt counts
    as time zero. -/
def queueLe (db : Ukg) (a b : Int × WindowCaptureRow) : Prop :=
  let last (r : Int × WindowCaptureRow) : Int := (db.enrichAttempt.lookup r.1).getD 0
  last a < last b ∨ (last a = last b ∧ a.1 ≤ b.1)

instance (db : Ukg) (a b : Int × WindowCaptureRow) : Decidable (db.queueLe a b) :=
  inferInstanceAs (Decidable (_ ∨ (_ ∧ _)))

/-- Has the backoff since the last attempt on a capture elapsed?  The difference is exact here; the
    source subtracts one `i64` from another, which is the same as long as it stays in range, and
    does with a clock that counts from 1601 and the constant backoff of a pass. -/
def attemptDue (db : Ukg) (wcId now backoff : Int) : Bool :=
  match db.enrichAttempt.lookup wcId with
  | none => true
  | some updatedAt => updatedAt ≤ now - backoff

/-- The captures the image leg still owes a vector: no state row, or `pending`. -/
def imageStateOpen (db : Ukg) (wcId : Int) : Bool :=
  match db.imageEmbedding.lookup wcId with
  | none => true
  | some e => e.state == .pending

/-- `Ukg::captures_needing_image_embedding` — the backfill queue: processed captures with a token
    whose image is not settled and whose last attempt is a backoff ago. -/
def capturesNeedingImageEmbedding (db : Ukg) (limit now backoff : Int) :
    List (Int × Option Int × String) :=
  let eligible := db.windowCapture.rows.filter fun r =>
    r.2.imageToken.isSome && r.2.isProcessed && db.imageStateOpen r.1 &&
      db.attemptDue r.1 now backoff
  (limitTo limit (eligible.insertionSort db.queueLe)).filterMap fun r =>
    r.2.imageToken.map fun token => (r.1, some r.2.timeStamp, token)

/-- `Ukg::captures_pending_enrichment` — the queue of fresh captures: those not processed whose
    last attempt is a backoff ago, with or without a token. -/
def capturesPendingEnrichment (db : Ukg) (limit now backoff : Int) :
    List (Int × Option Int × Option String) :=
  let eligible := db.windowCapture.rows.filter fun r =>
    !r.2.isProcessed && db.attemptDue r.1 now backoff
  (limitTo limit (eligible.insertionSort db.queueLe)).map fun r =>
    (r.1, some r.2.timeStamp, r.2.imageToken)

/-- `Ukg::capture_ids_matching_filters` — `none` when no filter is active, which the semantic
    legs take for no restriction. -/
def captureIdsMatchingFilters (db : Ukg) (start100ns end100ns : Option Int)
    (appFilter : List String) : Option (List Int) :=
  if start100ns.isNone && end100ns.isNone && appFilter.isEmpty then none
  else
    let appIds := (db.app.rows.filter fun a =>
      (a.2.path.any appFilter.contains) || appFilter.contains a.2.name).map Prod.fst
    let related (wcId : Int) : Bool :=
      db.appRelation.rows.any fun r => r.2.1 == wcId && appIds.contains r.2.2
    some ((db.windowCapture.rows.filter fun w =>
      start100ns.all (· ≤ w.2.timeStamp) && end100ns.all (w.2.timeStamp ≤ ·) &&
        (appFilter.isEmpty || related w.1)).map Prod.fst)

/-! ### The wipe -/

/-- `Ukg::purge_all` — captures, what is related to them and all dwell times go; applications,
    files, pages and topics have no statement here and stay. -/
def purgeAll (db : Ukg) : Ukg :=
  { db with
    topicRelation := db.topicRelation.deleteAll
    appRelation := db.appRelation.deleteAll
    fileRelation := db.fileRelation.deleteAll
    webRelation := db.webRelation.deleteAll
    screenRegion := db.screenRegion.deleteAll
    textIndex := []
    windowCapture := db.windowCapture.deleteAll
    appDwell := db.appDwell.deleteAll
    webDwell := db.webDwell.deleteAll
    imageEmbedding := ∅
    enrichAttempt := ∅ }

end Ukg

end Precall.Store
