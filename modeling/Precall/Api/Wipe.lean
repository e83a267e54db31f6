import Mathlib.Logic.Function.Basic
import Precall.Api.Search
import Precall.Broker.Pairing

namespace Precall.Api

open ByteLib TextLib Durable Precall.Proto Precall.Store Precall.Broker

/-!
# The erasure wipe

`wipe_client` of `precall-api/src/routes.rs`: the object tree of a client is removed and
`purge_all` empties the tables it lists.  It lists neither `App`, `File`, `Web` and `Topic`, nor
does the route open the two semantic stores.

* `history_session` — the histories the wipe is judged on contain every ingestion session;
* `files_under_client` — in every one of them the objects lie under the client's directory;
* `wipe_erases_iff` — hence exactly the tables and stores above decide whether anything is left;
* `wipe_leaves_rows` — a client of one capture, wiped after enrichment.
-/

/-- The directories of all clients. -/
abbrev DataRoot := Uuid → Option ClientDir

/-- The id parser of the uuid crate; it accepts the canonical form, and which others is left open
    here. -/
class UuidText where
  parseStr : String → Option Uuid
  parseStr_text : ∀ id : Uuid, parseStr id.text = some id

/-- What a wipe does to one directory; `client` is the id as the request spells it, which is the
    name the objects are purged under. -/
def wipeDir (client : String) (dir : ClientDir) : ClientDir :=
  -- the route opens neither `SemanticTextStore.db` nor `SemanticImageStore.db`
  { dir with
    files := ObjectStore.purgeClient dir.files client
    ukg := dir.ukg.purgeAll }

/-- A wipe leaves the image store as it is. -/
@[simp] theorem image_wipeDir (client : String) (dir : ClientDir) :
    (wipeDir client dir).image = dir.image := rfl

/-- `wipe_client`; `ok` is the answer 204.  A spelling that does not parse is a 400, an unknown
    client a 404. -/
def wipeClient [UuidText] (root : DataRoot) (client : String) : Except ApiError DataRoot :=
  match UuidText.parseStr client with
  | none => .error (.badRequest "client must be a uuid")
  | some id => match root id with
    | none => .error (.notFound ("unknown client " ++ client))
    | some dir => .ok (Function.update root id (some (wipeDir client dir)))

/-! ### What a wipe promises and what it forgets -/

/-- A semantic store without vectors, items or links; its stamp may stay. -/
structure NoVectors (db : SiDb) : Prop where
  graph : db.graph.rows = []
  metadata : db.metadata.rows = []
  items : db.items = []

/-- Nothing derived from a capture is left in a client's directory: no row or relation, no dwell
    time, no vector and no file. -/
structure Erased (dir : ClientDir) : Prop where
  windowCapture : dir.ukg.windowCapture.rows = []
  screenRegion : dir.ukg.screenRegion.rows = []
  textIndex : dir.ukg.textIndex = []
  app : dir.ukg.app.rows = []
  file : dir.ukg.file.rows = []
  web : dir.ukg.web.rows = []
  topic : dir.ukg.topic.rows = []
  appRelation : dir.ukg.appRelation.rows = []
  fileRelation : dir.ukg.fileRelation.rows = []
  webRelation : dir.ukg.webRelation.rows = []
  topicRelation : dir.ukg.topicRelation.rows = []
  appDwell : dir.ukg.appDwell.rows = []
  webDwell : dir.ukg.webDwell.rows = []
  imageEmbedding : dir.ukg.imageEmbedding = ∅
  enrichAttempt : dir.ukg.enrichAttempt = ∅
  text : NoVectors dir.text
  image : NoVectors dir.image
  files : dir.files.files = []

/-- The tables and stores no wipe touches have nothing in them to begin with. -/
structure NothingForgotten (dir : ClientDir) : Prop where
  app : dir.ukg.app.rows = []
  file : dir.ukg.file.rows = []
  web : dir.ukg.web.rows = []
  topic : dir.ukg.topic.rows = []
  text : NoVectors dir.text
  image : NoVectors dir.image

/-- Every object lies under the directory of its client, as the purge expects. -/
def FilesUnder (client : String) (dir : ClientDir) : Prop :=
  ∀ f ∈ dir.files.files, clientPath client <+: f.1

/-- A wipe of a directory whose objects lie where they belong leaves exactly what it forgets. -/
theorem erased_wipeDir {client : String} {dir : ClientDir} (h : FilesUnder client dir) :
    Erased (wipeDir client dir) ↔ NothingForgotten dir := by
  constructor
  · intro herased
    exact ⟨herased.app, herased.file, herased.web, herased.topic, herased.text, herased.image⟩
  · intro hnothing
    exact {
      windowCapture := rfl
      screenRegion := rfl
      textIndex := rfl
      app := hnothing.app
      file := hnothing.file
      web := hnothing.web
      topic := hnothing.topic
      appRelation := rfl
      fileRelation := rfl
      webRelation := rfl
      topicRelation := rfl
      appDwell := rfl
      webDwell := rfl
      imageEmbedding := rfl
      enrichAttempt := rfl
      text := hnothing.text
      image := hnothing.image
      files := ObjectStore.purgeClient_eq_empty h }

/-! ### Reachable directories -/

/-- The enrichment configuration of a client with a canonical id. -/
def clientConfig (id : Uuid) (dim : Nat) (objects : ObjectStore) : EnrichConfig :=
  { client := id.text, dim := dim, objects := objects }

section
variable [TextTables]

/-- What a session leaves, started after the events of `log` and cut off after its budget of
    writes. -/
def runSession (json : JsonReader) (cfg : SessionConfig) (now : Int) (arrivals : List Arrival)
    (budget : Nat) (log : List Event) : Outcome ClientDir Event SessionState :=
  (session json cfg now arrivals).run Event.apply budget (ClientDir.after log) log

/-- **Sessions are part of histories.**  Whatever a session of the client does after a history,
    however far it gets, some step extends the history in the same way. -/
theorem history_session (json : JsonReader) (cfg : SessionConfig) (dim : Nat)
    (objects : ObjectStore) (steps : List (Step (clientConfig cfg.clientId dim objects)))
    (now : Int) (arrivals : List Arrival) (budget : Nat) :
    ∃ step, history _ (steps ++ [step])
      = (runSession json cfg now arrivals budget (history _ steps)).log := by
  obtain ⟨ws, hlog, hws⟩ := Prog.run_appends budget
    (session_ingests json now arrivals (ClientDir.after (history _ steps)) (history _ steps))
  refine ⟨.ingest (ws.attachWith _ hws), ?_⟩
  have hval : (ws.attachWith _ hws).map Subtype.val = ws := by simp
  rw [runSession, hlog, history, List.foldl_append]
  exact congrArg (history _ steps ++ ·) hval

/-- All objects of a client lie under its own name: every write a session may make keeps it so. -/
theorem stable_filesUnder (id : Uuid) (dim : Nat) :
    Stable Event.apply (Guard id.text dim) fun dir _ => FilesUnder id.text dir := by
  intro e dir log hguard h f hf
  cases e with
  | putObject clientId date token ext stored =>
    -- `key_path` starts with the client's directory, whatever the token is
    obtain rfl : clientId = id.text := hguard
    rcases Files.mem_write hf with rfl | hf
    · exact keyPath_client id date token ext
    · exact h f hf
  | _ => exact h f (by simpa [Event.apply] using hf)

/-- In every history of a canonical client, all objects lie under its directory. -/
theorem files_under_client (id : Uuid) (dim : Nat) (objects : ObjectStore)
    (steps : List (Step (clientConfig id dim objects))) :
    FilesUnder id.text (ClientDir.after (history _ steps)) :=
  (history_guarded _ steps).invariant (stable_filesUnder id dim) fun _ hf => by cases hf

/-! ### The wipe -/

/-- **What a wipe leaves.**  After any history of a client, a wipe under its canonical id is
    answered, touches no other client, and erases everything exactly if `App`, `File`, `Web`,
    `Topic` and the two semantic stores were empty before. -/
theorem wipe_erases_iff [UuidText] (id : Uuid) (dim : Nat) (objects : ObjectStore)
    (steps : List (Step (clientConfig id dim objects))) (others : DataRoot) :
    ∃ root dir, wipeClient (Function.update others id (some (ClientDir.after (history _ steps))))
        id.text = .ok root ∧
      root id = some dir ∧ (∀ other, other ≠ id → root other = others other) ∧
      (Erased dir ↔ NothingForgotten (ClientDir.after (history _ steps))) := by
  refine ⟨Function.update others id (some (wipeDir id.text (ClientDir.after (history _ steps)))),
    wipeDir id.text (ClientDir.after (history _ steps)), ?_, ?_, ?_, ?_⟩
  · simp [wipeClient, UuidText.parseStr_text]
  · simp
  · exact fun other hother => Function.update_of_ne hother _ _
  · exact erased_wipeDir (files_under_client id dim objects steps)

end

/-! ### One capture -/

section

attribute [local instance] TextTables.ascii

/-- A capture of a running program. -/
def notepadCapture : WindowCaptureRecord :=
  { smallCapture with apps := [{ name := "notepad.exe" }] }

/-- Every metadata payload is a batch with that capture. -/
def notepadJson : JsonReader where
  captureBatch := fun _ => some ⟨smallId, 0, [notepadCapture]⟩
  audioHead := fun _ => none

/-- The client sends one screenshot with its record. -/
def notepadSession : Outcome ClientDir Event SessionState :=
  runSession notepadJson smallSession 0
    ([smallFrame 1 smallJpeg, ⟨.pcMeta, []⟩].map fun m => ⟨m, fun _ => [], 0⟩) 100 []

/-- Then one enrichment pass runs, with plain objects and both embedders answering. -/
def notepadPass : Outcome ClientDir Event EnrichStats :=
  runPass (clientConfig smallId 1 ⟨none⟩)
    (smallEnv 1000000000 (some ("T", "I")) (.ok [1] "T") (.ok [2] "I")) 100 notepadSession.log

/-- After the wipe the program's row and the screenshot's vector are still there, though the
    capture is not. -/
theorem wipe_leaves_rows :
    notepadSession.value.isSome = true ∧ notepadPass.value.isSome = true ∧
    ∀ [UuidText], ∃ root dir,
      wipeClient (fun _ => some notepadPass.store) smallId.text = .ok root ∧
      root smallId = some dir ∧ dir.ukg.app.rows = [(1, { name := "notepad.exe" })] ∧
      dir.image.searchable = [⟨f32sToBytes [2], itemIdForCapture 1, none⟩] ∧ ¬ Erased dir := by
  refine ⟨by decide +kernel, by decide +kernel, ?_⟩
  intro _
  have happ : notepadPass.store.ukg.app.rows = [(1, { name := "notepad.exe" })] := by
    decide +kernel
  refine ⟨Function.update (fun _ => some notepadPass.store) smallId
      (some (wipeDir smallId.text notepadPass.store)), wipeDir smallId.text notepadPass.store, ?_,
    Function.update_self .., happ, ?_, fun herased => ?_⟩
  · rw [wipeClient, UuidText.parseStr_text]
  · rw [image_wipeDir]
    decide +kernel
  · have hempty : notepadPass.store.ukg.app.rows = [] := herased.app
    rw [happ] at hempty
    cases hempty

end

end Precall.Api
