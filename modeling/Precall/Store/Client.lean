import Precall.Lib.Durable
import Precall.Store.Objects
import Precall.Store.Semantic
import Precall.Store.Ukg

namespace Precall.Store

open ByteLib TextLib TableLib Precall.Proto

/-!
# One client's directory

`ukg.db`, the two `si_*` databases and the object tree of one client, and the committed writes
that change them.  There is no transaction across the databases: every `Event` is committed on
its own, and `ClientDir.after` replays a log of them from an empty directory.

`Event.embedded` writes nothing; it records in the log what the embedder answered for a capture,
so that statements about a log can speak about where a vector came from.
-/

/-- The two semantic stores of a client, one for the recognized texts and one for the
    screenshots; each is a database file of its own. -/
inductive Leg where
  | text
  | image
  deriving DecidableEq, Repr

/-- How a call of the embedder ended: with a vector and the space it belongs to, with no embedder
    configured, with the input refused for good, or to be tried again. -/
inductive EmbedOutcome where
  | ok (embedding : List F32) (space : String)
  | disabled
  | rejected
  | retry
  deriving DecidableEq, Repr

/-- The persistent state of one client: its metadata database, its two vector stores and its
    object files.  Everything else the programs know is lost when they stop. -/
structure ClientDir where
  ukg : Ukg
  text : SiDb
  image : SiDb
  files : Files

namespace ClientDir

/-- A directory in which nothing has been stored yet. -/
def new : ClientDir := { ukg := Ukg.new, text := SiDb.new, image := SiDb.new, files := Files.empty }

/-- The store of a leg. -/
def index (dir : ClientDir) : Leg → SiDb
  | .text => dir.text
  | .image => dir.image

/-- Replace the store of a leg; every write to a store goes through it, so the lemmas below are
    all that is needed to tell what such a write leaves alone. -/
def setIndex (dir : ClientDir) (leg : Leg) (db : SiDb) : ClientDir :=
  match leg with
  | .text => { dir with text := db }
  | .image => { dir with image := db }

/-- The store of a leg that was put in is the one found there. -/
@[simp] theorem index_setIndex (dir : ClientDir) (leg : Leg) (db : SiDb) :
    (dir.setIndex leg db).index leg = db := by
  cases leg <;> rfl

/-- The other leg keeps its own. -/
theorem index_setIndex_ne (dir : ClientDir) {leg leg' : Leg} (db : SiDb) (h : leg' ≠ leg) :
    (dir.setIndex leg db).index leg' = dir.index leg' := by
  cases leg <;> cases leg' <;> first | rfl | exact absurd rfl h

/-- A store lies in a database of its own, beside the metadata. -/
@[simp] theorem ukg_setIndex (dir : ClientDir) (leg : Leg) (db : SiDb) :
    (dir.setIndex leg db).ukg = dir.ukg := by
  cases leg <;> rfl

/-- It lies beside the objects, too. -/
@[simp] theorem files_setIndex (dir : ClientDir) (leg : Leg) (db : SiDb) :
    (dir.setIndex leg db).files = dir.files := by
  cases leg <;> rfl

/-- A new state of the metadata leaves the stores alone. -/
@[simp] theorem index_ukg (dir : ClientDir) (ukg : Ukg) (leg : Leg) :
    ({ dir with ukg := ukg } : ClientDir).index leg = dir.index leg := by
  cases leg <;> rfl

/-- So does a new state of the objects. -/
@[simp] theorem index_files (dir : ClientDir) (files : Files) (leg : Leg) :
    ({ dir with files := files } : ClientDir).index leg = dir.index leg := by
  cases leg <;> rfl

end ClientDir

/-- One committed write, or one answer of the embedder.  The answers change nothing on disk; they
    are in the log so that what is written can be compared with what was answered. -/
inductive Event where
  | touchClient (clientId hostname : String) (now : Int)
  | putObject (clientId : String) (date : Int × Nat × Nat) (token ext : String) (stored : Bytes)
  | insertCapture (rec : WindowCaptureRecord)
  | addAppDwell (windowsAppId : String) (ts100ns dwellMs : Int)
  | addWebDwell (domain : String) (ts100ns dwellMs : Int)
  | ensureInfo (leg : Leg) (dim : Nat) (space : String)
  | clearMetadata (leg : Leg)
  | clearGraph (leg : Leg)
  | clearItems (leg : Leg)
  | setSpaceId (leg : Leg) (dim : Nat) (space : String)
  | embedded (leg : Leg) (wcId : Int) (outcome : EmbedOutcome)
  | insertVector (leg : Leg) (itemId : Bytes) (embedding : List F32)
  | markAllUnprocessed
  | resetImageEmbeddingStates
  | setConfig (key value : String)
  | touchEnrichAttempt (wcId now : Int)
  | attachTopic (wcId : Int) (title : String) (score : F64)
  | setImageEmbeddingState (wcId : Int) (state : ImageState) (attempts : Int)
      (lastError : Option String) (now : Int)
  | markProcessed (wcId : Int)
  deriving DecidableEq

/-- The writes of the processes that ingest and search for `client`; each stamps the stores it
    opens with its own configured width. -/
def Event.ingested (client : String) : Event → Bool
  | .touchClient .. | .insertCapture .. | .addAppDwell .. | .addWebDwell .. | .ensureInfo .. => true
  | .putObject clientId .. => clientId == client
  | _ => false

section
variable [TextTables]

/-- The effect of one event on a client directory.  A statement that runs in a transaction of its
    own is one event, and so is a transaction as a whole. -/
def Event.apply (e : Event) (dir : ClientDir) : ClientDir :=
  match e with
  | .touchClient clientId hostname now =>
      { dir with ukg := dir.ukg.touchClient clientId hostname now }
  | .putObject clientId date token ext stored =>
      { dir with files := dir.files.write (keyPath clientId date token ext) stored }
  | .insertCapture rec => { dir with ukg := (dir.ukg.insertCapture rec).1 }
  | .addAppDwell windowsAppId ts dwell =>
      { dir with ukg := dir.ukg.addAppDwell windowsAppId ts dwell }
  | .addWebDwell domain ts dwell => { dir with ukg := dir.ukg.addWebDwell domain ts dwell }
  | .ensureInfo leg dim space => dir.setIndex leg ((dir.index leg).ensureInfo dim space)
  | .clearMetadata leg => dir.setIndex leg (dir.index leg).clearMetadata
  | .clearGraph leg => dir.setIndex leg (dir.index leg).clearGraph
  | .clearItems leg => dir.setIndex leg (dir.index leg).clearItems
  | .setSpaceId leg dim space => dir.setIndex leg ((dir.index leg).setSpaceId dim space)
  | .embedded .. => dir
  | .insertVector leg itemId embedding =>
      dir.setIndex leg ((dir.index leg).insertRows itemId none none embedding)
  | .markAllUnprocessed => { dir with ukg := dir.ukg.markAllUnprocessed }
  | .resetImageEmbeddingStates => { dir with ukg := dir.ukg.resetImageEmbeddingStates }
  | .setConfig key value => { dir with ukg := dir.ukg.setConfig key value }
  | .touchEnrichAttempt wcId now => { dir with ukg := dir.ukg.touchEnrichAttempt wcId now }
  | .attachTopic wcId title score => { dir with ukg := dir.ukg.attachTopic wcId title score }
  | .setImageEmbeddingState wcId state attempts lastError now =>
      { dir with ukg := dir.ukg.setImageEmbeddingState wcId state attempts lastError now }
  | .markProcessed wcId => { dir with ukg := dir.ukg.markProcessed wcId }

/-- The directory that a log of events leaves, starting from nothing. -/
def ClientDir.after (log : List Event) : ClientDir := Durable.replay Event.apply ClientDir.new log

/-- One more write is applied to what the others leave. -/
theorem ClientDir.after_concat (log : List Event) (e : Event) :
    after (log ++ [e]) = e.apply (after log) :=
  Durable.replay_concat Event.apply ClientDir.new log e

/-! ### What an event leaves alone -/

/-- The events that delete rows of a leg's store: the three statements of `clear`, each of which
    commits by itself. -/
def Event.clears (leg : Leg) : Event → Bool
  | .clearMetadata l | .clearGraph l | .clearItems l => l == leg
  | _ => false

/-- The events that write to a leg's store, whatever they write there. -/
def Event.targets (leg : Leg) : Event → Bool
  | .ensureInfo l _ _ | .clearMetadata l | .clearGraph l | .clearItems l | .setSpaceId l _ _
  | .insertVector l _ _ => l == leg
  | _ => false

/-- A leg's store changes only under the events that write to it. -/
theorem Event.index_apply {e : Event} {dir : ClientDir} {leg : Leg} (h : e.targets leg = false) :
    (e.apply dir).index leg = dir.index leg := by
  cases e with
  | ensureInfo l d space => exact ClientDir.index_setIndex_ne _ _ (beq_eq_false_iff_ne.mp h).symm
  | clearMetadata l => exact ClientDir.index_setIndex_ne _ _ (beq_eq_false_iff_ne.mp h).symm
  | clearGraph l => exact ClientDir.index_setIndex_ne _ _ (beq_eq_false_iff_ne.mp h).symm
  | clearItems l => exact ClientDir.index_setIndex_ne _ _ (beq_eq_false_iff_ne.mp h).symm
  | setSpaceId l d space => exact ClientDir.index_setIndex_ne _ _ (beq_eq_false_iff_ne.mp h).symm
  | insertVector l item v => exact ClientDir.index_setIndex_ne _ _ (beq_eq_false_iff_ne.mp h).symm
  | _ => simp [Event.apply]

/-- An item stays searchable until its store is cleared: no other write takes a vector away, so
    only the three statements of `clear` have to be looked at. -/
theorem Event.hasItem_apply {e : Event} {dir : ClientDir} {leg : Leg} {itemId : Bytes}
    (hkeep : e.clears leg = false) (h : (dir.index leg).hasItem itemId = true) :
    ((e.apply dir).index leg).hasItem itemId = true := by
  cases htargets : e.targets leg with
  | false =>
    rw [Event.index_apply htargets]
    exact h
  | true =>
    -- what writes to this store without clearing it
    cases e with
    | ensureInfo l d space =>
      obtain rfl := beq_iff_eq.mp htargets
      simp only [Event.apply, ClientDir.index_setIndex, SiDb.ensureInfo]
      split <;> exact h
    | setSpaceId l d space =>
      obtain rfl := beq_iff_eq.mp htargets
      simp only [Event.apply, ClientDir.index_setIndex, SiDb.hasItem_setSpaceId]
      exact h
    | insertVector l item embedding =>
      obtain rfl := beq_iff_eq.mp htargets
      simp only [Event.apply, ClientDir.index_setIndex]
      exact SiDb.hasItem_insertRows (Or.inr h)
    | clearMetadata l => exact absurd htargets (Bool.eq_false_iff.mp hkeep)
    | clearGraph l => exact absurd htargets (Bool.eq_false_iff.mp hkeep)
    | clearItems l => exact absurd htargets (Bool.eq_false_iff.mp hkeep)
    | _ => cases htargets

/-- The OCR regions change only when a capture arrives. -/
theorem Event.screenRegion_apply {e : Event} {dir : ClientDir}
    (h : ∀ rec, e ≠ .insertCapture rec) :
    (e.apply dir).ukg.screenRegion = dir.ukg.screenRegion := by
  cases e with
  | insertCapture rec => exact absurd rfl (h rec)
  | _ => first | rfl | simp [Event.apply]

/-- The captures change only when one arrives, is marked as processed, or all are requeued; every
    other write leaves the table as it is. -/
theorem Event.windowCapture_apply {e : Event} {dir : ClientDir}
    (hinsert : ∀ rec, e ≠ .insertCapture rec) (hmark : ∀ id, e ≠ .markProcessed id)
    (hrequeue : e ≠ .markAllUnprocessed) :
    (e.apply dir).ukg.windowCapture = dir.ukg.windowCapture := by
  cases e with
  | insertCapture rec => exact absurd rfl (hinsert rec)
  | markProcessed id => exact absurd rfl (hmark id)
  | markAllUnprocessed => exact absurd rfl hrequeue
  | _ => first | rfl | simp [Event.apply]

/-- The object files change only when an object is stored. -/
theorem Event.files_apply (e : Event) (dir : ClientDir) :
    (∃ clientId date token ext stored, e = .putObject clientId date token ext stored) ∨
      (e.apply dir).files = dir.files := by
  cases e with
  | putObject clientId date token ext stored =>
    exact Or.inl ⟨clientId, date, token, ext, stored, rfl⟩
  | _ => exact Or.inr (by first | rfl | simp [Event.apply])

/-- A capture's token and timestamp are those of an earlier row with its id, or of the record being
    inserted. -/
theorem Event.mem_windowCapture_apply {e : Event} {dir : ClientDir} {r : Int × WindowCaptureRow}
    (h : r ∈ (e.apply dir).ukg.windowCapture.rows) :
    (∃ row, (r.1, row) ∈ dir.ukg.windowCapture.rows ∧ row.imageToken = r.2.imageToken ∧
      row.timeStamp = r.2.timeStamp) ∨
    ∃ rec, e = .insertCapture rec ∧ r.2 = Ukg.captureRow rec := by
  have hupdate : ∀ f : Int → WindowCaptureRow → WindowCaptureRow,
      (∀ id row, (f id row).imageToken = row.imageToken ∧ (f id row).timeStamp = row.timeStamp) →
      r ∈ (dir.ukg.windowCapture.update f).rows → ∃ row, (r.1, row) ∈ dir.ukg.windowCapture.rows ∧
        row.imageToken = r.2.imageToken ∧ row.timeStamp = r.2.timeStamp := by
    intro f hf hmem
    obtain ⟨row, hrow, heq⟩ := Table.mem_update.mp (show (r.1, r.2) ∈ _ from hmem)
    obtain ⟨htoken, htime⟩ := hf r.1 row
    exact ⟨row, hrow, by rw [heq, htoken], by rw [heq, htime]⟩
  by_cases hinsert : ∃ rec, e = .insertCapture rec
  · obtain ⟨rec, rfl⟩ := hinsert
    simp only [Event.apply, Ukg.insertCapture] at h
    split at h
    · exact Or.inl ⟨r.2, h, rfl, rfl⟩
    · rcases Table.mem_insert.mp (show (r.1, r.2) ∈ _ from h) with h | ⟨-, h⟩
      · exact Or.inl ⟨r.2, h, rfl, rfl⟩
      · exact Or.inr ⟨rec, rfl, h⟩
  · refine Or.inl ?_
    by_cases hmark : (∃ id, e = .markProcessed id) ∨ e = .markAllUnprocessed
    · rcases hmark with ⟨id, rfl⟩ | rfl
      · refine hupdate _ (fun id' row => ?_) h
        split <;> exact ⟨rfl, rfl⟩
      · exact hupdate (fun _ row => { row with isProcessed := false }) (fun _ _ => ⟨rfl, rfl⟩) h
    · obtain ⟨hid, hall⟩ := not_or.mp hmark
      rw [Event.windowCapture_apply (fun rec heq => hinsert ⟨rec, heq⟩)
        (fun id heq => hid ⟨id, heq⟩) hall] at h
      exact ⟨r.2, h, rfl, rfl⟩

/-- A configuration key changes only when it is set. -/
theorem Event.getConfig_apply {e : Event} {dir : ClientDir} {key : String}
    (h : ∀ value, e ≠ .setConfig key value) :
    (e.apply dir).ukg.getConfig key = dir.ukg.getConfig key := by
  cases e with
  | setConfig k value =>
    have hne : key ≠ k := fun heq => h value (heq ▸ rfl)
    exact AList.lookup_insert_ne hne
  | insertCapture rec =>
    simp only [Event.apply, Ukg.insertCapture]
    split <;> rfl
  | _ => first | rfl | simp [Event.apply]

end

end Precall.Store
