import Precall.Api.Fairness
import Precall.Lib.Knowledge
import Precall.Store.Archive

namespace Precall.Api

open TableLib TextLib TransactionLib Durable Precall.Proto Precall.Store

/-!
# Enrichment and the archive

An enrichment pass (`precall-api/src/enrich.rs`) takes its captures from the work queues and writes
about them long after, while captures go on arriving.  Every row it writes points to a capture by
a foreign key.

* `ukgWrite` — the writers of `ukg.db` among the events of a client directory;
* `names_enrichPaced` — a pass names only captures that it has read from a queue;
* `SideBySide` — what passes and arrivals side by side leave, each pass stopped anywhere;
* `passes_archived` — after all of it the database holds the archive of its writes, and none of
  them was refused.
-/

/-- The writer of `ukg.db` behind an event, as far as it is about captures; the writes to the
    other stores, to the files and to the settings have none. -/
def ukgWrite : Event → Option UkgWrite
  | .insertCapture rec => some (.insertCapture rec)
  | .attachTopic wcId title score => some (.attachTopic wcId title score)
  | .markProcessed wcId => some (.markProcessed wcId)
  | .markAllUnprocessed => some .markAllUnprocessed
  | .setImageEmbeddingState wcId state attempts lastError now =>
      some (.setImageEmbeddingState wcId state attempts lastError now)
  | .resetImageEmbeddingStates => some .resetImageEmbeddingStates
  | .touchEnrichAttempt wcId now => some (.touchEnrichAttempt wcId now)
  | _ => none

/-- The capture the rows of an event point to, if it writes rows of another table than the
    captures'. -/
def pointsTo (e : Event) : Option Int := (ukgWrite e).bind UkgWrite.names

/-- The captures that are there. -/
def Stored (dir : ClientDir) (wcId : Int) : Prop := (dir.ukg.windowCapture.get? wcId).isSome = true

/-- The archive of the writes of a log: what the log says in the terms of captures, whoever wrote
    it. -/
def archiveOf (log : List Event) : Archive :=
  (log.filterMap ukgWrite).foldl Archive.apply Table.empty

/-- The archive after one more write. -/
theorem archiveOf_concat (log : List Event) (e : Event) :
    archiveOf (log ++ [e]) = ((ukgWrite e).map (archiveOf log).apply).getD (archiveOf log) := by
  unfold archiveOf
  rw [List.filterMap_append, List.foldl_append]
  cases hwrite : ukgWrite e <;> simp [hwrite]

/-! ### What the events do to the database -/

section
variable [TextTables]

/-- The events write what the writers write, so that a step of the log is a step of the archive. -/
theorem ukg_apply {e : Event} {w : UkgWrite} (h : ukgWrite e = some w) (dir : ClientDir) :
    (e.apply dir).ukg = w.apply dir.ukg := by
  cases e <;> cases h <;> rfl

/-- The other events leave what is about captures: they write other stores, other tables, or only
    settings. -/
theorem holds_aside {e : Event} (he : ukgWrite e = none) {dir : ClientDir} {a : Archive}
    (h : Holds dir.ukg a) : Holds (e.apply dir).ukg a := by
  cases e with
  | touchClient clientId hostname now => exact h.aside _ _ _ _
  | addAppDwell windowsAppId ts dwell => exact h.aside _ _ _ _
  | addWebDwell domain ts dwell => exact h.aside _ _ _ _
  | setConfig key value => exact h.aside _ _ _ _
  | putObject clientId date token ext stored => exact h
  | embedded leg wcId outcome => exact h
  | ensureInfo leg dim space => simpa [Event.apply] using h
  | clearMetadata leg => simpa [Event.apply] using h
  | clearGraph leg => simpa [Event.apply] using h
  | clearItems leg => simpa [Event.apply] using h
  | setSpaceId leg dim space => simpa [Event.apply] using h
  | insertVector leg itemId embedding => simpa [Event.apply] using h
  | _ => cases he

/-- A log whose writes all name captures that are there leaves its archive, by induction on the
    log with one spec lemma for each writer. -/
theorem holds_of_guarded {log : List Event}
    (h : Guarded Event.apply (Named pointsTo Stored) ClientDir.new log) :
    Holds (ClientDir.after log).ukg (archiveOf log) := by
  induction h with
  | nil => exact holds_new
  | @concat log e h he ih =>
    rw [ClientDir.after_concat, archiveOf_concat]
    cases hwrite : ukgWrite e with
    | none => exact holds_aside hwrite ih
    | some w =>
      rw [ukg_apply hwrite]
      refine ih.apply fun wcId hname => he wcId ?_
      rw [pointsTo, hwrite]
      exact hname

/-- No event takes a capture away, so what a pass has read it may still name later. -/
theorem stored_apply (e : Event) (dir : ClientDir) (wcId : Int) (h : Stored dir wcId) :
    Stored (e.apply dir) wcId := by
  obtain ⟨w, hw⟩ := Option.isSome_iff_exists.mp h
  by_cases hflags : (∃ id, e = .markProcessed id) ∨ e = .markAllUnprocessed
  · have hupdate : ∀ f : Int → WindowCaptureRow → WindowCaptureRow,
        ((dir.ukg.windowCapture.update f).get? wcId).isSome = true := by
      intro f
      rw [Table.get?_update, hw]
      rfl
    rcases hflags with ⟨id, rfl⟩ | rfl
    · exact hupdate _
    · exact hupdate _
  by_cases hinsert : ∃ rec, e = .insertCapture rec
  · obtain ⟨rec, rfl⟩ := hinsert
    have hingested : (Event.insertCapture rec).ingested "" = true := rfl
    have hrow := mem_windowCapture_of_ingested hingested (Table.get?_eq_some.mp hw)
    exact Option.isSome_iff_exists.mpr ⟨w, Table.get?_eq_some.mpr hrow⟩
  · rw [Stored, Event.windowCapture_apply (fun rec heq => hinsert ⟨rec, heq⟩)
      (fun id heq => hflags (Or.inl ⟨id, heq⟩)) fun heq => hflags (Or.inr heq)]
    exact h

end

/-! ### What a pass names -/

/-- What a leg writes about a capture points to that capture only, if it points to any. -/
theorem pointsTo_of_legWrites {leg : Leg} {wcId : Int} {e : Event}
    (h : legWrites leg wcId e = true) {x : Int} (hx : pointsTo e = some x) : x = wcId := by
  cases e with
  | touchEnrichAttempt id now => cases h
  | attachTopic id title score =>
    obtain rfl : id = x := Option.some.inj hx
    simp [legWrites, storeWrites, rowWrites] at h
    exact h.2
  | setImageEmbeddingState id state attempts lastError now =>
    obtain rfl : id = x := Option.some.inj hx
    simp [legWrites, storeWrites, rowWrites] at h
    exact h.2
  | _ => cases hx

/-- What a pass writes before it reads its queues points to no capture. -/
theorem pointsTo_of_upkeepWrites {e : Event} (h : upkeepWrites e = true) : pointsTo e = none := by
  cases e <;> first | rfl | cases h

/-- Nor does what arrives: a capture is inserted with its own relations, under an id that is new. -/
theorem pointsTo_of_ingested {client : String} {e : Event} (h : e.ingested client = true) :
    pointsTo e = none := by
  cases e <;> first | rfl | cases h

section
variable {α : Type} {cfg : EnrichConfig} {env : PassEnv} {known : Int → Prop}

/-- A program that names only captures it knows, or has seen in what it read. -/
abbrev NamesSeen (known : Int → Prop) (p : Enricher α) : Prop :=
  p.Names pointsTo (fun _ => none) Stored known

/-- The work of a leg is about one capture, so it is enough that this one is known. -/
theorem names_of_legWrites {leg : Leg} {wcId : Int} {p : Enricher α} (hwc : known wcId)
    (h : Writes (legWrites leg wcId) p) : NamesSeen known p := by
  refine Prog.names_of_only (Prog.only_mono h fun e he x hx => ?_)
  rw [pointsTo_of_legWrites he hx]
  exact hwc

/-- So the upkeep of a pass needs to know no capture. -/
theorem names_of_upkeepWrites {p : Enricher α} (h : Writes upkeepWrites p) :
    NamesSeen known p := by
  refine Prog.names_of_only (Prog.only_mono h fun e he x hx => ?_)
  rw [pointsTo_of_upkeepWrites he] at hx
  cases hx

/-- An event that names a known capture, or none. -/
theorem names_commit {e : Event} (he : ∀ x, pointsTo e = some x → known x) :
    NamesSeen known (Prog.commit e : Enricher Unit) := ⟨he, trivial⟩

variable [TextTables]

/-- The body of the first loop names the capture it was handed and no other: it marks the
    attempt, and the image leg writes about that capture. -/
theorem names_backfillOne {entry : Int × Option Int × String} (hwc : known entry.1)
    (acc : LoopState) : NamesSeen known (backfillOne cfg env entry acc) := by
  unfold backfillOne
  split
  · trivial
  · refine Prog.names_bind (names_commit ?_) fun _ =>
      Prog.names_bind (names_of_legWrites hwc (writes_imageLeg cfg env _ _ _ _)) fun out => ?_
    · intro x hx
      obtain rfl : entry.1 = x := Option.some.inj hx
      exact hwc
    · dsimp only
      split <;> trivial

/-- The body of the second loop does the same, with both legs and the mark that the capture is
    processed. -/
theorem names_freshOne {entry : Int × Option Int × Option String} (hwc : known entry.1)
    (acc : LoopState) : NamesSeen known (freshOne cfg env entry acc) := by
  refine Prog.names_bind (names_commit ?_) fun _ =>
    Prog.names_bind (names_of_legWrites hwc (writes_textLeg cfg env _ _)) fun out =>
      Prog.names_bind (names_of_legWrites hwc (writes_freshImage cfg env _ _ _ _)) fun out' => ?_
  · intro x hx
    obtain rfl : entry.1 = x := Option.some.inj hx
    exact hwc
  · dsimp only
    split
    · exact Prog.names_bind (names_commit fun x hx => by cases hx) fun _ => trivial
    · trivial

/-- **A pass** names only captures of its queues, which it has read. -/
theorem names_enrichPaced (limit backoff : Int) :
    NamesSeen known (enrichPaced cfg limit backoff env) := by
  unfold enrichPaced openPass readQueues
  simp only [Prog.bind_assoc]
  refine Prog.names_bind (names_of_upkeepWrites (writes_prepare cfg env)) fun _ => ?_
  refine Prog.names_get_bind fun backfill => Prog.names_get_bind fun fresh => ?_
  -- both queues list rows of the databases they were read from
  have hbackfill : ∀ entry ∈ backfill.ukg.capturesNeedingImageEmbedding limit env.now backoff,
      Stored backfill entry.1 := by
    intro entry hentry
    obtain ⟨w, hrow, -⟩ := mem_capturesNeedingImageEmbedding hentry
    exact Option.isSome_iff_exists.mpr ⟨w, Table.get?_eq_some.mpr hrow⟩
  have hfresh : ∀ entry ∈ fresh.ukg.capturesPendingEnrichment limit env.now backoff,
      Stored fresh entry.1 := by
    intro entry hentry
    obtain ⟨w, hrow, -⟩ := mem_capturesPendingEnrichment hentry
    exact Option.isSome_iff_exists.mpr ⟨w, Table.get?_eq_some.mpr hrow⟩
  show NamesSeen _ (workQueues cfg limit backoff env ⟨backfill.ukg, fresh.ukg⟩)
  refine Prog.names_bind (Prog.names_forEach (fun entry hentry acc =>
    names_backfillOne (Or.inl (Or.inr (hbackfill entry hentry))) acc) _) fun acc => ?_
  refine Prog.names_bind (Prog.names_forEach (fun entry hentry acc =>
    names_freshOne (Or.inr (hfresh entry hentry)) acc) _) fun acc => trivial

end

/-! ### Passes and arrivals side by side -/

section
variable [TextTables]

/-- What captures arriving and passes leave, the passes next to the arrivals and each of them
    stopped anywhere. -/
inductive SideBySide (cfg : EnrichConfig) : List Event → Prop where
  | nil : SideBySide cfg []
  | arrive {log : List Event} {e : Event} (h : SideBySide cfg log)
      (he : e.ingested cfg.client = true) : SideBySide cfg (log ++ [e])
  | pass {log log' : List Event} (h : SideBySide cfg log) (env : PassEnv) (limit backoff : Int)
      (stats : Option EnrichStats)
      (hpass : Among cfg (enrichPaced cfg limit backoff env) log log' stats) : SideBySide cfg log'

/-- By induction on what happened: what arrives names nothing, and a pass names what it has read,
    which no event takes away. -/
theorem SideBySide.guarded {cfg : EnrichConfig} {log : List Event} (h : SideBySide cfg log) :
    Guarded Event.apply (Named pointsTo Stored) ClientDir.new log := by
  induction h with
  | nil => exact .nil
  | arrive h he ih =>
    refine .concat ih fun x hx => ?_
    rw [pointsTo_of_ingested he] at hx
    cases hx
  | pass h env limit backoff stats hpass ih =>
    have hnames : NamesSeen (fun _ => False) (enrichPaced cfg limit backoff env) :=
      names_enrichPaced limit backoff
    exact Exec.named stored_apply (fun _ _ _ h => by cases h)
      (fun _ he => pointsTo_of_ingested he) hpass ⟨_, hnames, fun _ hx => hx.elim⟩ ih

/-- **Enrichment keeps the archive.**  However passes and arrivals interleave and wherever passes
    stop, the database holds the archive of what they wrote; and each write, run statement by
    statement where it was committed, had the effect it has on the archive unless one of its
    statements was made to fail: no foreign key and no unique index refused it. -/
theorem passes_archived {cfg : EnrichConfig} {log : List Event} (h : SideBySide cfg log) :
    Holds (ClientDir.after log).ukg (archiveOf log) ∧
    ∀ pre e post, log = pre ++ e :: post → ∀ w, ukgWrite e = some w →
      ∀ {φ : Type} (outcomes : List (TransactionLib.Outcome φ)),
        transact w.sql (ClientDir.after pre).ukg outcomes
            = (.ok (), (ClientDir.after (pre ++ [e])).ukg) ∨
          ∃ f, some f ∈ outcomes ∧ transact w.sql (ClientDir.after pre).ukg outcomes
            = (.error (.fault f), (ClientDir.after pre).ukg) := by
  refine ⟨holds_of_guarded h.guarded, ?_⟩
  rintro pre e post rfl w hw φ outcomes
  have hlog : Guarded Event.apply (Named pointsTo Stored) ClientDir.new (pre ++ [e] ++ post) := by
    rw [List.append_assoc]
    exact h.guarded
  obtain ⟨hbefore, he⟩ := hlog.of_append.of_concat
  rw [ClientDir.after_concat, ukg_apply hw]
  refine (answers (holds_of_guarded hbefore) w).known (fun wcId hname => he wcId ?_) outcomes
  rw [pointsTo, hw]
  exact hname

end

section

attribute [local instance] TextTables.ascii

/-- A pass in which the embedder answers every call. -/
def archivedEnv : PassEnv := smallEnv 1000000000 (some ("T", "A")) (.ok [1] "T") (.ok [2] "A")

/-- A capture has arrived with its screenshot, and a pass has read its queues; its work is still
    to come. -/
def openedPass : Outcome ClientDir Event QueueReads :=
  (openPass smallConfig archivedEnv).run Event.apply 100
    (ClientDir.after (history smallConfig [smallArrival])) (history smallConfig [smallArrival])

/-- A second capture arrives before the pass goes to work, so the pass knows nothing of it. -/
def interruptedLog : List Event := openedPass.log ++ [.insertCapture laterRecord]

/-- The log when the pass has served what it had read, the first capture only. -/
def archivedLog : List Event :=
  match openedPass.value with
  | none => interruptedLog
  | some reads =>
    ((workQueues smallConfig batch retryBackoffTicks archivedEnv reads).run Event.apply 100
      (ClientDir.after interruptedLog) interruptedLog).log

/-- The capture that fell into the pass is in the archive, and the next pass will serve it. -/
theorem passes_archived_small :
    Holds (ClientDir.after archivedLog).ukg (archiveOf archivedLog) ∧
    ((archiveOf archivedLog).get? 1).map (fun e => (e.processed, e.attempted, e.image.isSome))
      = some (true, some 1000000000, true) ∧
    ((archiveOf archivedLog).get? 2).map (fun e => (e.processed, e.attempted, e.image.isSome))
      = some (false, none, false) := by
  have harrived : SideBySide smallConfig (history smallConfig [smallArrival]) :=
    .arrive (.arrive .nil rfl) rfl
  obtain ⟨reads, hreads⟩ := Option.isSome_iff_exists.mp
    (show openedPass.value.isSome = true by decide +kernel)
  obtain ⟨stats, hpass⟩ : ∃ stats, Among smallConfig
      (enrichPaced smallConfig batch retryBackoffTicks archivedEnv)
      (history smallConfig [smallArrival]) archivedLog stats := by
    have hopened : Among smallConfig (openPass smallConfig archivedEnv)
        (history smallConfig [smallArrival]) openedPass.log (some reads) :=
      hreads ▸ exec_of_run _ 100 _
    rw [archivedLog, hreads]
    exact ⟨_, hopened.bind (.other (.insertCapture laterRecord) rfl (exec_of_run _ 100 _))⟩
  exact ⟨(passes_archived (.pass harrived archivedEnv _ _ _ hpass)).1, by decide +kernel,
    by decide +kernel⟩

end

end Precall.Api
