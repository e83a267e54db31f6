import Precall.Store.Ukg

namespace Precall.Store

open TableLib TextLib

/-!
# The two work queues

`captures_needing_image_embedding` and `captures_pending_enrichment` are one query with two
conditions: the captures that meet it and whose attempt clock is a backoff old, the longest
untouched first, cut off by a `LIMIT`.

* `Queue.select` — the captures a queue's query returns; `Queue.Due` — whom it returns when
  nothing is cut off (`Queue.due_iff`);
* `Queue.select_prefix`, `Queue.sorted`, `Queue.nodup` — the limit cuts a sorted list without
  repetitions;
* `rebuildReturnsAll_iff` — forgetting every image verdict puts back to work exactly the captures
  whose last attempt is a backoff old: the clock of the attempts outlives the verdicts.
-/

/-- The two work queues of an enrichment pass: processed captures that still owe a vector of
    their image, and captures that were never processed. -/
inductive Queue where
  | backfill
  | fresh
  deriving DecidableEq, Repr

namespace Queue

/-- The captures a queue's query returns, in order: those it is for and that are due, longest
    untouched first, cut off at the limit. -/
def select (queue : Queue) (db : Ukg) (limit now backoff : Int) : List Int :=
  match queue with
  | .backfill => (db.capturesNeedingImageEmbedding limit now backoff).map Prod.fst
  | .fresh => (db.capturesPendingEnrichment limit now backoff).map Prod.fst

/-- A capture is due in a queue: with no limit, the query returns it.  What a limited query
    leaves out is due as well. -/
def Due (queue : Queue) (db : Ukg) (now backoff wcId : Int) : Prop :=
  wcId ∈ queue.select db (-1) now backoff

/-- Which captures a queue is for, whatever their clocks; together with `attemptDue` it is the
    queue's `WHERE` clause. -/
def wants (queue : Queue) (db : Ukg) (r : Int × WindowCaptureRow) : Bool :=
  match queue with
  | .backfill => r.2.imageToken.isSome && r.2.isProcessed && db.imageStateOpen r.1
  | .fresh => !r.2.isProcessed

/-- The rows a queue's `WHERE` clause leaves. -/
def eligible (queue : Queue) (db : Ukg) (now backoff : Int) : List (Int × WindowCaptureRow) :=
  db.windowCapture.rows.filter fun r => queue.wants db r && db.attemptDue r.1 now backoff

end Queue

/-! ### The order of a queue -/

instance (db : Ukg) : Std.Total db.queueLe where
  total a b := by
    simp only [Ukg.queueLe]
    omega

instance (db : Ukg) : IsTrans (Int × WindowCaptureRow) db.queueLe where
  trans a b c := by
    simp only [Ukg.queueLe]
    omega

/-- A limit takes from the front. -/
theorem isPrefix_limitTo {α : Type} (limit : Int) (rows : List α) :
    Ukg.limitTo limit rows <+: rows := by
  unfold Ukg.limitTo
  split
  · exact List.prefix_refl rows
  · exact List.take_prefix _ rows

/-- `LIMIT` cuts the keys of the rows where it cuts the rows. -/
theorem limitTo_map {α β : Type} (f : α → β) (limit : Int) (rows : List α) :
    Ukg.limitTo limit (rows.map f) = (Ukg.limitTo limit rows).map f := by
  unfold Ukg.limitTo
  split
  · rfl
  · exact List.map_take.symm

/-- A limit that is at least as large as the list cuts nothing. -/
theorem limitTo_of_length_le {α : Type} {limit : Int} {rows : List α}
    (h : (rows.length : Int) ≤ limit) : Ukg.limitTo limit rows = rows := by
  unfold Ukg.limitTo
  split
  · rfl
  · exact List.take_of_length_le (by omega)

namespace Queue

/-- **What a queue selects**: the keys of its eligible rows, in the order of the queue, up to the
    limit. -/
theorem select_eq (queue : Queue) (db : Ukg) (limit now backoff : Int) :
    queue.select db limit now backoff
      = Ukg.limitTo limit (((queue.eligible db now backoff).insertionSort db.queueLe).map
          Prod.fst) := by
  rw [limitTo_map]
  cases queue with
  | fresh => exact List.map_map
  | backfill =>
    -- a row that is wanted has a token, so reading it drops no row
    have hfst : ∀ rows : List (Int × WindowCaptureRow), (∀ r ∈ rows, r.2.imageToken.isSome) →
        (rows.filterMap fun r => r.2.imageToken.map fun token =>
          (r.1, some r.2.timeStamp, token)).map Prod.fst = rows.map Prod.fst := by
      intro rows hrows
      induction rows with
      | nil => rfl
      | cons r rows ih =>
        obtain ⟨hr, hrows⟩ := List.forall_mem_cons.mp hrows
        obtain ⟨token, htoken⟩ := Option.isSome_iff_exists.mp hr
        rw [List.filterMap_cons, htoken, List.map_cons, ← ih hrows]
        rfl
    refine hfst _ fun r hr => ?_
    have hmem := (List.mem_insertionSort _).mp ((isPrefix_limitTo _ _).subset hr)
    have hwants := (List.mem_filter.mp hmem).2
    simp only [Bool.and_eq_true] at hwants
    exact hwants.1.1.1

variable {queue : Queue} {db : Ukg} {limit now backoff : Int}

/-- The limit cuts the queue off at some point: what is returned is the front of what would be
    returned without it. -/
theorem select_prefix : queue.select db limit now backoff <+: queue.select db (-1) now backoff := by
  rw [select_eq, select_eq]
  exact isPrefix_limitTo _ _

/-- A limit that is large enough cuts nothing. -/
theorem select_of_le (h : (db.windowCapture.rows.length : Int) ≤ limit) :
    queue.select db limit now backoff = queue.select db (-1) now backoff := by
  have hlength : (queue.eligible db now backoff).length ≤ db.windowCapture.rows.length :=
    List.length_filter_le _ _
  rw [select_eq, select_eq, limitTo_of_length_le]
  · rfl
  · rw [List.length_map, List.length_insertionSort]
    omega

/-- Who is due in a queue: whom it is for, if the backoff since the last attempt is over.  The
    two conditions are independent of each other. -/
theorem due_iff {wcId : Int} :
    queue.Due db now backoff wcId ↔
      (∃ w, (wcId, w) ∈ db.windowCapture.rows ∧ queue.wants db (wcId, w) = true) ∧
        db.attemptDue wcId now backoff = true := by
  unfold Due
  rw [select_eq]
  show wcId ∈ List.map Prod.fst _ ↔ _
  rw [List.mem_map]
  constructor
  · rintro ⟨⟨id, w⟩, hmem, rfl⟩
    obtain ⟨hrow, hwants⟩ := List.mem_filter.mp ((List.mem_insertionSort _).mp hmem)
    obtain ⟨hwants, hdue⟩ := Bool.and_eq_true_iff.mp hwants
    exact ⟨⟨w, hrow, hwants⟩, hdue⟩
  · rintro ⟨⟨w, hrow, hwants⟩, hdue⟩
    refine ⟨(wcId, w), (List.mem_insertionSort _).mpr ?_, rfl⟩
    exact List.mem_filter.mpr ⟨hrow, Bool.and_eq_true_iff.mpr ⟨hwants, hdue⟩⟩

/-- A capture is due if it was never attempted, or its last attempt is a backoff ago. -/
theorem attemptDue_iff {wcId : Int} :
    db.attemptDue wcId now backoff = true ↔
      ∀ u, db.enrichAttempt.lookup wcId = some u → u ≤ now - backoff := by
  unfold Ukg.attemptDue
  cases db.enrichAttempt.lookup wcId <;> simp

/-- The time of a capture's last attempt, as the queues sort by it. -/
def clock (db : Ukg) (wcId : Int) : Int := (db.enrichAttempt.lookup wcId).getD 0

/-- A queue serves the longest untouched capture first; a capture that was never attempted counts
    as touched at time zero, and ids decide among equals. -/
theorem sorted : (queue.select db (-1) now backoff).Pairwise fun a b =>
    clock db a < clock db b ∨ (clock db a = clock db b ∧ a ≤ b) := by
  rw [select_eq]
  show (List.map Prod.fst _).Pairwise _
  rw [List.pairwise_map]
  exact List.pairwise_insertionSort db.queueLe _

/-- A queue serves no capture twice. -/
theorem nodup : (queue.select db (-1) now backoff).Nodup := by
  rw [select_eq]
  show (List.map Prod.fst _).Nodup
  rw [((List.perm_insertionSort db.queueLe _).map Prod.fst).nodup_iff]
  have hkeys : (db.windowCapture.rows.map Prod.fst).Nodup := by
    rw [List.Nodup, List.pairwise_map]
    exact db.windowCapture.sorted.imp fun h => ne_of_lt h
  exact (List.filter_sublist.map Prod.fst).nodup hkeys

/-- The backfill queue is for processed captures, the fresh queue for the others. -/
theorem wants_isProcessed {r : Int × WindowCaptureRow} (h : queue.wants db r = true) :
    r.2.isProcessed = (queue == .backfill) := by
  cases queue with
  | backfill => exact (Bool.and_eq_true_iff.mp (Bool.and_eq_true_iff.mp h).1).2
  | fresh =>
    show r.2.isProcessed = false
    simpa [wants] using h

/-- No capture is due in both queues, as long as it is not changed between the two reads: one is
    for processed captures and the other for the rest. -/
theorem not_due_both {db' : Ukg} {wcId : Int}
    (hrows : ∀ r ∈ db.windowCapture.rows, r ∈ db'.windowCapture.rows)
    (hb : Queue.backfill.Due db now backoff wcId) (hf : Queue.fresh.Due db' now backoff wcId) :
    False := by
  obtain ⟨⟨w, hrow, hwants⟩, -⟩ := due_iff.mp hb
  obtain ⟨⟨w', hrow', hwants'⟩, -⟩ := due_iff.mp hf
  obtain rfl : w = w' := Table.eq_of_mem (hrows _ hrow) hrow'
  have hprocessed : w.isProcessed = true := wants_isProcessed hwants
  have hunprocessed : w.isProcessed = false := wants_isProcessed hwants'
  rw [hprocessed] at hunprocessed
  cases hunprocessed

end Queue

/-! ### What the entries carry -/

/-- What the backfill queue lists is a capture with its own time and token. -/
theorem mem_capturesNeedingImageEmbedding {db : Ukg} {limit now backoff : Int}
    {entry : Int × Option Int × String}
    (h : entry ∈ db.capturesNeedingImageEmbedding limit now backoff) :
    ∃ w, (entry.1, w) ∈ db.windowCapture.rows ∧ entry.2.1 = some w.timeStamp ∧
      w.imageToken = some entry.2.2 := by
  obtain ⟨r, hr, hentry⟩ := List.mem_filterMap.mp h
  obtain ⟨token, htoken, rfl⟩ := Option.map_eq_some_iff.mp hentry
  have hmem := (List.mem_insertionSort _).mp ((isPrefix_limitTo _ _).subset hr)
  exact ⟨r.2, (List.mem_filter.mp hmem).1, rfl, htoken⟩

/-- So is what the queue of fresh captures lists, where the token may be missing. -/
theorem mem_capturesPendingEnrichment {db : Ukg} {limit now backoff : Int}
    {entry : Int × Option Int × Option String}
    (h : entry ∈ db.capturesPendingEnrichment limit now backoff) :
    ∃ w, (entry.1, w) ∈ db.windowCapture.rows ∧ entry.2.1 = some w.timeStamp ∧
      w.imageToken = entry.2.2 := by
  obtain ⟨r, hr, rfl⟩ := List.mem_map.mp h
  have hmem := (List.mem_insertionSort _).mp ((isPrefix_limitTo _ _).subset hr)
  exact ⟨r.2, (List.mem_filter.mp hmem).1, rfl, rfl⟩

/-! ### Rebuilding the image index -/

/-- Once every verdict is forgotten, the backfill queue is for every processed capture with a
    token. -/
theorem wants_reset {db : Ukg} {r : Int × WindowCaptureRow} :
    Queue.backfill.wants db.resetImageEmbeddingStates r = true ↔
      r.2.imageToken.isSome = true ∧ r.2.isProcessed = true := by
  have hopen : db.resetImageEmbeddingStates.imageStateOpen r.1 = true := rfl
  simp only [Queue.wants, hopen, Bool.and_true, Bool.and_eq_true]

/-- Right after `reset_image_embedding_states`, the backfill queue returns every processed capture
    with a token. -/
def RebuildReturnsAll (db : Ukg) (limit now backoff : Int) : Prop :=
  ∀ wcId w, (wcId, w) ∈ db.windowCapture.rows → w.imageToken.isSome = true →
    w.isProcessed = true → wcId ∈ (db.resetImageEmbeddingStates.capturesNeedingImageEmbedding
      limit now backoff).map Prod.fst

/-- **A rebuild is paced by the attempts before it.**  With a limit that cuts nothing off, the
    backfill queue returns all it should right after `reset_image_embedding_states` if and only if
    the last attempt on each of those captures is a backoff old. -/
theorem rebuildReturnsAll_iff (db : Ukg) (limit now backoff : Int)
    (hlimit : (db.windowCapture.rows.length : Int) ≤ limit) :
    RebuildReturnsAll db limit now backoff ↔
      ∀ wcId w, (wcId, w) ∈ db.windowCapture.rows → w.imageToken.isSome = true →
        w.isProcessed = true → ∀ u, db.enrichAttempt.lookup wcId = some u → u ≤ now - backoff := by
  have hreturned : ∀ wcId w, (wcId, w) ∈ db.windowCapture.rows → w.imageToken.isSome = true →
      w.isProcessed = true → (wcId ∈ (db.resetImageEmbeddingStates.capturesNeedingImageEmbedding
        limit now backoff).map Prod.fst ↔
      ∀ u, db.enrichAttempt.lookup wcId = some u → u ≤ now - backoff) := by
    intro wcId w hrow htoken hprocessed
    show wcId ∈ Queue.backfill.select db.resetImageEmbeddingStates limit now backoff ↔ _
    rw [Queue.select_of_le (show (db.resetImageEmbeddingStates.windowCapture.rows.length : Int)
      ≤ limit from hlimit)]
    -- the attempt clock is not among what is forgotten
    refine Queue.due_iff.trans ((and_iff_right ⟨w, hrow, ?_⟩).trans Queue.attemptDue_iff)
    exact wants_reset.mpr ⟨htoken, hprocessed⟩
  constructor
  · intro h wcId w hrow htoken hprocessed
    exact (hreturned wcId w hrow htoken hprocessed).mp (h wcId w hrow htoken hprocessed)
  · intro h wcId w hrow htoken hprocessed
    exact (hreturned wcId w hrow htoken hprocessed).mpr (h wcId w hrow htoken hprocessed)

section

attribute [local instance] TextTables.ascii

/-- One processed capture, last attempted at time 100. -/
def attemptedOnce : Ukg :=
  ((Ukg.new.insertCapture
    { name := "notepad.exe (1)", imageToken := "t", isForeground := true, windowId := 1,
      windowBounds := "0,0,1,1", windowTitle := "notes",
      timestamp100ns := 116444736000000000 }).1.touchEnrichAttempt 1 100).markProcessed 1

/-- A backoff after the attempt the rebuild returns it. -/
theorem rebuildReturnsAll_attemptedOnce : RebuildReturnsAll attemptedOnce 1 110 10 := by
  refine (rebuildReturnsAll_iff attemptedOnce 1 110 10 (by decide +kernel)).mpr ?_
  intro wcId w hrow _ _ u hu
  have hids : attemptedOnce.windowCapture.rows.map Prod.fst = [1] := by decide +kernel
  obtain rfl : wcId = 1 := List.mem_singleton.mp (hids ▸ List.mem_map_of_mem hrow)
  have hclock : attemptedOnce.enrichAttempt.lookup 1 = some 100 := by decide +kernel
  obtain rfl := Option.some.inj (hclock.symm.trans hu)
  decide

/-- Before that it does not: the reset forgets the states of the images, but not the clocks of
    the attempts. -/
theorem rebuildReturnsAll_fails :
    ¬ ∀ (db : Ukg) (limit now backoff : Int), 0 < backoff →
      (db.windowCapture.rows.length : Int) ≤ limit → RebuildReturnsAll db limit now backoff := by
  intro hall
  have hrow : (attemptedOnce.windowCapture.get? 1).any
      (fun w => w.imageToken.isSome && w.isProcessed) = true := by decide +kernel
  obtain ⟨w, hget, hw⟩ := (Option.any_eq_true _ _).mp hrow
  obtain ⟨htoken, hprocessed⟩ := Bool.and_eq_true_iff.mp hw
  -- five ticks after the attempt, with a backoff of ten
  have hmem := hall attemptedOnce 1 105 10 (by decide) (by decide +kernel) 1 w
    (Table.get?_eq_some.mp hget) htoken hprocessed
  revert hmem
  decide +kernel

end

end Precall.Store
