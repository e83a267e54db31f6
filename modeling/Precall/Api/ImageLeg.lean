import Precall.Api.Guards

namespace Precall.Api

open ByteLib TextLib Durable Precall.Proto Precall.Store

/-!
# The image leg over whole histories

A capture whose image work was recorded as `done` is never selected again, so it must have its
vector.  The invariant `DoneHasVector` says it does, or a rebuild of the image store is under way
whose requeue will forget the record.  It holds at every crash point of every history
(`doneHasVector_of_guarded`).

* `imageSettled_of_requeued` — a pass that runs to its end strands no capture, unless an earlier
  rebuild was interrupted between `clear` and the requeue and the pass does not restart the leg;
* `imageSettled_fails` — in that case it can: the label still names the old space, so a service
  that answers the old space again sees nothing to repair.
-/

/-- Recorded as done, a capture has its vector, or its record is about to be forgotten: a rebuild
    of the image store is under way. -/
def DoneHasVector (dir : ClientDir) (log : List Event) : Prop :=
  ∀ wcId row, dir.ukg.imageEmbedding.lookup wcId = some row → row.state = .done →
    (dir.index .image).hasItem (itemIdForCapture wcId) = true ∨ rebuilding .image log = true

/-- The object of a capture can be read: it has a token, and the file under its key opens. -/
def ReadableJpeg [TextTables] (cfg : EnrichConfig) (dir : ClientDir) (w : WindowCaptureRow) :
    Prop :=
  ∃ token jpeg, w.imageToken = some token ∧
    cfg.objects.get dir.files false cfg.client
      (keyPath cfg.client (ymdFromFiletime w.timeStamp) token "jpg") token = .ok jpeg

/-- No capture with a readable screenshot is stranded: it is searchable, given up on, or in one
    of the two work queues. -/
def ImageSettled [TextTables] (cfg : EnrichConfig) (dir : ClientDir) : Prop :=
  ∀ wcId w, (wcId, w) ∈ dir.ukg.windowCapture.rows → ReadableJpeg cfg dir w →
    (dir.index .image).hasItem (itemIdForCapture wcId) = true ∨
    (dir.ukg.imageEmbedding.lookup wcId).map ImageEmbedding.state = some .skipped ∨
    w.isProcessed = false ∨
    (w.isProcessed = true ∧ dir.ukg.imageStateOpen wcId = true)

section
variable [TextTables]

/-- The state rows change only when one is recorded or all are forgotten; no other event writes
    that table. -/
theorem imageEmbedding_apply {e : Event} {dir : ClientDir}
    (hset : ∀ id state n err now, e ≠ .setImageEmbeddingState id state n err now)
    (hreset : e ≠ .resetImageEmbeddingStates) :
    (e.apply dir).ukg.imageEmbedding = dir.ukg.imageEmbedding := by
  cases e with
  | setImageEmbeddingState id state n err now => exact absurd rfl (hset id state n err now)
  | resetImageEmbeddingStates => exact absurd rfl hreset
  | insertCapture rec =>
    simp only [Event.apply, Ukg.insertCapture]
    split <;> rfl
  | _ => first | rfl | simp [Event.apply]

/-- Every guarded event keeps the invariant.  The cases that matter are the `done` record, the
    vectors and the steps of a rebuild. -/
theorem stable_doneHasVector (client : String) (dim : Nat) :
    Stable Event.apply (Guard client dim) DoneHasVector := by
  intro e dir log hguard hinv wcId row hrow hdone
  by_cases hreset : e = .resetImageEmbeddingStates
  · -- the requeue forgets every record
    subst hreset
    cases hrow
  have hcloses : closes .image e = false := by
    cases e <;> first | rfl | exact absurd rfl hreset
  have hstill : rebuilding .image log = true → rebuilding .image (log ++ [e]) = true := by
    intro h
    simp [h, hcloses]
  by_cases hclears : e.clears .image = true
  · -- the three statements of `clear` run while the rebuild is open
    refine Or.inr ?_
    cases e with
    | clearMetadata leg => simp [opens, beq_iff_eq.mp hclears]
    | clearGraph leg =>
      obtain rfl := beq_iff_eq.mp hclears
      exact hstill hguard.1
    | clearItems leg =>
      obtain rfl := beq_iff_eq.mp hclears
      exact hstill hguard.1
    | _ => cases hclears
  have hkeep : (dir.index .image).hasItem (itemIdForCapture wcId) = true →
      ((e.apply dir).index .image).hasItem (itemIdForCapture wcId) = true :=
    Event.hasItem_apply (Bool.eq_false_iff.mpr hclears)
  have hold : dir.ukg.imageEmbedding.lookup wcId = some row →
      ((e.apply dir).index .image).hasItem (itemIdForCapture wcId) = true ∨
        rebuilding .image (log ++ [e]) = true :=
    fun h => (hinv wcId row h hdone).imp hkeep hstill
  by_cases hset : ∃ id state n err now, e = .setImageEmbeddingState id state n err now
  · obtain ⟨id, state, n, err, now, rfl⟩ := hset
    rcases eq_or_ne wcId id with rfl | hne
    · -- the record just made: `done` is only written over a vector that is there
      have hlookup : some (⟨state, n, err, now⟩ : ImageEmbedding) = some row :=
        (AList.lookup_insert dir.ukg.imageEmbedding).symm.trans hrow
      obtain rfl := Option.some.inj hlookup
      obtain rfl : state = .done := hdone
      exact Or.inl (hkeep hguard)
    · exact hold ((AList.lookup_insert_ne hne).symm.trans hrow)
  · push Not at hset
    rw [imageEmbedding_apply hset hreset] at hrow
    exact hold hrow

/-- The invariant holds at every crash point of every history, and after every pass. -/
theorem doneHasVector_of_guarded {client : String} {dim : Nat} {log : List Event}
    (h : Guarded Event.apply (Guard client dim) ClientDir.new log) :
    DoneHasVector (ClientDir.after log) log :=
  h.invariant (stable_doneHasVector client dim) fun _ _ hrow => by cases hrow

/-- Without a rebuild under way, the invariant leaves nothing stranded. -/
theorem imageSettled_of_inv (cfg : EnrichConfig) {dir : ClientDir} {log : List Event}
    (hinv : DoneHasVector dir log) (hclosed : rebuilding .image log = false) :
    ImageSettled cfg dir := by
  intro wcId w _ _
  cases hproc : w.isProcessed with
  | false => exact Or.inr (Or.inr (Or.inl rfl))
  | true =>
    cases hrow : dir.ukg.imageEmbedding.lookup wcId with
    | none => exact Or.inr (Or.inr (Or.inr ⟨rfl, by simp [Ukg.imageStateOpen, hrow]⟩))
    | some row =>
      cases hstate : row.state with
      | pending => exact Or.inr (Or.inr (Or.inr ⟨rfl, by simp [Ukg.imageStateOpen, hrow, hstate]⟩))
      | skipped => exact Or.inr (Or.inl (by simp [hstate]))
      | done =>
        rcases hinv wcId row hrow hstate with h | h
        · exact Or.inl h
        · rw [hclosed] at h
          cases h

/-- **When the image leg strands nothing.**  After any history, a pass that runs to its end leaves
    no capture stranded, provided no rebuild of the image store was left between `clear` and the
    requeue, or the pass itself restarts the leg. -/
theorem imageSettled_of_requeued (cfg : EnrichConfig) (steps : List (Step cfg)) (env : PassEnv)
    (budget : Nat) (stats : EnrichStats)
    (hdone : (runPass cfg env budget (history cfg steps)).value = some stats)
    (hcond : rebuilding .image (history cfg steps) = false ∨
      restarts env (ClientDir.after (history cfg steps)) .image = true) :
    ImageSettled cfg (runPass cfg env budget (history cfg steps)).store := by
  obtain ⟨hguarded, hpass⟩ := runPass_done cfg steps env budget
  have hend := hpass stats hdone
  rw [runPass_store]
  refine imageSettled_of_inv cfg (doneHasVector_of_guarded hguarded) ?_
  rcases hcond with h | h
  · exact hend.owing.repaid h
  · exact hend.repaid .image h

end

/-! ### An interrupted rebuild -/

section

attribute [local instance] TextTables.ascii

/-- The capture is embedded in space `A`; then the service reports `B`, and the pass stops after
    the three statements of `clear`. -/
def interruptedRebuild : List (Step smallConfig) :=
  [smallArrival,
    .pass (smallEnv 1000000000 (some ("T", "A")) (.ok [1] "T") (.ok [2] "A")) 100,
    .pass (smallEnv 2000000000 (some ("T", "B")) (.ok [1] "T") (.ok [3] "B")) 4]

/-- The next pass that finds `B` repairs it: the states are forgotten and the screenshot is
    embedded anew. -/
theorem imageSettled_of_requeued_small :
    ImageSettled smallConfig (runPass smallConfig
      (smallEnv 3000000000 (some ("T", "B")) (.ok [1] "T") (.ok [3] "B")) 100
      (history smallConfig interruptedRebuild)).store :=
  imageSettled_of_requeued smallConfig interruptedRebuild
    (smallEnv 3000000000 (some ("T", "B")) (.ok [1] "T") (.ok [3] "B")) 100
    { imageEmbeddings := 1, backfilled := 1 } (by decide +kernel) (Or.inr (by decide +kernel))

/-- If the service answers `A` again instead, the pass runs to its end and leaves the capture
    recorded as done without a vector. -/
theorem imageSettled_fails :
    (runPass smallConfig (smallEnv 3000000000 (some ("T", "A")) (.ok [1] "T") (.ok [2] "A")) 100
      (history smallConfig interruptedRebuild)).value = some {} ∧
    ¬ ImageSettled smallConfig (runPass smallConfig
      (smallEnv 3000000000 (some ("T", "A")) (.ok [1] "T") (.ok [2] "A")) 100
      (history smallConfig interruptedRebuild)).store := by
  refine ⟨by decide +kernel, fun hsettled => ?_⟩
  have hmem : (1, { Ukg.captureRow smallRecord with isProcessed := true }) ∈
      (runPass smallConfig (smallEnv 3000000000 (some ("T", "A")) (.ok [1] "T") (.ok [2] "A")) 100
        (history smallConfig interruptedRebuild)).store.ukg.windowCapture.rows := by
    decide +kernel
  -- neither searchable, nor skipped, nor in one of the two queues
  rcases hsettled 1 _ hmem ⟨"t", smallJpeg, rfl, by decide +kernel⟩ with h | h | h | h
  · revert h
    decide +kernel
  · revert h
    decide +kernel
  · cases h
  · revert h
    decide +kernel

end

end Precall.Api
