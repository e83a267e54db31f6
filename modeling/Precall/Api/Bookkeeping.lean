import Precall.Api.Enrich

namespace Precall.Api

open ByteLib TextLib Durable Precall.Store

/-!
# What an enrichment pass writes

Each program of `Precall.Api.Enrich` has a *footprint*: the events it can commit, whatever it
reads and whatever the embedder answers.

* `storeWrites leg` — what concerns a leg's store as a whole: stamp, rebuild, label, flag;
* `legWrites leg wcId` — that, and the rows of one capture; the footprint of the capture's leg
  (`writes_imageLeg`, `writes_textLeg`);
* `spares_enrichClient` — a pass stores no object and inserts no capture: the object tree and the
  keys of the captures belong to the broker alone.
-/

/-- The events of a pass: neither objects nor captures are among them, these come from sessions
    only. -/
def bookkeeping : Event → Bool
  | .putObject .. | .insertCapture .. => false
  | _ => true

/-- The program stores no object and inserts no capture, whatever it reads. -/
def Spares {α : Type} (p : Enricher α) : Prop := Prog.Only (fun e => bookkeeping e = true) p

/-! ### Footprints -/

/-- The writes that concern a leg's store as a whole: its stamp, its label, and its rebuild with
    the flags that go with it. -/
def storeWrites (leg : Leg) : Event → Bool
  | .ensureInfo l _ _ | .clearMetadata l | .clearGraph l | .clearItems l | .setSpaceId l _ _ =>
      l == leg
  | .markAllUnprocessed => leg == .text
  | .resetImageEmbeddingStates => leg == .image
  | .setConfig key _ => key == flagKey leg
  | _ => false

/-- The writes that concern the stores as a whole, of either leg; a pass makes them before it
    reads its queues. -/
def upkeepWrites (e : Event) : Bool := storeWrites .text e || storeWrites .image e

/-- The writes about one capture on one leg: the embedder's answer, the vectors, and the rows
    that keep the books. -/
def rowWrites (leg : Leg) (wcId : Int) : Event → Bool
  | .embedded l id _ => l == leg && id == wcId
  | .insertVector l item _ => l == leg && item == itemIdForCapture wcId
  | .attachTopic id _ _ => leg == .text && id == wcId
  | .setImageEmbeddingState id _ _ _ _ => leg == .image && id == wcId
  | _ => false

/-- The writes of one leg of one capture: those about the capture, and those about the leg's
    store as a whole. -/
def legWrites (leg : Leg) (wcId : Int) (e : Event) : Bool :=
  storeWrites leg e || rowWrites leg wcId e

/-- The program commits only writes of a footprint, whatever it reads and wherever it stops. -/
def Writes {α : Type} (P : Event → Bool) (p : Enricher α) : Prop :=
  Prog.Only (fun e => P e = true) p

namespace Writes

variable {α β : Type} {P : Event → Bool}

/-- A sequence writes what its parts write. -/
theorem bind {p : Enricher α} {f : α → Enricher β} (hp : Writes P p) (hf : ∀ a, Writes P (f a)) :
    Writes P (p >>= f) := Prog.only_bind hp hf

/-- A value is no write. -/
theorem pure (a : α) : Writes P (pure a : Enricher α) := trivial

/-- The one write of `commit`. -/
theorem commit {e : Event} (h : P e = true) : Writes P (Prog.commit e) := ⟨h, trivial⟩

/-- Reading is no write. -/
theorem get : Writes P (Prog.get : Enricher ClientDir) := fun _ => trivial

end Writes

/-- What a leg writes to its store is upkeep. -/
theorem Writes.upkeep {α : Type} {leg : Leg} {p : Enricher α} (h : Writes (storeWrites leg) p) :
    Writes upkeepWrites p := by
  refine Prog.only_mono h fun e he => ?_
  cases leg
  · exact Bool.or_eq_true_iff.mpr (Or.inl he)
  · exact Bool.or_eq_true_iff.mpr (Or.inr he)

/-- What a whole store sees is also in the footprint of a leg of a capture. -/
theorem Writes.leg {α : Type} {leg : Leg} {p : Enricher α} (h : Writes (storeWrites leg) p)
    (wcId : Int) : Writes (legWrites leg wcId) p :=
  Prog.only_mono h fun e he => by rw [legWrites, he, Bool.true_or]

/-! ### Whole-store operations -/

/-- Opening a store stamps it. -/
theorem writes_openIndex (cfg : EnrichConfig) (leg : Leg) :
    Writes (storeWrites leg) (openIndex cfg leg) := by
  refine Writes.get.bind fun dir => ?_
  split
  · exact .commit (beq_self_eq_true leg)
  · exact .pure ()

/-- Forgetting what was done is a write of the leg that starts again; it names no capture. -/
theorem writes_requeue (leg : Leg) : Writes (storeWrites leg) (Prog.commit (requeue leg)) := by
  cases leg <;> exact .commit rfl

/-- A rebuild clears the store and forgets what was done. -/
theorem writes_rebuild (leg : Leg) : Writes (storeWrites leg) (rebuild leg) := by
  have hleg : (leg == leg) = true := beq_self_eq_true leg
  exact Writes.bind ⟨hleg, hleg, hleg, trivial⟩ fun _ => writes_requeue leg

/-- So the check of a leg's space writes to its store, whether it rebuilds it or only relabels
    it. -/
theorem writes_alignSpace (cfg : EnrichConfig) (leg : Leg) (space : String) :
    Writes (storeWrites leg) (alignSpace cfg leg space) := by
  have hlabel : Writes (storeWrites leg) (Prog.commit (.setSpaceId leg cfg.dim space)) :=
    .commit (beq_self_eq_true leg)
  refine Writes.get.bind fun dir => ?_
  dsimp only
  split
  · exact (writes_rebuild leg).bind fun _ => hlabel
  · exact hlabel

/-- The end of an outage lifts the leg's flag and forgets what was done. -/
theorem writes_requeueUnavailable (env : PassEnv) (leg : Leg) :
    Writes (storeWrites leg) (requeueUnavailable env leg) := by
  refine Writes.get.bind fun dir => ?_
  split
  · exact Writes.bind (.commit (beq_self_eq_true (flagKey leg))) fun _ => writes_requeue leg
  · exact .pure ()

/-- Together these are the upkeep at the start of a pass. -/
theorem writes_checkSpaces (cfg : EnrichConfig) (env : PassEnv) :
    Writes upkeepWrites (checkSpaces cfg env) := by
  unfold checkSpaces
  split
  · refine (writes_alignSpace cfg .text _).upkeep.bind fun _ => ?_
    refine (writes_alignSpace cfg .image _).upkeep.bind fun _ => ?_
    refine (writes_requeueUnavailable env .text).upkeep.bind fun _ => ?_
    exact (writes_requeueUnavailable env .image).upkeep
  · exact .pure ()

/-! ### The legs of one capture -/

/-- A state row is about its own capture. -/
theorem writes_setState (wcId : Int) (state : ImageState) (attempts : Int)
    (lastError : Option String) (now : Int) :
    Writes (legWrites .image wcId) (setState wcId state attempts lastError now) :=
  .commit (by simp [legWrites, rowWrites])

section
variable [TextTables] (cfg : EnrichConfig) (env : PassEnv)

/-- Reading a screenshot writes at most that it could not be read. -/
theorem writes_readJpeg (wcId ts : Int) (token : String) (attempts : Int) (stats : EnrichStats) :
    Writes (legWrites .image wcId) (readJpeg cfg env wcId ts token attempts stats) := by
  have hsettle : ∀ {state n err now} {out : ImageStep × EnrichStats},
      Writes (legWrites .image wcId) (setState wcId state n err now >>= fun _ => pure out) :=
    (writes_setState wcId _ _ _ _).bind fun _ => .pure _
  refine Writes.get.bind fun dir => ?_
  dsimp only
  split
  · split <;> exact hsettle
  · split
    · exact .pure _
    · exact hsettle
    · exact hsettle

/-- The image leg up to its call writes at most a state row of its capture: it may refuse it, or
    find the object missing. -/
theorem writes_imageStep (wcId : Int) (ts : Option Int) (token : String) (stats : EnrichStats) :
    Writes (legWrites .image wcId) (imageStep cfg env wcId ts token stats) := by
  refine Writes.get.bind fun dir => ?_
  dsimp only
  split
  · split
    · exact .pure _
    · exact (writes_setState _ _ _ _ _).bind fun _ => .pure _
  · split
    · exact .pure _
    · split
      · exact (writes_setState _ _ _ _ _).bind fun _ => .pure _
      · exact writes_readJpeg cfg env _ _ _ _ _

omit [TextTables] in
/-- What follows the call is about that capture as well: its vector, its state row, and the
    store's own space and flag. -/
theorem writes_imageRecord (wcId attempts : Int) (outcome : EmbedOutcome) (stats : EnrichStats) :
    Writes (legWrites .image wcId) (imageRecord cfg env wcId attempts outcome stats) := by
  unfold imageRecord
  cases outcome with
  | ok embedding space =>
    dsimp only
    split
    · exact (writes_setState _ _ _ _ _).bind fun _ => .pure _
    · refine ((writes_alignSpace cfg .image _).leg wcId).bind fun _ => ?_
      refine Writes.bind (.commit (by simp [legWrites, rowWrites])) fun _ => ?_
      exact (writes_setState _ _ _ _ _).bind fun _ => .pure _
  | disabled =>
    exact Writes.bind (.commit (by simp [legWrites, storeWrites, flagKey])) fun _ => .pure _
  | rejected => exact (writes_setState _ _ _ _ _).bind fun _ => .pure _
  | retry => exact (writes_setState _ _ _ _ _).bind fun _ => .pure _

/-- The image leg of a capture writes about no other capture. -/
theorem writes_imageLeg (wcId : Int) (ts : Option Int) (token : String) (stats : EnrichStats) :
    Writes (legWrites .image wcId) (imageLeg cfg env wcId ts token stats) := by
  refine (writes_imageStep cfg env wcId ts token stats).bind fun out => ?_
  obtain ⟨step, stats'⟩ := out
  cases step with
  | settled leg => exact .pure _
  | embed jpeg attempts =>
    refine Writes.bind (.commit (by simp [legWrites, rowWrites])) fun _ => ?_
    exact writes_imageRecord cfg env wcId attempts _ _

/-- Nor does the image leg of a fresh one. -/
theorem writes_freshImage (wcId : Int) (ts : Option Int) (imageToken : Option String)
    (acc : LoopState) :
    Writes (legWrites .image wcId) (freshImage cfg env wcId ts imageToken acc) := by
  unfold freshImage
  split
  · exact .pure _
  · split
    · exact writes_imageLeg cfg env _ _ _ _
    · exact (writes_setState _ _ _ _ _).bind fun _ => .pure _

omit [TextTables] in
/-- The text leg records its answer in the same way, without a state row. -/
theorem writes_textRecord (wcId : Int) (outcome : EmbedOutcome) (stats : EnrichStats) :
    Writes (legWrites .text wcId) (textRecord cfg wcId outcome stats) := by
  unfold textRecord
  cases outcome with
  | ok embedding space =>
    dsimp only
    split
    · exact .pure _
    · refine ((writes_alignSpace cfg .text _).leg wcId).bind fun _ => ?_
      exact Writes.bind (.commit (by simp [legWrites, rowWrites])) fun _ => .pure _
  | disabled =>
    exact Writes.bind (.commit (by simp [legWrites, storeWrites, flagKey])) fun _ => .pure _
  | rejected => exact .pure _
  | retry => exact .pure _

omit [TextTables] in
/-- The text leg of a capture writes about no other capture. -/
theorem writes_textLeg (wcId : Int) (stats : EnrichStats) :
    Writes (legWrites .text wcId) (textLeg cfg env wcId stats) := by
  refine Writes.get.bind fun dir => ?_
  dsimp only
  split
  · exact .pure _
  · refine Writes.bind (.commit (by simp [legWrites, rowWrites])) fun _ => ?_
    refine (writes_textRecord cfg wcId _ _).bind fun out => ?_
    split
    · exact .pure _
    · refine Writes.bind (Prog.only_forEach (fun _ _ => ?_) _ _) fun _ => .pure _
      exact Writes.commit (by simp [legWrites, rowWrites])

/-! ### The pass -/

omit [TextTables] in
/-- Upkeep touches no capture and no object. -/
theorem bookkeeping_of_upkeepWrites {e : Event} (h : upkeepWrites e = true) :
    bookkeeping e = true := by
  cases e <;> first | rfl | cases h

omit [TextTables] in
/-- Nor does what a leg writes. -/
theorem bookkeeping_of_legWrites {leg : Leg} {wcId : Int} {e : Event}
    (h : legWrites leg wcId e = true) : bookkeeping e = true := by
  cases e <;> first | rfl | cases h

/-- **A pass touches no object and no capture row's key.**  It only keeps the books. -/
theorem spares_enrichClient : Spares (enrichClient cfg env) := by
  have hupkeep : ∀ {α : Type} {p : Enricher α}, Writes upkeepWrites p → Writes bookkeeping p :=
    fun h => Prog.only_mono h fun _ => bookkeeping_of_upkeepWrites
  have hleg : ∀ {α : Type} {leg : Leg} {wcId : Int} {p : Enricher α},
      Writes (legWrites leg wcId) p → Writes bookkeeping p :=
    fun h => Prog.only_mono h fun _ => bookkeeping_of_legWrites
  have hbackfill : ∀ entry acc, Writes bookkeeping (backfillOne cfg env entry acc) := by
    intro entry acc
    unfold backfillOne
    split
    · exact .pure _
    · refine Writes.bind (.commit rfl) fun _ =>
        (hleg (writes_imageLeg cfg env _ _ _ _)).bind fun out => ?_
      dsimp only
      split <;> exact .pure _
  have hfresh : ∀ entry acc, Writes bookkeeping (freshOne cfg env entry acc) := by
    intro entry acc
    refine Writes.bind (.commit rfl) fun _ => (hleg (writes_textLeg cfg env _ _)).bind fun out => ?_
    refine (hleg (writes_freshImage cfg env _ _ _ _)).bind fun out' => ?_
    dsimp only
    split
    · exact Writes.bind (.commit rfl) fun _ => .pure _
    · exact .pure _
  refine (hupkeep (writes_openIndex cfg .text).upkeep).bind fun _ => ?_
  refine (hupkeep (writes_openIndex cfg .image).upkeep).bind fun _ => ?_
  refine (hupkeep (writes_checkSpaces cfg env)).bind fun _ => Writes.get.bind fun dir => ?_
  dsimp only
  refine Writes.bind (Prog.only_forEach hbackfill _ _) fun acc => ?_
  exact Writes.bind (Prog.only_forEach hfresh _ _) fun _ => .pure _

end

end Precall.Api
