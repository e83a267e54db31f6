import Precall.Api.Fairness
import Precall.Api.ImageLeg

namespace Precall.Api

open ByteLib TextLib Durable Precall.Store

/-!
# Final and passing verdicts of the image leg

A capture's image leg is *settled* once its state row says `skipped` or its vector is searchable.
Nothing but a rebuild of the image store unsettles it, and the embedder is never called for a
settled capture.  What may pass (an answer of `Retry`, a missing object, a read error that is not
cryptographic) settles nothing.

* `VerdictGuard` — where a pass calls the image embedder and where it records a state;
* `settled_final` — over every history, between settling and the next call there is a rebuild;
* `Setback` — a capture's leg meets a failure that may pass;
* `setback_not_final` — the pass in which it does neither records `skipped` nor marks the capture
  processed.
-/

/-! ### Settled captures -/

/-- The image leg of a capture is settled: its vector is stored, or a `skipped` row says that it
    will not be. -/
def Settled (dir : ClientDir) (wcId : Int) : Prop :=
  (dir.ukg.imageEmbedding.lookup wcId).map ImageEmbedding.state = some .skipped ∨
    (dir.index .image).hasItem (itemIdForCapture wcId) = true

/-- The events of a rebuild of the image store, the only ones that take a verdict back. -/
def rebuildsImages : Event → Bool
  | .clearMetadata leg | .clearGraph leg | .clearItems leg => leg == .image
  | .resetImageEmbeddingStates => true
  | _ => false

/-- Where the image embedder is called, and where a state is recorded: no call and no `pending` for
    a settled capture, no `done` without its vector. -/
def VerdictGuard (e : Event) (dir : ClientDir) (_log : List Event) : Prop :=
  match e with
  | .embedded .image wcId _ => ¬ Settled dir wcId
  | .setImageEmbeddingState wcId .pending .. => ¬ Settled dir wcId
  | .setImageEmbeddingState wcId .done .. =>
      (dir.index .image).hasItem (itemIdForCapture wcId) = true
  | _ => True

section
variable [TextTables]

/-- A `skipped` row settles its capture. -/
theorem settled_of_skipped (dir : ClientDir) (wcId n : Int) (err : Option String) (now : Int) :
    Settled ((Event.setImageEmbeddingState wcId .skipped n err now).apply dir) wcId := by
  refine Or.inl ?_
  show ((dir.ukg.imageEmbedding.insert wcId _).lookup wcId).map _ = _
  rw [AList.lookup_insert]
  rfl

/-- **One step.** A settled capture stays settled under every guarded event but those of a
    rebuild. -/
theorem Settled.apply {dir : ClientDir} {log : List Event} {e : Event} {wcId : Int}
    (h : Settled dir wcId) (hguard : VerdictGuard e dir log) (hkeep : rebuildsImages e = false) :
    Settled (e.apply dir) wcId := by
  have hclears : e.clears .image = false := by
    cases e <;> first | rfl | exact hkeep
  rcases h with hskipped | hitem
  · by_cases hset : ∃ state n err now, e = .setImageEmbeddingState wcId state n err now
    · obtain ⟨state, n, err, now, rfl⟩ := hset
      cases state with
      | pending => exact absurd (Or.inl hskipped) hguard
      | done => exact Or.inr (Event.hasItem_apply hclears hguard)
      | skipped => exact settled_of_skipped dir wcId n err now
    · refine Or.inl ?_
      by_cases hother : ∃ id state n err now, e = .setImageEmbeddingState id state n err now
      · -- another capture's row
        obtain ⟨id, state, n, err, now, rfl⟩ := hother
        have hne : wcId ≠ id := by
          rintro rfl
          exact hset ⟨state, n, err, now, rfl⟩
        show ((dir.ukg.imageEmbedding.insert id _).lookup wcId).map _ = _
        rw [AList.lookup_insert_ne hne]
        exact hskipped
      · push Not at hother
        rw [imageEmbedding_apply hother fun heq => by simp [heq, rebuildsImages] at hkeep]
        exact hskipped
  · exact Or.inr (Event.hasItem_apply hclears hitem)

/-- **A run of events.** Settled captures stay settled until a rebuild, by induction on the
    events. -/
theorem Settled.after_append {log between : List Event} {wcId : Int}
    (hguarded : Guarded Event.apply VerdictGuard ClientDir.new (log ++ between))
    (h : Settled (ClientDir.after log) wcId) (hkeep : ∀ e ∈ between, rebuildsImages e = false) :
    Settled (ClientDir.after (log ++ between)) wcId := by
  induction between using List.reverseRecOn with
  | nil => simpa using h
  | append_singleton between e ih =>
    rw [← List.append_assoc] at hguarded ⊢
    obtain ⟨hinit, hguard⟩ := hguarded.of_concat
    rw [ClientDir.after_concat]
    refine Settled.apply (ih hinit fun e' he' => hkeep e' (List.mem_append_left _ he')) hguard ?_
    exact hkeep e (List.mem_append_right _ (List.mem_singleton_self e))

/-! ### A pass meets the guard -/

omit [TextTables] in
/-- The start of a pass records no verdict. -/
theorem verdictGuard_of_upkeepWrites {e : Event} (h : upkeepWrites e = true) (dir : ClientDir)
    (log : List Event) : VerdictGuard e dir log := by
  cases e <;> trivial

omit [TextTables] in
/-- Nor does the text leg. -/
theorem verdictGuard_of_textWrites {wcId : Int} {e : Event} (h : legWrites .text wcId e = true)
    (dir : ClientDir) (log : List Event) : VerdictGuard e dir log := by
  cases e with
  | embedded leg id outcome =>
    cases leg with
    | text => trivial
    | image => cases h
  | setImageEmbeddingState id state n err now => cases h
  | _ => trivial

omit [TextTables] in
/-- Nor does what arrives. -/
theorem verdictGuard_of_ingested {client : String} {e : Event} (h : e.ingested client = true)
    (dir : ClientDir) (log : List Event) : VerdictGuard e dir log := by
  cases e <;> trivial

/-- A program with a footprint outside the guard meets it. -/
theorem verdict_of_writes {α : Type} {P : Event → Bool} {p : Enricher α} (h : Writes P p)
    (hP : ∀ e, P e = true → ∀ dir log, VerdictGuard e dir log) (dir : ClientDir)
    (log : List Event) : p.wp Event.apply VerdictGuard (fun _ _ _ => True) dir log :=
  Prog.wp_mono (h.wp Event.apply dir log) (fun e dir log he => hP e he dir log)
    fun _ _ _ _ => trivial

variable (cfg : EnrichConfig) (env : PassEnv) {dir : ClientDir} {log : List Event}

/-- The leg that hands an object to the embedder has found the capture not settled, which is what
    the guard of the answer asks. -/
theorem verdict_imageStep (wcId : Int) (ts : Option Int) (token : String) (stats : EnrichStats) :
    (imageStep cfg env wcId ts token stats).wp Event.apply VerdictGuard
      (fun out dir' _ => ∀ jpeg n, out.1 = .embed jpeg n → ¬ Settled dir' wcId) dir log := by
  simp only [imageStep, Prog.wp_bind, Prog.wp_get, Prog.wp_ite]
  refine ⟨fun hhas => ⟨fun _ => ?_, fun _ => ?_⟩, fun habsent => ⟨fun _ => ?_, fun hstate => ?_⟩⟩
  · exact fun _ _ heq => by cases heq
  · exact ⟨hhas, fun _ _ heq => by cases heq⟩
  · exact fun _ _ heq => by cases heq
  · have hopen : ¬ Settled dir wcId := by
      rintro (h | h)
      · refine hstate ?_
        rw [Ukg.imageEmbeddingState, Option.map_map]
        exact h
      · exact habsent h
    cases ts with
    | none => exact ⟨trivial, fun _ _ heq => by cases heq⟩
    | some ts =>
      simp only [readJpeg, Prog.wp_bind, Prog.wp_get, Prog.wp_ite]
      refine ⟨fun _ => ⟨fun _ => ?_, fun _ => ?_⟩, fun _ => ?_⟩
      · exact ⟨trivial, fun _ _ heq => by cases heq⟩
      · exact ⟨hopen, fun _ _ heq => by cases heq⟩
      · split
        · exact fun _ _ _ => hopen
        · exact ⟨trivial, fun _ _ heq => by cases heq⟩
        · exact ⟨hopen, fun _ _ heq => by cases heq⟩

/-- The record of an answer for a capture that is not settled. -/
theorem verdict_imageRecord (wcId attempts : Int) (outcome : EmbedOutcome) (stats : EnrichStats)
    (hopen : ¬ Settled dir wcId) :
    (imageRecord cfg env wcId attempts outcome stats).wp Event.apply VerdictGuard
      (fun _ _ _ => True) dir log := by
  cases outcome with
  | disabled => exact ⟨trivial, trivial⟩
  | rejected => exact ⟨trivial, trivial⟩
  | retry => exact ⟨hopen, trivial⟩
  | ok embedding space =>
    simp only [imageRecord, Prog.wp_ite, Prog.wp_bind]
    refine ⟨fun _ => ⟨trivial, trivial⟩, fun _ => ?_⟩
    refine Prog.wp_post (verdict_of_writes (writes_alignSpace cfg .image space).upkeep
      (fun _ => verdictGuard_of_upkeepWrites) dir log) fun _ dir₁ log₁ _ => ?_
    refine ⟨trivial, ?_, trivial⟩
    -- the vector just inserted is there
    show (((Event.insertVector .image (itemIdForCapture wcId) embedding).apply dir₁).index
      .image).hasItem (itemIdForCapture wcId) = true
    simp only [Event.apply, ClientDir.index_setIndex]
    exact SiDb.hasItem_insertRows (Or.inl rfl)

/-- The image leg records a verdict only where the guard allows it: it has read the state it goes
    on from, and no other pass writes in between. -/
theorem verdict_imageLeg (wcId : Int) (ts : Option Int) (token : String) (stats : EnrichStats) :
    (imageLeg cfg env wcId ts token stats).wp Event.apply VerdictGuard (fun _ _ _ => True) dir
      log := by
  simp only [imageLeg, Prog.wp_bind]
  refine Prog.wp_post (verdict_imageStep cfg env wcId ts token stats) fun out dir₁ log₁ h => ?_
  obtain ⟨step, stats₁⟩ := out
  cases step with
  | settled leg => trivial
  | embed jpeg attempts =>
    have hopen : ¬ Settled dir₁ wcId := h jpeg attempts rfl
    exact ⟨hopen, verdict_imageRecord cfg env wcId attempts _ stats₁ hopen⟩

/-- **A pass** meets the guard with every write: upkeep and text legs do so by their footprints,
    an image leg by its own check. -/
theorem verdict_enrichClient :
    (enrichClient cfg env).wp Event.apply VerdictGuard (fun _ _ _ => True) dir log := by
  have hbackfill : ∀ entry acc dir log, (backfillOne cfg env entry acc).wp Event.apply VerdictGuard
      (fun _ _ _ => True) dir log := by
    intro entry acc dir log
    simp only [backfillOne, Prog.wp_ite, Prog.wp_bind, Prog.wp_commit]
    refine ⟨fun _ => trivial, fun _ => ⟨trivial, ?_⟩⟩
    refine Prog.wp_post (verdict_imageLeg cfg env _ _ _ _) fun out _ _ _ => ?_
    obtain ⟨leg, stats⟩ := out
    cases leg <;> trivial
  have hfresh : ∀ entry acc dir log, (freshOne cfg env entry acc).wp Event.apply VerdictGuard
      (fun _ _ _ => True) dir log := by
    intro entry acc dir log
    simp only [freshOne, Prog.wp_bind, Prog.wp_commit]
    refine ⟨trivial, ?_⟩
    refine Prog.wp_post (verdict_of_writes (writes_textLeg cfg env entry.1 acc.stats)
      (fun _ => verdictGuard_of_textWrites) _ _) fun out _ _ _ => ?_
    refine Prog.wp_seq (R := fun _ _ _ => True) ?_ fun out' dir' log' _ => ?_
    · simp only [freshImage, Prog.wp_ite]
      refine ⟨fun _ => trivial, fun _ => ?_⟩
      cases entry.2.2 with
      | none => exact ⟨trivial, trivial⟩
      | some token => exact verdict_imageLeg cfg env _ _ _ _
    · simp only [Prog.wp_ite, Prog.wp_bind, Prog.wp_commit]
      exact ⟨fun _ => ⟨trivial, trivial⟩, fun _ => trivial⟩
  rw [enrichClient_eq]
  refine Prog.wp_seq (verdict_of_writes (writes_prepare cfg env)
    (fun _ => verdictGuard_of_upkeepWrites) _ _) fun _ d l _ => ?_
  rw [Prog.wp_bind, Prog.wp_get]
  refine Prog.wp_seq (Prog.wp_forEach (fun entry _ acc d l _ => hbackfill entry acc d l) trivial)
    fun acc _ _ _ => ?_
  exact Prog.wp_seq (Prog.wp_forEach (fun entry _ acc d l _ => hfresh entry acc d l) trivial)
    fun _ _ _ _ => trivial

/-- **Verdicts are final.**  Once a capture is settled, the image embedder is not called for it
    before the image store is rebuilt. -/
theorem settled_final (steps : List (Step cfg)) {before between later : List Event} {wcId : Int}
    {outcome : EmbedOutcome}
    (hlog : history cfg steps = before ++ between ++ .embedded .image wcId outcome :: later)
    (hsettled : Settled (ClientDir.after before) wcId) :
    ∃ e ∈ between, rebuildsImages e = true := by
  have hguarded : Guarded Event.apply VerdictGuard ClientDir.new (history cfg steps) :=
    guarded_history (fun _ => verdictGuard_of_ingested)
      (fun env _ _ => verdict_enrichClient cfg env) steps
  rw [hlog, List.append_cons] at hguarded
  obtain ⟨hinit, hcall⟩ := hguarded.of_append.of_concat
  by_contra hnone
  refine hcall (Settled.after_append hinit hsettled fun e he => ?_)
  exact Bool.eq_false_iff.mpr fun h => hnone ⟨e, he, h⟩

/-! ### Failures that may pass -/

/-- The failures of an image leg that may pass, for the object under a timestamp and a token: it is
    missing, it cannot be read though nothing is wrong with its ciphertext, or the embedder asks to
    retry it. -/
inductive Setback (cfg : EnrichConfig) (env : PassEnv) (files : Files) (wcId ts : Int)
    (token : String) : Prop where
  | missing
      (hjpg : visible env files (keyPath cfg.client (ymdFromFiletime ts) token "jpg") = false)
      (hraw : visible env files (keyPath cfg.client (ymdFromFiletime ts) token "raw") = false)
  | unread (e : ObjectError)
      (hjpg : visible env files (keyPath cfg.client (ymdFromFiletime ts) token "jpg") = true)
      (hget : cfg.objects.get files
        (env.readFails (keyPath cfg.client (ymdFromFiletime ts) token "jpg")) cfg.client
        (keyPath cfg.client (ymdFromFiletime ts) token "jpg") token = .error e)
      (hcrypto : ∀ c, e ≠ .crypto c)
  | retry (jpeg : Bytes)
      (hjpg : visible env files (keyPath cfg.client (ymdFromFiletime ts) token "jpg") = true)
      (hget : cfg.objects.get files
        (env.readFails (keyPath cfg.client (ymdFromFiletime ts) token "jpg")) cfg.client
        (keyPath cfg.client (ymdFromFiletime ts) token "jpg") token = .ok jpeg)
      (houtcome : env.embedImage wcId jpeg = .retry)

variable {cfg env} in
/-- An object that is read is one the embedder asks to retry, for a setback that is no failure to
    read. -/
theorem Setback.outcome_of_read {files : Files} {wcId ts : Int} {token : String}
    (h : Setback cfg env files wcId ts token) {jpeg : Bytes}
    (hjpg : visible env files (keyPath cfg.client (ymdFromFiletime ts) token "jpg") = true)
    (hget : cfg.objects.get files
      (env.readFails (keyPath cfg.client (ymdFromFiletime ts) token "jpg")) cfg.client
      (keyPath cfg.client (ymdFromFiletime ts) token "jpg") token = .ok jpeg) :
    env.embedImage wcId jpeg = .retry := by
  cases h with
  | missing hjpg' =>
    rw [hjpg] at hjpg'
    cases hjpg'
  | unread e _ hget' =>
    rw [hget] at hget'
    cases hget'
  | retry jpeg' _ hget' houtcome =>
    rw [hget] at hget'
    obtain rfl := Except.ok.inj hget'
    exact houtcome

variable {cfg env} in
/-- A bad ciphertext does not pass: it is final, and no setback. -/
theorem Setback.ne_crypto {files : Files} {wcId ts : Int} {token : String}
    (h : Setback cfg env files wcId ts token) {c : CryptoError}
    (hjpg : visible env files (keyPath cfg.client (ymdFromFiletime ts) token "jpg") = true) :
    cfg.objects.get files
      (env.readFails (keyPath cfg.client (ymdFromFiletime ts) token "jpg")) cfg.client
      (keyPath cfg.client (ymdFromFiletime ts) token "jpg") token ≠ .error (.crypto c) := by
  intro hget
  cases h with
  | missing hjpg' =>
    rw [hjpg] at hjpg'
    cases hjpg'
  | unread e _ hget' hcrypto =>
    rw [hget] at hget'
    exact hcrypto c (Except.error.inj hget').symm
  | retry jpeg _ hget' =>
    rw [hget] at hget'
    cases hget'

variable {cfg env} in
/-- Without a compressed frame there is no raw one either. -/
theorem Setback.raw_of_jpg {files : Files} {wcId ts : Int} {token : String}
    (h : Setback cfg env files wcId ts token)
    (hjpg : visible env files (keyPath cfg.client (ymdFromFiletime ts) token "jpg") = false) :
    visible env files (keyPath cfg.client (ymdFromFiletime ts) token "raw") = false := by
  cases h with
  | missing _ hraw => exact hraw
  | unread _ hjpg' =>
    rw [hjpg] at hjpg'
    cases hjpg'
  | retry _ hjpg' =>
    rw [hjpg] at hjpg'
    cases hjpg'

/-- A leg that starts here gets as far as its object and meets such a failure: it cannot be read
    for now, or the embedder wants it again. -/
structure MeetsSetback (cfg : EnrichConfig) (env : PassEnv) (dir : ClientDir) (wcId ts : Int)
    (token : String) : Prop where
  isOpen : ¬ Settled dir wcId
  setback : Setback cfg env dir.files wcId ts token

/-- The writes that end work on a capture: a `skipped` row, after which the image leg leaves it
    alone, or the processed mark. -/
def finalises (wcId : Int) : Event → Bool
  | .setImageEmbeddingState id .skipped _ _ _ => id == wcId
  | .markProcessed id => id == wcId
  | _ => false

omit [TextTables] in
/-- A leg ends the work on no capture but its own. -/
theorem eq_of_finalises {leg : Leg} {wcId id : Int} {e : Event}
    (hown : legWrites leg wcId e = true) (hfinal : finalises id e = true) : id = wcId := by
  cases e with
  | setImageEmbeddingState id' state n err now =>
    cases state with
    | skipped =>
      obtain rfl : id' = id := beq_iff_eq.mp hfinal
      simp only [legWrites, storeWrites, rowWrites, Bool.false_or, Bool.and_eq_true] at hown
      exact beq_iff_eq.mp hown.2
    | pending => cases hfinal
    | done => cases hfinal
  | markProcessed id' => cases hown
  | _ => cases hfinal

/-- What the record of an answer tells of the answer. -/
theorem setback_imageRecord (wcId attempts : Int) (outcome : EmbedOutcome) (stats : EnrichStats) :
    (imageRecord cfg env wcId attempts outcome stats).wp Event.apply
      (fun e _ _ => outcome = .retry → finalises wcId e = false)
      (fun out _ _ => (outcome = .retry → out.1 = .retry) ∧
        (out.1 = .unavailable → outcome = .disabled)) dir log := by
  cases outcome with
  | disabled => exact ⟨fun h => (by cases h), fun h => (by cases h), fun _ => rfl⟩
  | rejected => exact ⟨fun h => (by cases h), fun h => (by cases h), fun h => (by cases h)⟩
  | retry => exact ⟨fun _ => rfl, fun _ => rfl, fun h => (by cases h)⟩
  | ok embedding space =>
    simp only [imageRecord, Prog.wp_ite, Prog.wp_bind]
    refine ⟨fun _ => ⟨fun h => (by cases h), fun h => (by cases h), fun h => (by cases h)⟩,
      fun _ => ?_⟩
    refine Prog.wp_mono ((writes_alignSpace cfg .image space).wp Event.apply dir log)
      (fun _ _ _ _ h => (by cases h)) fun _ _ _ _ => ?_
    exact ⟨fun h => (by cases h), fun h => (by cases h), fun h => (by cases h),
      fun h => (by cases h)⟩

/-- **The leg of a capture** that meets a setback asks for a retry and ends nothing, so the
    capture stays in its queue. -/
theorem setback_imageLeg (wcId ts : Int) (token : String) (stats : EnrichStats) :
    (imageLeg cfg env wcId (some ts) token stats).wp Event.apply
      (fun e _ _ => MeetsSetback cfg env dir wcId ts token → finalises wcId e = false)
      (fun out _ log' => (MeetsSetback cfg env dir wcId ts token → out.1 = .retry) ∧
        (out.1 = .unavailable → ∃ ws, log' = log ++ ws ∧ .embedded .image wcId .disabled ∈ ws))
      dir log := by
  simp only [imageLeg, Prog.wp_bind, imageStep, Prog.wp_get, Prog.wp_ite]
  refine ⟨fun hhas => ⟨fun _ => ?_, fun _ => ?_⟩, fun _ => ⟨fun hstate => ?_, fun _ => ?_⟩⟩
  · exact ⟨fun h => absurd (Or.inr hhas) h.isOpen, fun h => by cases h⟩
  · exact ⟨fun h => absurd (Or.inr hhas) h.isOpen, fun h => absurd (Or.inr hhas) h.isOpen,
      fun h => by cases h⟩
  · have hskipped : Settled dir wcId := by
      refine Or.inl ?_
      rw [Ukg.imageEmbeddingState, Option.map_map] at hstate
      exact hstate
    exact ⟨fun h => absurd hskipped h.isOpen, fun h => by cases h⟩
  simp only [readJpeg, Prog.wp_bind, Prog.wp_get, Prog.wp_ite]
  refine ⟨fun hjpg => ⟨fun hraw => ?_, fun hraw => ?_⟩, fun hjpg => ?_⟩
  · -- a raw frame: neither missing nor readable
    have hnone : ¬ MeetsSetback cfg env dir wcId ts token := by
      rintro ⟨-, hset⟩
      rw [hset.raw_of_jpg (by simpa using hjpg)] at hraw
      cases hraw
    exact ⟨fun h => absurd h hnone, fun h => absurd h hnone, fun h => by cases h⟩
  · exact ⟨fun _ => rfl, fun _ => rfl, fun h => by cases h⟩
  · split
    · next jpeg hget =>
      have hretry : MeetsSetback cfg env dir wcId ts token → env.embedImage wcId jpeg = .retry :=
        fun hmeets => hmeets.setback.outcome_of_read (by simpa using hjpg) hget
      refine ⟨fun _ => rfl, ?_⟩
      refine Prog.wp_mono (Prog.wp_and (setback_imageRecord cfg env wcId _
        (env.embedImage wcId jpeg) stats) (Prog.wp_extends _ _ _))
        (fun e _ _ h hmeets => h.1 (hretry hmeets)) fun out dir' log' h => ?_
      obtain ⟨⟨hout, hgone⟩, ws, rfl⟩ := h
      refine ⟨fun hmeets => hout (hretry hmeets),
        fun hleg => ⟨_ :: ws, List.append_assoc _ _ _, ?_⟩⟩
      rw [hgone hleg]
      exact List.mem_cons_self
    · next c hget =>
      -- a bad ciphertext is final
      have hnone : ¬ MeetsSetback cfg env dir wcId ts token :=
        fun hmeets => hmeets.setback.ne_crypto (by simpa using hjpg) hget
      exact ⟨fun h => absurd h hnone, fun h => absurd h hnone, fun h => by cases h⟩
    · exact ⟨fun _ => rfl, fun _ => rfl, fun h => by cases h⟩

/-! ### What a leg sees of the directory -/

/-- Two directories look the same to the image leg: the same files, embedding states and image
    store. -/
structure SameImage (dir dir' : ClientDir) : Prop where
  files : dir'.files = dir.files
  states : dir'.ukg.imageEmbedding = dir.ukg.imageEmbedding
  index : dir'.index .image = dir.index .image

/-- A setback depends on the stored screenshot, its state row and the store. -/
theorem MeetsSetback.of_same {dir dir' : ClientDir} (hsame : SameImage dir dir') {wcId ts : Int}
    {token : String} (h : MeetsSetback cfg env dir wcId ts token) :
    MeetsSetback cfg env dir' wcId ts token := by
  refine ⟨?_, hsame.files ▸ h.setback⟩
  rw [Settled, hsame.states, hsame.index]
  exact h.isOpen

/-- The attempt of a capture and the writes of a text leg show nothing to the image leg. -/
theorem sameImage_apply {e : Event} {wcId : Int}
    (h : (attemptOf e).isSome = true ∨ legWrites .text wcId e = true) (dir : ClientDir) :
    SameImage dir (e.apply dir) := by
  have htargets : e.targets .image = false := by
    cases e <;> first | rfl | simp_all [attemptOf, legWrites, storeWrites, rowWrites, Event.targets]
  refine ⟨?_, imageEmbedding_apply ?_ ?_, Event.index_apply htargets⟩
  · rcases Event.files_apply e dir with ⟨_, _, _, _, _, rfl⟩ | hfiles
    · simp [attemptOf, legWrites, storeWrites, rowWrites] at h
    · exact hfiles
  · rintro id state n err now rfl
    simp [attemptOf, legWrites, storeWrites, rowWrites] at h
  · rintro rfl
    simp [attemptOf, legWrites, storeWrites, rowWrites] at h

/-- Neither attempts nor the text leg touch these. -/
theorem sameImage_after (wcId : Int) {log ws : List Event}
    (h : ∀ e ∈ ws, (attemptOf e).isSome = true ∨ legWrites .text wcId e = true) :
    SameImage (ClientDir.after log) (ClientDir.after (log ++ ws)) := by
  induction ws using List.reverseRecOn with
  | nil =>
    rw [List.append_nil]
    exact ⟨rfl, rfl, rfl⟩
  | append_singleton ws e ih =>
    obtain ⟨hfiles, hstates, hindex⟩ := ih fun e' he' => h e' (List.mem_append_left _ he')
    have hlast := sameImage_apply (h e (List.mem_append_right _ (List.mem_singleton_self e)))
      (ClientDir.after (log ++ ws))
    rw [← List.append_assoc, ClientDir.after_concat]
    exact ⟨hlast.files.trans hfiles, hlast.states.trans hstates, hlast.index.trans hindex⟩

/-- The captures of a pass are those it started with, under the same tokens and timestamps. -/
theorem mem_windowCapture_after {before ws : List Event} {r : Int × WindowCaptureRow}
    (hws : ∀ e ∈ ws, bookkeeping e = true)
    (hr : r ∈ (ClientDir.after (before ++ ws)).ukg.windowCapture.rows) :
    ∃ row, (r.1, row) ∈ (ClientDir.after before).ukg.windowCapture.rows ∧
      row.imageToken = r.2.imageToken ∧ row.timeStamp = r.2.timeStamp := by
  induction ws using List.reverseRecOn generalizing r with
  | nil =>
    rw [List.append_nil] at hr
    exact ⟨r.2, hr, rfl, rfl⟩
  | append_singleton ws e ih =>
    rw [← List.append_assoc, ClientDir.after_concat] at hr
    rcases Event.mem_windowCapture_apply hr with ⟨row, hrow, htoken, htime⟩ | ⟨rec, rfl, -⟩
    · obtain ⟨row₀, hrow₀, htoken₀, htime₀⟩ :=
        ih (fun e' he' => hws e' (List.mem_append_left _ he')) hrow
      exact ⟨row₀, hrow₀, htoken₀.trans htoken, htime₀.trans htime⟩
    · cases hws _ (List.mem_append_right _ (List.mem_singleton_self _))

/-! ### The pass in which a setback happens -/

/-- A capture's leg that starts here meets a setback, for the object that its row names. -/
def Stalls (dir : ClientDir) (wcId : Int) : Prop :=
  ∃ w token, (wcId, w) ∈ dir.ukg.windowCapture.rows ∧ w.imageToken = some token ∧
    MeetsSetback cfg env dir wcId w.timeStamp token

/-- An answer among the events of a pass has said that there is no image route: the pass leaves the
    image leg of every later capture alone. -/
def RouteGone (events : List Event) : Prop := ∃ id, .embedded .image id .disabled ∈ events

/-- An entry of a queue that the pass after `before` has read: it carries the token and the
    timestamp of its capture. -/
def EntryOf (before : List Event) (entry : Int × Option Int × Option String) : Prop :=
  ∃ w, (entry.1, w) ∈ (ClientDir.after before).ukg.windowCapture.rows ∧
    entry.2.1 = some w.timeStamp ∧ entry.2.2 = w.imageToken

/-- A moment of the pass after `before` when the entries `rest` are still to come: the pass has
    only kept its books so far, and attempted none of them. -/
structure Pending (before : List Event) (rest : List (Int × Option Int × Option String))
    (acc : LoopState) (dir : ClientDir) (log : List Event) : Prop where
  store : dir = ClientDir.after log
  split : ∃ events, log = before ++ events ∧ (∀ e ∈ events, bookkeeping e = true) ∧
    (∀ entry ∈ rest, .touchEnrichAttempt entry.1 env.now ∉ events) ∧
    (acc.stopImages = true → RouteGone events)
  once : (rest.map Prod.fst).Nodup
  entries : ∀ entry ∈ rest, EntryOf before entry

/-- Where the pass after `before` ends the work on a capture: once it has attempted it, and not when
    the attempt met a setback.  And it attempts a capture only once. -/
def PassGuard (before : List Event) (e : Event) (_dir : ClientDir) (log : List Event) : Prop :=
  (∀ wcId, finalises wcId e = true → ∀ events, log = before ++ events →
    .touchEnrichAttempt wcId env.now ∈ events ∧
    ∀ s₁ s₂, events = s₁ ++ .touchEnrichAttempt wcId env.now :: s₂ → ¬ RouteGone s₁ →
      ¬ Stalls cfg env (ClientDir.after (before ++ s₁)) wcId) ∧
  ∀ wcId now, e = .touchEnrichAttempt wcId now → ∀ events, log = before ++ events →
    .touchEnrichAttempt wcId env.now ∉ events

variable {cfg env} {before : List Event} {entry : Int × Option Int × Option String}
  {rest : List (Int × Option Int × Option String)} {acc acc' : LoopState}

omit [TextTables] in
/-- Events that neither end the work on a capture nor attempt one. -/
theorem passGuard_of_neither [TextTables] {e : Event} (hfinal : ∀ wcId, finalises wcId e = false)
    (hattempt : attemptOf e = none) (dir : ClientDir) (log : List Event) :
    PassGuard cfg env before e dir log := by
  refine ⟨fun wcId h => ?_, fun wcId now h => ?_⟩
  · rw [hfinal wcId] at h
    cases h
  · rw [h] at hattempt
    cases hattempt

/-- The attempt of the next entry: it is made once, and only for a capture of the queue. -/
theorem Pending.guard_touch (h : Pending env before (entry :: rest) acc dir log) :
    PassGuard cfg env before (.touchEnrichAttempt entry.1 env.now) dir log := by
  obtain ⟨events, hlog, -, hfresh, -⟩ := h.split
  refine ⟨fun wcId hfinal => (by cases hfinal), fun wcId now heq events' hlog' => ?_⟩
  obtain ⟨rfl, -⟩ := Event.touchEnrichAttempt.inj heq
  obtain rfl := List.append_cancel_left (hlog.symm.trans hlog')
  exact hfresh entry List.mem_cons_self

/-- A write about the next entry, after its attempt, which ends the work only where the leg does
    not stall. -/
theorem Pending.guard_own (h : Pending env before (entry :: rest) acc dir log) {ws : List Event}
    (hws : ∀ e ∈ ws, attemptOf e = none) {e : Event} (he : attemptOf e = none)
    (hown : ∀ wcId, finalises wcId e = true → wcId = entry.1)
    (hopen : finalises entry.1 e = true → acc.stopImages = false →
      ¬ Stalls cfg env (ClientDir.after log) entry.1) (dir' : ClientDir) :
    PassGuard cfg env before e dir' (log ++ .touchEnrichAttempt entry.1 env.now :: ws) := by
  obtain ⟨events, hlog, -, hfresh, hstop⟩ := h.split
  have hfirst : Event.touchEnrichAttempt entry.1 env.now ∉ events :=
    hfresh entry List.mem_cons_self
  have hlast : Event.touchEnrichAttempt entry.1 env.now ∉ ws := fun hmem => by
    cases hws _ hmem
  refine ⟨fun wcId hfinal events' hlog' => ?_, fun wcId now heq => ?_⟩
  · obtain rfl := hown wcId hfinal
    rw [hlog, List.append_assoc] at hlog'
    obtain rfl := List.append_cancel_left hlog'
    refine ⟨List.mem_append_right _ List.mem_cons_self, fun s₁ s₂ hsplit hroute => ?_⟩
    -- the attempt occurs once, so the split is at the point where the entry came up
    obtain ⟨rfl, -, -⟩ := (List.append_cons_inj_of_notMem hfirst hlast).mp hsplit
    rw [← hlog]
    refine hopen hfinal (Bool.eq_false_iff.mpr fun hstopped => hroute (hstop hstopped))
  · rw [heq] at he
    cases he

/-- The next entry is done with: what was written about it concerns none of the rest. -/
theorem Pending.next (h : Pending env before (entry :: rest) acc dir log) {ws : List Event}
    {dir' : ClientDir}
    (hws : ∀ e ∈ ws, bookkeeping e = true ∧ attemptOf e = none)
    (hdir : dir' = ClientDir.after (log ++ .touchEnrichAttempt entry.1 env.now :: ws))
    (hstop : acc'.stopImages = true → acc.stopImages = true ∨ RouteGone ws) :
    Pending env before rest acc' dir' (log ++ .touchEnrichAttempt entry.1 env.now :: ws) := by
  obtain ⟨events, hlog, hbooks, hfresh, hroute⟩ := h.split
  obtain ⟨hnot, honce⟩ := List.nodup_cons.mp h.once
  refine ⟨hdir, ⟨events ++ .touchEnrichAttempt entry.1 env.now :: ws, ?_, ?_, ?_, ?_⟩, honce,
    fun x hx => h.entries x (List.mem_cons_of_mem _ hx)⟩
  · rw [hlog, List.append_assoc]
  · intro e he
    rcases List.mem_append.mp he with he | he
    · exact hbooks e he
    · rcases List.mem_cons.mp he with rfl | he
      · rfl
      · exact (hws e he).1
  · intro x hx hmem
    rcases List.mem_append.mp hmem with hmem | hmem
    · exact hfresh x (List.mem_cons_of_mem _ hx) hmem
    · rcases List.mem_cons.mp hmem with heq | hmem
      · refine hnot ?_
        rw [← (Event.touchEnrichAttempt.inj heq).1]
        exact List.mem_map_of_mem hx
      · cases (hws _ hmem).2
  · intro hstopped
    rcases hstop hstopped with hold | ⟨id, hid⟩
    · obtain ⟨id, hid⟩ := hroute hold
      exact ⟨id, List.mem_append_left _ hid⟩
    · exact ⟨id, List.mem_append_right _ (List.mem_cons_of_mem _ hid)⟩

/-- The rest can wait. -/
theorem Pending.tail (h : Pending env before (entry :: rest) acc dir log) :
    Pending env before rest acc dir log := by
  obtain ⟨events, hlog, hbooks, hfresh, hroute⟩ := h.split
  exact ⟨h.store, ⟨events, hlog, hbooks, fun x hx => hfresh x (List.mem_cons_of_mem _ hx), hroute⟩,
    (List.nodup_cons.mp h.once).2, fun x hx => h.entries x (List.mem_cons_of_mem _ hx)⟩

/-- An entry carries what the leg needs, and it is what the capture's row says. -/
theorem Pending.stalls_entry (h : Pending env before (entry :: rest) acc dir log)
    (hstalls : Stalls cfg env (ClientDir.after log) entry.1) :
    ∃ ts token, entry.2.1 = some ts ∧ entry.2.2 = some token ∧
      MeetsSetback cfg env (ClientDir.after log) entry.1 ts token := by
  obtain ⟨events, rfl, hbooks, -, -⟩ := h.split
  obtain ⟨w, token, hrow, htoken, hmeets⟩ := hstalls
  obtain ⟨w₀, hrow₀, hts₀, htoken₀⟩ := h.entries entry List.mem_cons_self
  obtain ⟨w₁, hrow₁, htoken₁, htime₁⟩ := mem_windowCapture_after hbooks hrow
  obtain rfl := TableLib.Table.eq_of_mem hrow₀ hrow₁
  rw [← htime₁] at hmeets
  exact ⟨w₀.timeStamp, token, hts₀, htoken₀.trans (htoken₁.trans htoken), hmeets⟩

/-- The attempt and the text leg of the next entry change nothing the image leg sees. -/
theorem sameImage_freshOne (log : List Event) {wcId now : Int} {ws₁ : List Event}
    (hws₁ : ∀ e ∈ ws₁, legWrites .text wcId e = true) :
    SameImage (ClientDir.after log)
      (ClientDir.after (log ++ .touchEnrichAttempt wcId now :: ws₁)) := by
  refine sameImage_after wcId fun e he => ?_
  rcases List.mem_cons.mp he with rfl | he
  · exact Or.inl rfl
  · exact Or.inr (hws₁ e he)

variable (cfg) in
/-- What the next entry's image leg answers, and what it leaves alone if the entry stalls. -/
theorem Pending.setback_freshImage (h : Pending env before (entry :: rest) acc dir log)
    {ws₁ : List Event} (hws₁ : ∀ e ∈ ws₁, legWrites .text entry.1 e = true)
    (hstop : acc'.stopImages = acc.stopImages) :
    (freshImage cfg env entry.1 entry.2.1 entry.2.2 acc').wp Event.apply
      (fun e _ _ => acc.stopImages = false → Stalls cfg env (ClientDir.after log) entry.1 →
        finalises entry.1 e = false)
      (fun out _ log' => (acc.stopImages = false →
          Stalls cfg env (ClientDir.after log) entry.1 → out.1 = .retry) ∧
        (out.1 = .unavailable → acc.stopImages = true ∨ ∃ ws,
          log' = log ++ .touchEnrichAttempt entry.1 env.now :: ws₁ ++ ws ∧
            .embedded .image entry.1 .disabled ∈ ws))
      (ClientDir.after (log ++ .touchEnrichAttempt entry.1 env.now :: ws₁))
      (log ++ .touchEnrichAttempt entry.1 env.now :: ws₁) := by
  obtain ⟨w₀, -, hts, -⟩ := h.entries entry List.mem_cons_self
  simp only [Api.freshImage, Prog.wp_ite, hstop]
  -- the leg is left out once the route is gone
  refine ⟨fun hstopped => ⟨fun hgo => ?_, fun _ => Or.inl hstopped⟩, fun _ => ?_⟩
  · rw [hstopped] at hgo
    cases hgo
  cases htoken : entry.2.2 with
  | none =>
    -- without a token there is no object to stall on
    have hnone : ¬ Stalls cfg env (ClientDir.after log) entry.1 := by
      intro hstalls
      obtain ⟨_, _, -, htoken', -⟩ := h.stalls_entry hstalls
      rw [htoken] at htoken'
      cases htoken'
    exact ⟨fun _ hstalls => absurd hstalls hnone, fun _ hstalls => absurd hstalls hnone,
      fun hleg => by cases hleg⟩
  | some token =>
    have hmeets : Stalls cfg env (ClientDir.after log) entry.1 → MeetsSetback cfg env
        (ClientDir.after (log ++ .touchEnrichAttempt entry.1 env.now :: ws₁)) entry.1
          w₀.timeStamp token := by
      intro hstalls
      obtain ⟨ts, token', hts', htoken', hmeets⟩ := h.stalls_entry hstalls
      obtain rfl := Option.some.inj (hts.symm.trans hts')
      obtain rfl := Option.some.inj (htoken.symm.trans htoken')
      -- the setback is still there when the leg starts
      exact hmeets.of_same cfg env (sameImage_freshOne log hws₁)
    rw [hts]
    refine Prog.wp_mono (setback_imageLeg cfg env entry.1 w₀.timeStamp token acc'.stats)
      (fun _ _ _ hguard _ hstalls => hguard (hmeets hstalls)) fun out _ log' hout => ?_
    exact ⟨fun _ hstalls => hout.1 (hmeets hstalls), fun hleg => Or.inr (hout.2 hleg)⟩

variable (cfg) in
/-- **The image leg of the next entry**, after its attempt and its text leg; neither has changed
    what it reads. -/
theorem Pending.freshImage (h : Pending env before (entry :: rest) acc dir log) {ws₁ : List Event}
    (hws₁ : ∀ e ∈ ws₁, legWrites .text entry.1 e = true)
    (hstop : acc'.stopImages = acc.stopImages) :
    (freshImage cfg env entry.1 entry.2.1 entry.2.2 acc').wp Event.apply (PassGuard cfg env before)
      (fun out dir' log' => ∃ ws, log' = log ++ .touchEnrichAttempt entry.1 env.now :: (ws₁ ++ ws) ∧
        dir' = ClientDir.after log' ∧ (∀ e ∈ ws, legWrites .image entry.1 e = true) ∧
        (acc.stopImages = false → Stalls cfg env (ClientDir.after log) entry.1 →
          out.1 = .retry) ∧
        (out.1 = .unavailable → acc.stopImages = true ∨ RouteGone ws))
      (ClientDir.after (log ++ .touchEnrichAttempt entry.1 env.now :: ws₁))
      (log ++ .touchEnrichAttempt entry.1 env.now :: ws₁) := by
  have hset := h.setback_freshImage cfg hws₁ hstop
  have hfoot := Prog.Only.wp_log (writes_freshImage cfg env entry.1 entry.2.1 entry.2.2 acc')
    Event.apply ClientDir.new (log ++ .touchEnrichAttempt entry.1 env.now :: ws₁)
  have hnone : ∀ ws : List Event, (∀ e ∈ ws, legWrites .image entry.1 e = true) →
      ∀ e ∈ ws₁ ++ ws, attemptOf e = none := by
    intro ws hws e he
    rcases List.mem_append.mp he with he | he
    · exact attemptOf_of_legWrites (hws₁ e he)
    · exact attemptOf_of_legWrites (hws e he)
  refine Prog.wp_mono (Prog.wp_and hset hfoot) ?_ ?_
  · rintro e dir' log' ⟨hguard, hown, -, ws, rfl, hws⟩
    rw [List.append_assoc, List.cons_append]
    refine h.guard_own (hnone ws hws) (attemptOf_of_legWrites hown)
      (fun wcId => eq_of_finalises hown) (fun hfinal hgo hstalls => ?_) dir'
    rw [hguard hgo hstalls] at hfinal
    cases hfinal
  · rintro out dir' log' ⟨⟨hretry, hgone⟩, hdir, ws, rfl, hws⟩
    refine ⟨ws, by rw [List.append_assoc, List.cons_append], hdir, hws, hretry, fun hleg => ?_⟩
    rcases hgone hleg with hstopped | ⟨ws', heq, hid⟩
    · exact Or.inl hstopped
    · exact Or.inr ⟨entry.1, List.append_cancel_left heq ▸ hid⟩

omit [TextTables] in
/-- The text leg does not give a screenshot up. -/
theorem finalises_of_textWrites {wcId id : Int} {e : Event} (h : legWrites .text wcId e = true) :
    finalises id e = false := by
  cases e with
  | setImageEmbeddingState id' state n err now => cases h
  | markProcessed id' => cases h
  | _ => rfl

omit [TextTables] in
/-- A leg's writes are bookkeeping, and no attempts. -/
theorem bookkeeping_of_legs {wcId : Int} {ws₁ ws₂ : List Event}
    (h₁ : ∀ e ∈ ws₁, legWrites .text wcId e = true)
    (h₂ : ∀ e ∈ ws₂, legWrites .image wcId e = true) :
    ∀ e ∈ ws₁ ++ ws₂, bookkeeping e = true ∧ attemptOf e = none := by
  intro e he
  rcases List.mem_append.mp he with he | he
  · exact ⟨bookkeeping_of_legWrites (h₁ e he), attemptOf_of_legWrites (h₁ e he)⟩
  · exact ⟨bookkeeping_of_legWrites (h₂ e he), attemptOf_of_legWrites (h₂ e he)⟩

/-- **One entry of the backfill queue.** -/
theorem Pending.backfillOne {entry : Int × Option Int × String}
    (h : Pending env before ((entry.1, entry.2.1, some entry.2.2) :: rest) acc dir log) :
    (backfillOne cfg env entry acc).wp Event.apply (PassGuard cfg env before)
      (Pending env before rest) dir log := by
  simp only [Api.backfillOne, Prog.wp_ite, Prog.wp_bind, Prog.wp_commit]
  refine ⟨fun _ => h.tail, fun hgo => ⟨h.guard_touch, ?_⟩⟩
  have hleg := h.freshImage cfg (List.forall_mem_nil _) (Eq.refl acc.stopImages)
  rw [Api.freshImage, if_neg hgo] at hleg
  rw [h.store, ← ClientDir.after_concat]
  refine Prog.wp_post hleg ?_
  rintro ⟨leg, stats⟩ dir' log' ⟨ws, rfl, hdir, hws, -, hgone⟩
  have hbooks := bookkeeping_of_legs (List.forall_mem_nil _) hws
  cases leg with
  | unavailable => exact h.next hbooks hdir fun _ => hgone rfl
  | done => exact h.next hbooks hdir fun hstopped => Or.inl hstopped
  | terminal => exact h.next hbooks hdir fun hstopped => Or.inl hstopped
  | retry => exact h.next hbooks hdir fun hstopped => Or.inl hstopped

/-- **One entry of the fresh queue.** -/
theorem Pending.freshOne (h : Pending env before (entry :: rest) acc dir log) :
    (freshOne cfg env entry acc).wp Event.apply (PassGuard cfg env before)
      (Pending env before rest) dir log := by
  simp only [Api.freshOne, Prog.wp_bind, Prog.wp_commit]
  refine ⟨h.guard_touch, ?_⟩
  rw [h.store, ← ClientDir.after_concat]
  have htext := Prog.Only.wp_log (writes_textLeg cfg env entry.1 acc.stats) Event.apply
    ClientDir.new (log ++ [.touchEnrichAttempt entry.1 env.now])
  refine Prog.wp_mono htext ?_ ?_
  · rintro e dir' log' ⟨hown, -⟩
    exact passGuard_of_neither (fun wcId => finalises_of_textWrites hown)
      (attemptOf_of_legWrites hown) dir' log'
  rintro ⟨textRetry, stats⟩ dir₁ log₁ ⟨rfl, ws₁, rfl, hws₁⟩
  rw [List.append_assoc, List.singleton_append]
  have hsame : ({ acc with stats := stats } : LoopState).stopImages = acc.stopImages := rfl
  refine Prog.wp_seq (h.freshImage cfg hws₁ hsame) fun out dir' log' hleg => ?_
  obtain ⟨leg, stats'⟩ := out
  obtain ⟨ws, rfl, hdir, hws, hretry, hgone⟩ := hleg
  have hbooks := bookkeeping_of_legs hws₁ hws
  have hstop : (acc.stopImages || leg == .unavailable) = true →
      acc.stopImages = true ∨ RouteGone ws := by
    intro hstopped
    rcases Bool.or_eq_true_iff.mp hstopped with hold | hleg
    · exact Or.inl hold
    · exact hgone (beq_iff_eq.mp hleg)
  have hroute : ∀ later : List Event, RouteGone ws → RouteGone (ws₁ ++ ws ++ later) := by
    rintro later ⟨id, hid⟩
    exact ⟨id, List.mem_append_left _ (List.mem_append_right _ hid)⟩
  simp only [Prog.wp_ite, Prog.wp_bind, Prog.wp_commit, Prog.wp_pure]
  refine ⟨fun hfinished => ⟨?_, ?_⟩, fun _ => ?_⟩
  · -- marked processed only when the image leg has not asked for a retry
    refine h.guard_own (fun e he => (hbooks e he).2) rfl
      (fun wcId hfinal => (beq_iff_eq.mp hfinal).symm) (fun _ hgo hstalls => ?_) dir'
    obtain rfl : leg = .retry := hretry hgo hstalls
    simp at hfinished
  · rw [hdir, ← ClientDir.after_concat, List.append_assoc, List.cons_append]
    refine h.next (fun e he => ?_) rfl fun hstopped => (hstop hstopped).imp_right (hroute _)
    rcases List.mem_append.mp he with he | he
    · exact hbooks e he
    · obtain rfl := List.mem_singleton.mp he
      exact ⟨rfl, rfl⟩
  · refine h.next hbooks hdir fun hstopped => (hstop hstopped).imp_right fun hgone' => ?_
    have hgone := hroute [] hgone'
    rwa [List.append_nil] at hgone

/-- An entry of the backfill queue, with the token it carries. -/
def withToken (entry : Int × Option Int × String) : Int × Option Int × Option String :=
  (entry.1, entry.2.1, some entry.2.2)

/-- When the queues have been read, all their entries are to come; the upkeep before has touched
    no capture's row. -/
theorem pending_of_read {ws : List Event} (hws : ∀ e ∈ ws, upkeepWrites e = true)
    (now backoff limit : Int) :
    let db := (ClientDir.after (before ++ ws)).ukg
    Pending env before ((db.capturesNeedingImageEmbedding limit now backoff).map withToken
      ++ db.capturesPendingEnrichment limit now backoff) {} (ClientDir.after (before ++ ws))
      (before ++ ws) := by
  intro db
  have hbooks : ∀ e ∈ ws, bookkeeping e = true := fun e he => bookkeeping_of_upkeepWrites (hws e he)
  have hkeys : ((db.capturesNeedingImageEmbedding limit now backoff).map withToken
      ++ db.capturesPendingEnrichment limit now backoff).map Prod.fst
        = Queue.backfill.select db limit now backoff
          ++ Queue.fresh.select db limit now backoff := by
    rw [List.map_append, List.map_map]
    rfl
  refine ⟨rfl, ⟨ws, rfl, hbooks, fun x _ hmem => ?_, fun h => by cases h⟩, ?_, ?_⟩
  · cases attemptOf_of_upkeepWrites (hws _ hmem)
  · rw [hkeys]
    refine List.Nodup.append (Queue.select_prefix.sublist.nodup Queue.nodup)
      (Queue.select_prefix.sublist.nodup Queue.nodup) fun id hb hf => ?_
    exact Queue.not_due_both (fun _ hr => hr) (Queue.select_prefix.subset hb)
      (Queue.select_prefix.subset hf)
  · intro entry hentry
    have hrow : ∃ w, (entry.1, w) ∈ db.windowCapture.rows ∧ entry.2.1 = some w.timeStamp ∧
        entry.2.2 = w.imageToken := by
      rcases List.mem_append.mp hentry with h | h
      · obtain ⟨entry', h', rfl⟩ := List.mem_map.mp h
        obtain ⟨w, hrow, hts, htoken⟩ := mem_capturesNeedingImageEmbedding h'
        exact ⟨w, hrow, hts, htoken.symm⟩
      · obtain ⟨w, hrow, hts, htoken⟩ := mem_capturesPendingEnrichment h
        exact ⟨w, hrow, hts, htoken.symm⟩
    obtain ⟨w, hmem, hts, htoken⟩ := hrow
    obtain ⟨w₀, hmem₀, htoken₀, hts₀⟩ := mem_windowCapture_after hbooks hmem
    exact ⟨w₀, hmem₀, by rw [hts, hts₀], by rw [htoken, htoken₀]⟩

/-- **The pass** meets the guard. -/
theorem passGuard_enrichClient (cfg : EnrichConfig) (env : PassEnv) (before : List Event) :
    (enrichClient cfg env).wp Event.apply (PassGuard cfg env before) (fun _ _ _ => True)
      (ClientDir.after before) before := by
  rw [enrichClient_eq]
  have hprepare := Prog.Only.wp_log (writes_prepare cfg env) Event.apply ClientDir.new before
  refine Prog.wp_seq (Prog.wp_mono hprepare ?_
    fun _ _ _ h => h) ?_
  · rintro e dir log ⟨hown, -⟩
    exact passGuard_of_neither (fun wcId => by cases e <;> first | rfl | cases hown)
      (attemptOf_of_upkeepWrites hown) dir log
  rintro _ dir log ⟨rfl, ws, rfl, hws⟩
  rw [Prog.wp_bind, Prog.wp_get]
  refine Prog.wp_seq (Prog.wp_forEach_rest (J := fun xs acc dir log => Pending env before
    (xs.map withToken ++ (ClientDir.after (before ++ ws)).ukg.capturesPendingEnrichment batch
      env.now retryBackoffTicks) acc dir log) (fun entry rest acc dir log h => h.backfillOne)
    (pending_of_read hws env.now retryBackoffTicks batch)) fun acc dir log h => ?_
  exact Prog.wp_seq (Prog.wp_forEach_rest (J := fun xs acc dir log => Pending env before xs acc
    dir log) (fun entry rest acc dir log h => h.freshOne) h) fun _ _ _ _ => trivial

/-- **Setbacks are not final.**  If the attempt on a capture meets a setback, no write of that pass
    records `skipped` for it or marks it processed. -/
theorem setback_not_final (cfg : EnrichConfig) (steps : List (Step cfg)) (env : PassEnv)
    (budget : Nat) {wcId : Int} {s₁ s₂ : List Event}
    (hlog : (runPass cfg env budget (history cfg steps)).log
      = history cfg steps ++ (s₁ ++ .touchEnrichAttempt wcId env.now :: s₂))
    (hroute : ¬ RouteGone s₁)
    (hstalls : Stalls cfg env (ClientDir.after (history cfg steps ++ s₁)) wcId) :
    ∀ e ∈ s₁ ++ .touchEnrichAttempt wcId env.now :: s₂, finalises wcId e = false := by
  obtain ⟨ws, hws, hissued⟩ :=
    Prog.run_issued budget (passGuard_enrichClient cfg env (history cfg steps))
  obtain rfl := List.append_cancel_left (hws.symm.trans hlog)
  have hfirst : Event.touchEnrichAttempt wcId env.now ∉ s₁ := by
    obtain ⟨_, -, hattempt⟩ := hissued s₁ _ s₂ rfl
    exact hattempt wcId env.now rfl s₁ rfl
  intro e he
  by_contra hfinal
  rw [Bool.not_eq_false] at hfinal
  rcases List.mem_append.mp he with he | he
  · -- before its attempt nothing is written about a capture
    obtain ⟨t₁, t₂, rfl⟩ := List.append_of_mem he
    obtain ⟨_, hguard, -⟩ := hissued t₁ e (t₂ ++ .touchEnrichAttempt wcId env.now :: s₂) (by simp)
    exact hfirst (List.mem_append_left _ (hguard wcId hfinal t₁ rfl).1)
  · rcases List.mem_cons.mp he with rfl | he
    · cases hfinal
    · obtain ⟨t₁, t₂, rfl⟩ := List.append_of_mem he
      obtain ⟨_, hguard, -⟩ := hissued (s₁ ++ .touchEnrichAttempt wcId env.now :: t₁) e t₂ (by simp)
      exact (hguard wcId hfinal _ rfl).2 s₁ t₁ rfl hroute hstalls

/-- **Terminal verdicts are final, transient ones are not.**  Over every history, whatever the
    embedder answers and wherever passes stop: between the moment a capture is settled and a later
    call of the image embedder for it, the image store is rebuilt; and a pass in which its attempt
    meets a setback neither records `skipped` for it nor marks it processed. -/
theorem image_verdicts (cfg : EnrichConfig) (steps : List (Step cfg)) :
    (∀ (before between later : List Event) (wcId : Int) (outcome : EmbedOutcome),
      history cfg steps = before ++ between ++ .embedded .image wcId outcome :: later →
      Settled (ClientDir.after before) wcId → ∃ e ∈ between, rebuildsImages e = true) ∧
    ∀ (env : PassEnv) (budget : Nat) (wcId : Int) (s₁ s₂ : List Event),
      (runPass cfg env budget (history cfg steps)).log
        = history cfg steps ++ (s₁ ++ .touchEnrichAttempt wcId env.now :: s₂) →
      ¬ RouteGone s₁ → Stalls cfg env (ClientDir.after (history cfg steps ++ s₁)) wcId →
      ∀ e ∈ s₁ ++ .touchEnrichAttempt wcId env.now :: s₂, finalises wcId e = false :=
  ⟨fun _ _ _ _ _ hlog hsettled => settled_final cfg steps hlog hsettled,
    fun env budget _ _ _ hlog hroute hstalls =>
      setback_not_final cfg steps env budget hlog hroute hstalls⟩

end

/-! ### A refused image and a rebuild -/

section

attribute [local instance] TextTables.ascii

/-- The embedder refuses the capture's image; a later pass finds another space, rebuilds, and stops
    right after it has submitted the image again. -/
def refusedThenRebuilt : List (Step smallConfig) :=
  [smallArrival,
    .pass (smallEnv 1000000000 (some ("T", "A")) (.ok [1] "T") .rejected) 100,
    .pass (smallEnv 2000000000 (some ("T", "B")) (.ok [1] "T") (.ok [3] "B")) 8]

/-- A pass whose image embedder asks to retry. -/
def retryEnv : PassEnv := smallEnv 1000000000 none (.ok [1] "T") .retry

/-- Between the refusal and the second call lies a rebuild; and a pass that was asked to retry ends
    nothing. -/
theorem image_verdicts_small :
    (∃ e ∈ ((history smallConfig refusedThenRebuilt).drop 13).take 7, rebuildsImages e = true) ∧
    ∀ e ∈ (runPass smallConfig retryEnv 100 (history smallConfig [smallArrival])).log.drop 2,
      finalises 1 e = false := by
  constructor
  · refine (image_verdicts smallConfig refusedThenRebuilt).1
      ((history smallConfig refusedThenRebuilt).take 13) _ [] 1 (.ok [3] "B") (by decide +kernel) ?_
    exact Or.inl (by decide +kernel)
  · have hsplit : (runPass smallConfig retryEnv 100 (history smallConfig [smallArrival])).log.drop 2
        = [.ensureInfo .text 1 spaceUnknown, .ensureInfo .image 1 spaceUnknown]
          ++ .touchEnrichAttempt 1 1000000000
          :: (runPass smallConfig retryEnv 100
              (history smallConfig [smallArrival])).log.drop 5 := by
      decide +kernel
    rw [hsplit]
    refine (image_verdicts smallConfig [smallArrival]).2 retryEnv 100 1 _ _
      (by decide +kernel) ?_ ?_
    · rintro ⟨id, hid⟩
      simp at hid
    · have hopen : ¬ Settled (ClientDir.after (history smallConfig [smallArrival]
          ++ [.ensureInfo .text 1 spaceUnknown, .ensureInfo .image 1 spaceUnknown])) 1 := by
        show ¬ (_ ∨ _)
        decide +kernel
      refine ⟨Ukg.captureRow smallRecord, "t", by decide +kernel, rfl, hopen, ?_⟩
      exact .retry smallJpeg (by decide +kernel) (by decide +kernel) rfl

end

end Precall.Api
