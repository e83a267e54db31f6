import Precall.Api.Enrich

namespace Precall.Api

open ByteLib TextLib Durable Precall.Proto Precall.Store

/-!
# Where an enrichment pass commits each of its writes

For every event a *guard*: what holds of the directory and of the log at the moment a pass
commits it.  One proof walks through the program (`safe_enrichClient`); everything that holds at
every crash point of every history is then an assertion that guarded events preserve.

* `rebuilding leg log` — a rebuild of a leg has been started and its captures are not yet
  requeued: the store was cleared (or, for text, the availability flag was taken back);
* `TextSettled` — the text work of a capture is done, recorded or impossible;
* `Guard` — the guards; `history_guarded` — every log of a history met them;
* `Owing` — a program that runs to its end finishes every rebuild it started.
-/

/-! ### Rebuilds under way -/

/-- The events that put a leg's captures in debt to its store: vectors are gone, and their
    captures still count as done. -/
def opens (leg : Leg) : Event → Bool
  | .clearMetadata l => l == leg
  -- only the text flag stands in for lost work: the image queue goes by the state rows
  | .setConfig key value => leg == .text && key == textUnavailable && value != "1"
  | _ => false

/-- The event that settles the debt: every capture of the leg is put back to work, at once. -/
def closes : Leg → Event → Bool
  | .text, .markAllUnprocessed => true
  | .image, .resetImageEmbeddingStates => true
  | _, _ => false

/-- Has a rebuild of the leg been started whose captures are not yet requeued? -/
def rebuilding (leg : Leg) (log : List Event) : Bool :=
  log.foldl (fun b e => opens leg e || (b && !closes leg e)) false

/-- Whether a rebuild is under way, from the last event: one that opens it, one that closes it,
    or any other. -/
@[simp] theorem rebuilding_concat (leg : Leg) (log : List Event) (e : Event) :
    rebuilding leg (log ++ [e]) = (opens leg e || (rebuilding leg log && !closes leg e)) := by
  simp [rebuilding]

/-- Between two points of a log no leg has run up a new debt: a leg that owed nothing owes
    nothing. -/
def Owing (log log' : List Event) : Prop :=
  ∀ leg, rebuilding leg log' = true → rebuilding leg log = true

/-- Nothing has happened, so nothing more is owed. -/
theorem Owing.refl (log : List Event) : Owing log log := fun _ h => h

/-- What is owed is carried along. -/
theorem Owing.trans {l₁ l₂ l₃ : List Event} (h₁ : Owing l₁ l₂) (h₂ : Owing l₂ l₃) : Owing l₁ l₃ :=
  fun leg h => h₁ leg (h₂ leg h)

/-- An event that opens nothing runs up no debt. -/
theorem Owing.concat {log log' : List Event} {e : Event} (h : Owing log log')
    (he : ∀ leg, opens leg e = false) : Owing log (log' ++ [e]) := by
  intro leg hleg
  rw [rebuilding_concat, he leg, Bool.false_or, Bool.and_eq_true] at hleg
  exact h leg hleg.1

/-! ### Settled text work -/

/-- Answers after which a text is not submitted again: a refusal, and a vector of the wrong
    width. -/
def refusal (dim : Nat) : EmbedOutcome → Bool
  | .rejected => true
  | .ok embedding _ => !usable embedding dim
  | _ => false

/-- One event's part in `textRefused`. -/
def textRefusedStep (dim : Nat) (wcId : Int) (refused : Bool) : Event → Bool
  | .embedded .text id outcome => refused || (id == wcId && refusal dim outcome)
  | .clearMetadata .text => false
  | _ => refused

/-- Since the last rebuild of the text store the embedder refused this capture's text, or
    answered it with a vector of the wrong width. -/
def textRefused (dim : Nat) (wcId : Int) (log : List Event) : Bool :=
  log.foldl (textRefusedStep dim wcId) false

/-- Whether the last answer about a text was a refusal, from the last event. -/
@[simp] theorem textRefused_concat (dim : Nat) (wcId : Int) (log : List Event) (e : Event) :
    textRefused dim wcId (log ++ [e]) = textRefusedStep dim wcId (textRefused dim wcId log) e := by
  simp [textRefused]

/-- The text work of a capture is done, or recorded as impossible, or there is no text to work
    on. -/
def TextSettled (dim : Nat) (wcId : Int) (dir : ClientDir) (log : List Event) : Prop :=
  ocrText dir.ukg wcId = "" ∨
    (dir.index .text).hasItem (itemIdForCapture wcId) = true ∨
    dir.ukg.getConfig textUnavailable = some "1" ∨
    textRefused dim wcId log = true

/-- The events that may undo settled text work: a cleared text store, a change of its flag, new
    regions. -/
def disturbsText : Event → Bool
  | .clearMetadata l | .clearGraph l | .clearItems l => l == .text
  | .setConfig key _ => key == textUnavailable
  | .insertCapture _ => true
  | _ => false

/-! ### The guards -/

/-- Where each event of a history is committed.  Of the ingesting process's events only the
    objects carry a guard, of a pass's all but the stamps and the bookkeeping of attempts and
    topics. -/
def Guard (client : String) (dim : Nat) (e : Event) (dir : ClientDir) (log : List Event) : Prop :=
  match e with
  | .putObject clientId .. => clientId = client
  | .clearGraph leg | .clearItems leg =>
      rebuilding leg log = true ∧ (dir.index leg).metadata.rows = []
  | .setSpaceId leg d space =>
      d = dim ∧ (spaceMismatch (dir.index leg) space = false ∨ (dir.index leg).metadata.rows = [])
  | .insertVector leg itemId embedding =>
      (dir.index leg).hasItem itemId = false ∧ embedding.length = dim ∧
        ∃ wcId space, itemId = itemIdForCapture wcId ∧
          .embedded leg wcId (.ok embedding space) ∈ log ∧
          (dir.index leg).spaceId = some space
  | .setImageEmbeddingState wcId .done .. =>
      (dir.index .image).hasItem (itemIdForCapture wcId) = true
  | .markProcessed wcId => TextSettled dim wcId dir log
  | _ => True

/-- What a program that stays off the text leg leaves: no new debt, a longer log, and all settled
    text work still settled. -/
structure Calm (dim : Nat) (dir : ClientDir) (log : List Event) (dir' : ClientDir)
    (log' : List Event) : Prop where
  owing : Owing log log'
  kept : log ⊆ log'
  text : ∀ wcId, TextSettled dim wcId dir log → TextSettled dim wcId dir' log'

/-- Nothing has happened. -/
theorem Calm.refl (dim : Nat) (dir : ClientDir) (log : List Event) : Calm dim dir log dir log :=
  ⟨Owing.refl log, List.Subset.refl log, fun _ h => h⟩

/-- Two calm stretches are one. -/
theorem Calm.trans {dim : Nat} {d₁ d₂ d₃ : ClientDir} {l₁ l₂ l₃ : List Event}
    (h₁ : Calm dim d₁ l₁ d₂ l₂) (h₂ : Calm dim d₂ l₂ d₃ l₃) : Calm dim d₁ l₁ d₃ l₃ :=
  ⟨h₁.owing.trans h₂.owing, List.Subset.trans h₁.kept h₂.kept,
    fun id h => h₂.text id (h₁.text id h)⟩

variable [TextTables]

/-- Settled text work stays settled under every other event. -/
theorem TextSettled.apply {dim : Nat} {wcId : Int} {dir : ClientDir} {log : List Event} {e : Event}
    (h : TextSettled dim wcId dir log) (he : disturbsText e = false) :
    TextSettled dim wcId (e.apply dir) (log ++ [e]) := by
  rcases h with h | h | h | h
  · -- no text: the regions are the same
    refine Or.inl ?_
    have hregions : (e.apply dir).ukg.screenRegion = dir.ukg.screenRegion :=
      Event.screenRegion_apply fun rec heq => by simp [heq, disturbsText] at he
    rw [ocrText, Ukg.regions, hregions]
    exact h
  · -- a vector: the event clears no text rows
    refine Or.inr (Or.inl (Event.hasItem_apply ?_ h))
    cases e <;> first | rfl | exact he
  · refine Or.inr (Or.inr (Or.inl ?_))
    rw [Event.getConfig_apply fun value heq => by simp [heq, disturbsText] at he]
    exact h
  · refine Or.inr (Or.inr (Or.inr ?_))
    rw [textRefused_concat, h]
    cases e with
    | embedded leg id outcome => cases leg <;> rfl
    | clearMetadata leg =>
      cases leg with
      | text => cases he
      | image => rfl
    | _ => rfl

/-- One more event that opens no rebuild and stays off the text leg. -/
theorem Calm.commit {dim : Nat} {dir dir' : ClientDir} {log log' : List Event} {e : Event}
    (h : Calm dim dir log dir' log') (hopens : ∀ leg, opens leg e = false)
    (he : disturbsText e = false) : Calm dim dir log (e.apply dir') (log' ++ [e]) :=
  ⟨h.owing.concat hopens, fun _ hmem => List.mem_append_left _ (h.kept hmem),
    fun id hid => (h.text id hid).apply he⟩

/-- The program `p`, started at a point of a history, commits only guarded writes and ends in
    `Q`. -/
def Safe {α : Type} (cfg : EnrichConfig) (p : Enricher α) (dir : ClientDir) (log : List Event)
    (Q : α → ClientDir → List Event → Prop) : Prop :=
  p.wp Event.apply (Guard cfg.client cfg.dim) Q dir log

/-! ### Whole-store operations -/

section
variable (cfg : EnrichConfig) {dir : ClientDir} {log : List Event}

/-- Opening a store changes neither the metadata database nor which spaces the store rejects; it
    adds at most a stamp. -/
structure Opened (dir : ClientDir) (log : List Event) (dir' : ClientDir) (log' : List Event) :
    Prop where
  owing : Owing log log'
  mismatch : ∀ leg space, spaceMismatch (dir'.index leg) space = spaceMismatch (dir.index leg) space
  ukg : dir'.ukg = dir.ukg

/-- Opening a store is allowed, and leaves it stamped. -/
theorem safe_openIndex (leg : Leg) :
    Safe cfg (openIndex cfg leg) dir log fun _ dir' log' => Opened dir log dir' log' := by
  simp only [Safe, openIndex, Prog.wp_bind, Prog.wp_get, Prog.wp_ite, Prog.wp_commit, Prog.wp_pure]
  refine ⟨fun hnew => ⟨trivial, ?_, ?_, ?_⟩, fun _ => ⟨Owing.refl log, fun _ _ => rfl, rfl⟩⟩
  · exact (Owing.refl log).concat fun _ => rfl
  · intro leg' space
    rcases eq_or_ne leg' leg with rfl | hne
    · -- the placeholder label rejects no space, and neither does a missing one
      have hinfo : (dir.index leg').info = none := Option.isNone_iff_eq_none.mp hnew
      simp [Event.apply, SiDb.ensureInfo, hinfo, spaceMismatch, SiDb.spaceId]
    · rw [Event.apply, ClientDir.index_setIndex_ne _ _ hne]
  · simp [Event.apply]

/-- What a rebuild leaves: an empty join, no debt on its leg, and everything else as it was. -/
structure Rebuilt (cfg : EnrichConfig) (leg : Leg) (dir : ClientDir) (log : List Event)
    (dir' : ClientDir) (log' : List Event) : Prop where
  emptied : (dir'.index leg).metadata.rows = []
  repaid : rebuilding leg log' = false
  owing : Owing log log'
  kept : log ⊆ log'
  other : ∀ leg', leg' ≠ leg → dir'.index leg' = dir.index leg'
  config : dir'.ukg.config = dir.ukg.config
  text : leg = .image → ∀ wcId, TextSettled cfg.dim wcId dir log →
    TextSettled cfg.dim wcId dir' log'

/-- A rebuild is allowed at each of its statements, and leaves the store empty with no rebuild
    under way. -/
theorem safe_rebuild (leg : Leg) :
    Safe cfg (rebuild leg) dir log fun _ dir' log' => Rebuilt cfg leg dir log dir' log' := by
  have hopened : rebuilding leg (log ++ [.clearMetadata leg]) = true := by
    rw [rebuilding_concat]
    simp [opens]
  have hstill : rebuilding leg (log ++ [.clearMetadata leg] ++ [.clearGraph leg]) = true := by
    rw [rebuilding_concat, hopened]
    cases leg <;> rfl
  simp only [Safe, rebuild, clear, Prog.wp_bind, Prog.wp_commit]
  -- the join is empty from the first of the three deletes on, the debt open until the requeue
  refine ⟨trivial, ⟨hopened, by simp [Event.apply, SiDb.clearMetadata]⟩,
    ⟨hstill, by simp [Event.apply, SiDb.clearMetadata, SiDb.clearGraph]⟩, ?_, ?_⟩
  · cases leg <;> trivial
  · refine { emptied := ?_, repaid := ?_, owing := ?_, kept := ?_, other := ?_, config := ?_,
             text := ?_ }
    · cases leg <;> rfl
    · rw [rebuilding_concat]
      cases leg <;> simp [opens, closes, requeue]
    · intro leg' h
      simp only [rebuilding_concat] at h
      cases leg <;> cases leg' <;> simp [opens, closes, requeue] at h <;> exact h
    · intro e he
      simp [he]
    · intro leg' h
      cases leg <;> cases leg' <;> first | rfl | exact absurd rfl h
    · cases leg <;> rfl
    · rintro rfl wcId h
      exact (((h.apply rfl).apply rfl).apply rfl).apply rfl

/-- What moving a label leaves: the new label over vectors that were there under it, or none. -/
structure Aligned (cfg : EnrichConfig) (leg : Leg) (space : String) (dir : ClientDir)
    (log : List Event) (dir' : ClientDir) (log' : List Event) : Prop where
  label : (dir'.index leg).spaceId = some space
  absent : ∀ itemId, (dir.index leg).hasItem itemId = false →
    (dir'.index leg).hasItem itemId = false
  repaid : spaceMismatch (dir.index leg) space = true → rebuilding leg log' = false
  owing : Owing log log'
  kept : log ⊆ log'
  other : ∀ leg', leg' ≠ leg → dir'.index leg' = dir.index leg'
  config : dir'.ukg.config = dir.ukg.config
  text : leg = .image → ∀ wcId, TextSettled cfg.dim wcId dir log →
    TextSettled cfg.dim wcId dir' log'

/-- So is the check of a leg's space; after it the store is labelled with the space it was
    checked against, or has been rebuilt. -/
theorem safe_alignSpace (leg : Leg) (space : String) :
    Safe cfg (alignSpace cfg leg space) dir log fun _ dir' log' =>
      Aligned cfg leg space dir log dir' log' := by
  -- the last write, from a directory that is empty or holds no other space
  have hlabel : ∀ (dir₁ : ClientDir) (log₁ : List Event),
      (spaceMismatch (dir₁.index leg) space = false ∨ (dir₁.index leg).metadata.rows = []) →
      (∀ itemId, (dir.index leg).hasItem itemId = false →
        (dir₁.index leg).hasItem itemId = false) →
      (spaceMismatch (dir.index leg) space = true → rebuilding leg log₁ = false) →
      Owing log log₁ → log ⊆ log₁ →
      (∀ leg', leg' ≠ leg → dir₁.index leg' = dir.index leg') →
      dir₁.ukg.config = dir.ukg.config →
      (leg = .image → ∀ wcId, TextSettled cfg.dim wcId dir log →
        TextSettled cfg.dim wcId dir₁ log₁) →
      Safe cfg (Prog.commit (.setSpaceId leg cfg.dim space)) dir₁ log₁ fun _ dir' log' =>
        Aligned cfg leg space dir log dir' log' := by
    intro dir₁ log₁ hguard habsent hrepaid howing hkept hother hconfig htext
    refine ⟨⟨rfl, hguard⟩, ?_, ?_, ?_, ?_, ?_, ?_, ?_, ?_⟩
    · simp only [Event.apply, ClientDir.index_setIndex, SiDb.spaceId_setSpaceId]
    · intro itemId h
      simp only [Event.apply, ClientDir.index_setIndex, SiDb.hasItem_setSpaceId]
      exact habsent itemId h
    · intro h
      rw [rebuilding_concat, hrepaid h]
      rfl
    · exact howing.concat fun _ => rfl
    · exact fun e he => List.mem_append_left _ (hkept he)
    · intro leg' h
      rw [Event.apply, ClientDir.index_setIndex_ne _ _ h]
      exact hother leg' h
    · simpa [Event.apply] using hconfig
    · exact fun hleg id h => (htext hleg id h).apply rfl
  simp only [Safe, alignSpace, Prog.wp_bind, Prog.wp_get, Prog.wp_ite]
  -- the label moves after a rebuild, or over a store that did not mind it
  refine ⟨fun h => ?_, fun h => ?_⟩
  · refine Prog.wp_post (safe_rebuild cfg leg) fun _ dir₁ log₁ hr => ?_
    exact hlabel dir₁ log₁ (Or.inr hr.emptied)
      (fun itemId _ => SiDb.hasItem_eq_false hr.emptied itemId) (fun _ => hr.repaid) hr.owing
      hr.kept hr.other hr.config hr.text
  · have hfalse : spaceMismatch (dir.index leg) space = false := by simpa using h
    exact hlabel dir log (Or.inl hfalse) (fun _ h => h) (fun h' => absurd h' h) (Owing.refl log)
      (List.Subset.refl log) (fun _ _ => rfl) rfl (fun _ _ h => h)

/-- What taking back an availability flag leaves: a leg that had its flag up is repaid, no debt
    is new, and the other settings are as they were. -/
structure Requeued (env : PassEnv) (leg : Leg) (dir : ClientDir) (log : List Event)
    (dir' : ClientDir) (log' : List Event) : Prop where
  repaid : flagSet env dir.ukg (flagKey leg) = true → rebuilding leg log' = false
  owing : Owing log log'
  config : ∀ key, key ≠ flagKey leg → dir'.ukg.getConfig key = dir.ukg.getConfig key

/-- The end of an outage is allowed, and repays the leg that had its flag up. -/
theorem safe_requeueUnavailable (env : PassEnv) (leg : Leg) :
    Safe cfg (requeueUnavailable env leg) dir log fun _ dir' log' =>
      Requeued env leg dir log dir' log' := by
  simp only [Safe, requeueUnavailable, Prog.wp_bind, Prog.wp_get, Prog.wp_ite, Prog.wp_commit,
    Prog.wp_pure]
  refine ⟨fun h => ⟨trivial, ?_, ?_⟩, fun h => ?_⟩
  · cases leg <;> trivial
  · refine { repaid := fun _ => ?_, owing := ?_, config := ?_ }
    · rw [rebuilding_concat]
      cases leg <;> simp [opens, closes, requeue]
    · -- taking back the text flag opens a debt, which the requeue repays at once
      intro leg' h'
      simp only [rebuilding_concat] at h'
      cases leg <;> cases leg' <;>
        simp [opens, closes, requeue, flagKey, textUnavailable, imageUnavailable] at h' <;> exact h'
    · intro key hkey
      have hrequeue : ∀ value, requeue leg ≠ .setConfig key value := by
        intro value
        cases leg <;> simp [requeue]
      rw [Event.getConfig_apply hrequeue]
      exact Event.getConfig_apply fun value heq => hkey (Event.setConfig.inj heq).1.symm
  · exact { repaid := fun h' => absurd h' h, owing := Owing.refl log, config := fun _ _ => rfl }

/-! ### The image leg of one capture -/

/-- Recording anything but `done` is always in order. -/
theorem safe_setState {state : ImageState} (hstate : state ≠ .done) (wcId attempts : Int)
    (lastError : Option String) (now : Int) {dir₀ : ClientDir} {log₀ : List Event}
    (h : Calm cfg.dim dir₀ log₀ dir log) :
    Safe cfg (setState wcId state attempts lastError now) dir log fun _ dir' log' =>
      Calm cfg.dim dir₀ log₀ dir' log' := by
  refine ⟨?_, h.commit (fun _ => rfl) rfl⟩
  cases state with
  | done => exact absurd rfl hstate
  | _ => trivial

/-- Reading a screenshot is calm, and changes nothing where it succeeds. -/
theorem safe_readJpeg (env : PassEnv) (wcId ts : Int) (token : String) (attempts : Int)
    (stats : EnrichStats) :
    Safe cfg (readJpeg cfg env wcId ts token attempts stats) dir log fun out dir' log' =>
      Calm cfg.dim dir log dir' log' ∧ ∀ jpeg n, out.1 = .embed jpeg n → dir' = dir := by
  have hcalm := Calm.refl cfg.dim dir log
  -- every way out but the embedder call records a state first
  have hsettle : ∀ (state : ImageState) (n : Int) (err : Option String) (now : Int) (leg : ImageLeg)
      (stats : EnrichStats), state ≠ .done →
      Safe cfg (setState wcId state n err now >>= fun _ => pure (ImageStep.settled leg, stats))
        dir log fun out dir' log' =>
          Calm cfg.dim dir log dir' log' ∧ ∀ jpeg n, out.1 = .embed jpeg n → dir' = dir := by
    intro state n err now leg stats hstate
    simp only [Safe, Prog.wp_bind]
    refine Prog.wp_post (safe_setState cfg hstate wcId n err now hcalm) fun _ dir' log' h => ?_
    exact ⟨h, fun jpeg n heq => by cases heq⟩
  simp only [Safe, readJpeg, Prog.wp_bind, Prog.wp_get, Prog.wp_ite]
  refine ⟨fun _ => ⟨fun _ => ?_, fun _ => ?_⟩, fun _ => ?_⟩
  · exact hsettle .skipped _ _ _ _ _ (by decide)
  · exact hsettle .pending _ _ _ _ _ (by decide)
  · -- what `get` answers: the bytes, a broken ciphertext, another error
    split
    · exact ⟨hcalm, fun _ _ _ => rfl⟩
    · exact hsettle .skipped _ _ _ _ _ (by decide)
    · exact hsettle .pending _ _ _ _ _ (by decide)

/-- So is the image leg up to its call, which it makes only for a capture that has no vector yet:
    that is what a later insert relies on. -/
theorem safe_imageStep (env : PassEnv) (wcId : Int) (ts : Option Int) (token : String)
    (stats : EnrichStats) :
    Safe cfg (imageStep cfg env wcId ts token stats) dir log fun out dir' log' =>
      Calm cfg.dim dir log dir' log' ∧ ∀ jpeg n, out.1 = .embed jpeg n →
        (dir'.index .image).hasItem (itemIdForCapture wcId) = false := by
  have hcalm := Calm.refl cfg.dim dir log
  simp only [Safe, imageStep, Prog.wp_bind, Prog.wp_get, Prog.wp_ite]
  refine ⟨fun hhas => ⟨fun _ => ?_, fun _ => ?_⟩, fun habsent => ⟨fun _ => ?_, fun _ => ?_⟩⟩
  · exact ⟨hcalm, fun _ _ heq => by cases heq⟩
  · -- the repaired state row of a vector that is there
    exact ⟨hhas, hcalm.commit (fun _ => rfl) rfl, fun _ _ heq => by cases heq⟩
  · -- an earlier refusal
    exact ⟨hcalm, fun _ _ heq => by cases heq⟩
  · cases ts with
    | none =>
      refine Prog.wp_seq
        (safe_setState cfg (show ImageState.skipped ≠ .done by decide) _ _ _ _ hcalm)
        fun _ dir' log' h => ?_
      exact ⟨h, fun _ _ heq => by cases heq⟩
    | some ts =>
      refine Prog.wp_post (safe_readJpeg cfg env wcId ts token _ stats) fun out dir' log' h => ?_
      refine ⟨h.1, fun jpeg n heq => ?_⟩
      rw [h.2 jpeg n heq]
      exact Bool.eq_false_iff.mpr habsent

/-- The record of an answer that is in the log, for a capture without a vector; one case for each
    answer. -/
theorem safe_imageRecord (env : PassEnv) (wcId attempts : Int) (outcome : EmbedOutcome)
    (stats : EnrichStats) (hanswer : .embedded .image wcId outcome ∈ log)
    (habsent : (dir.index .image).hasItem (itemIdForCapture wcId) = false) :
    Safe cfg (imageRecord cfg env wcId attempts outcome stats) dir log fun _ dir' log' =>
      Calm cfg.dim dir log dir' log' := by
  have hcalm := Calm.refl cfg.dim dir log
  cases outcome with
  | disabled => exact ⟨trivial, hcalm.commit (fun leg => by cases leg <;> rfl) rfl⟩
  | rejected =>
    exact safe_setState cfg (show ImageState.skipped ≠ .done by decide) _ _ _ _ hcalm
  | retry =>
    exact safe_setState cfg (show ImageState.pending ≠ .done by decide) _ _ _ _ hcalm
  | ok embedding space =>
    simp only [Safe, imageRecord, Prog.wp_ite, Prog.wp_bind]
    refine ⟨fun _ => ?_, fun husable => ?_⟩
    · exact safe_setState cfg (show ImageState.skipped ≠ .done by decide) _ _ _ _ hcalm
    · -- the width is checked before anything is cleared or relabelled
      have hwidth : embedding.length = cfg.dim := by simpa [usable] using husable
      refine Prog.wp_post (safe_alignSpace cfg .image space) fun _ dir₁ log₁ ha => ?_
      have hcalm₁ : Calm cfg.dim dir log dir₁ log₁ := ⟨ha.owing, ha.kept, ha.text rfl⟩
      refine ⟨⟨ha.absent _ habsent, hwidth, wcId, space, rfl, ha.kept hanswer, ha.label⟩, ?_, ?_⟩
      · -- the vector just inserted is there
        show (((Event.insertVector .image (itemIdForCapture wcId) embedding).apply dir₁).index
          .image).hasItem (itemIdForCapture wcId) = true
        simp only [Event.apply, ClientDir.index_setIndex]
        exact SiDb.hasItem_insertRows (Or.inl rfl)
      · exact (hcalm₁.commit (fun _ => rfl) rfl).commit (fun _ => rfl) rfl

/-- The image leg is allowed to write what it writes: its vector is the answer it has just
    logged, and a record as `done` follows the vector. -/
theorem safe_imageLeg (env : PassEnv) (wcId : Int) (ts : Option Int) (token : String)
    (stats : EnrichStats) :
    Safe cfg (imageLeg cfg env wcId ts token stats) dir log fun _ dir' log' =>
      Calm cfg.dim dir log dir' log' := by
  simp only [Safe, imageLeg, Prog.wp_bind]
  refine Prog.wp_post (safe_imageStep cfg env wcId ts token stats) fun out dir₁ log₁ h => ?_
  obtain ⟨step, stats₁⟩ := out
  obtain ⟨hcalm, habsent⟩ := h
  cases step with
  | settled leg => exact hcalm
  | embed jpeg attempts =>
    refine ⟨trivial, ?_⟩
    have hcalm₂ : Calm cfg.dim dir log
        ((Event.embedded .image wcId (env.embedImage wcId jpeg)).apply dir₁)
        (log₁ ++ [.embedded .image wcId (env.embedImage wcId jpeg)]) :=
      hcalm.commit (fun _ => rfl) rfl
    refine Prog.wp_post (safe_imageRecord cfg env wcId attempts (env.embedImage wcId jpeg) stats₁
      (List.mem_append_right _ (List.mem_singleton_self _)) (habsent jpeg attempts rfl))
      fun _ dir' log' h => ?_
    exact hcalm₂.trans h

/-! ### The text leg of one capture -/

/-- What the text leg of a capture leaves: no new debt, and settled work unless it must be
    retried. -/
structure TextDone (cfg : EnrichConfig) (wcId : Int) (retry : Bool) (log : List Event)
    (dir' : ClientDir) (log' : List Event) : Prop where
  owing : Owing log log'
  settled : retry = false → TextSettled cfg.dim wcId dir' log'

/-- Recording the answer of the text leg is allowed where the answer is in the log, and ends with
    the capture searchable or its refusal on record. -/
theorem safe_textRecord (wcId : Int) (outcome : EmbedOutcome) (stats : EnrichStats)
    (hanswer : .embedded .text wcId outcome ∈ log)
    (hrefused : refusal cfg.dim outcome = true → textRefused cfg.dim wcId log = true)
    (habsent : (dir.index .text).hasItem (itemIdForCapture wcId) = false) :
    Safe cfg (textRecord cfg wcId outcome stats) dir log fun out dir' log' =>
      TextDone cfg wcId out.1 log dir' log' := by
  have howing := Owing.refl log
  cases outcome with
  | disabled =>
    refine ⟨trivial, howing.concat fun leg => by cases leg <;> rfl, fun _ => ?_⟩
    exact Or.inr (Or.inr (Or.inl (AList.lookup_insert _)))
  | rejected => exact ⟨howing, fun _ => Or.inr (Or.inr (Or.inr (hrefused rfl)))⟩
  | retry => exact ⟨howing, fun h => by cases h⟩
  | ok embedding space =>
    simp only [Safe, textRecord, Prog.wp_ite, Prog.wp_bind]
    refine ⟨fun hwidth => ⟨howing, fun _ => Or.inr (Or.inr (Or.inr (hrefused hwidth)))⟩,
      fun husable => ?_⟩
    have hwidth : embedding.length = cfg.dim := by simpa [usable] using husable
    refine Prog.wp_post (safe_alignSpace cfg .text space) fun _ dir₁ log₁ ha => ?_
    refine ⟨⟨ha.absent _ habsent, hwidth, wcId, space, rfl, ha.kept hanswer, ha.label⟩,
      ha.owing.concat fun _ => rfl, fun _ => Or.inr (Or.inl ?_)⟩
    simp only [Event.apply, ClientDir.index_setIndex]
    exact SiDb.hasItem_insertRows (Or.inl rfl)

/-- Topics are no concern of the guard. -/
theorem safe_attachTopics (wcId : Int) (topics : List (String × F64)) :
    Safe cfg (attachTopics wcId topics) dir log fun _ dir' log' =>
      Calm cfg.dim dir log dir' log' := by
  unfold Safe attachTopics
  refine Prog.wp_forEach ?_ (Calm.refl cfg.dim dir log)
  intro t _ _ dir' log' h
  exact ⟨trivial, h.commit (fun _ => rfl) rfl⟩

/-- The text leg as a whole is allowed, and ends with its capture settled unless it asks for a
    retry. -/
theorem safe_textLeg (env : PassEnv) (wcId : Int) (stats : EnrichStats) :
    Safe cfg (textLeg cfg env wcId stats) dir log fun out dir' log' =>
      TextDone cfg wcId out.1 log dir' log' := by
  simp only [Safe, textLeg, Prog.wp_bind, Prog.wp_get, Prog.wp_ite, Prog.wp_commit]
  refine ⟨fun hdone => ⟨Owing.refl log, fun _ => ?_⟩, fun hwork => ⟨trivial, ?_⟩⟩
  · -- no text, or its vector is there
    exact hdone.imp id fun h => Or.inl h
  · have habsent : (dir.index .text).hasItem (itemIdForCapture wcId) = false :=
      Bool.eq_false_iff.mpr (not_or.mp hwork).2
    generalize env.embedText wcId (ocrText dir.ukg wcId) = outcome
    have howing₁ : Owing log (log ++ [.embedded .text wcId outcome]) :=
      (Owing.refl log).concat fun _ => rfl
    refine Prog.wp_post (safe_textRecord cfg wcId outcome stats
      (List.mem_append_right _ (List.mem_singleton_self _)) (fun h => ?_) habsent)
      fun out dir₂ log₂ hrec => ?_
    · -- the answer just logged is the refusal
      rw [textRefused_concat]
      simp [textRefusedStep, h]
    · obtain ⟨retry, stats₂⟩ := out
      have howing₂ := howing₁.trans hrec.owing
      cases retry with
      | true => exact ⟨howing₂, fun h => by cases h⟩
      | false =>
        simp only [Bool.false_eq_true, if_false, Prog.wp_bind]
        refine Prog.wp_post (safe_attachTopics cfg wcId _) fun _ dir₃ log₃ htopics => ?_
        exact ⟨howing₂.trans htopics.owing, fun _ => htopics.text wcId (hrec.settled rfl)⟩

/-! ### The loops and the pass -/

/-- One turn of the first loop is allowed. -/
theorem safe_backfillOne (env : PassEnv) (entry : Int × Option Int × String) (acc : LoopState) :
    Safe cfg (backfillOne cfg env entry acc) dir log fun _ _ log' => Owing log log' := by
  simp only [Safe, backfillOne, Prog.wp_ite, Prog.wp_bind, Prog.wp_commit]
  refine ⟨fun _ => Owing.refl log, fun _ => ⟨trivial, ?_⟩⟩
  have howing : Owing log (log ++ [.touchEnrichAttempt entry.1 env.now]) :=
    (Owing.refl log).concat fun _ => rfl
  refine Prog.wp_post (safe_imageLeg cfg env _ _ _ _) fun out dir' log' h => ?_
  obtain ⟨leg, stats⟩ := out
  cases leg <;> exact howing.trans h.owing

/-- The image leg of a fresh capture is allowed, also where the capture has no token. -/
theorem safe_freshImage (env : PassEnv) (wcId : Int) (ts : Option Int) (imageToken : Option String)
    (acc : LoopState) :
    Safe cfg (freshImage cfg env wcId ts imageToken acc) dir log fun _ dir' log' =>
      Calm cfg.dim dir log dir' log' := by
  have hcalm := Calm.refl cfg.dim dir log
  simp only [Safe, freshImage, Prog.wp_ite]
  refine ⟨fun _ => hcalm, fun _ => ?_⟩
  cases imageToken with
  | none => exact safe_setState cfg (show ImageState.skipped ≠ .done by decide) _ _ _ _ hcalm
  | some token => exact safe_imageLeg cfg env wcId ts token acc.stats

/-- One turn of the second loop is allowed: the mark that the capture is processed comes after
    both legs are done with it. -/
theorem safe_freshOne (env : PassEnv) (entry : Int × Option Int × Option String)
    (acc : LoopState) :
    Safe cfg (freshOne cfg env entry acc) dir log fun _ _ log' => Owing log log' := by
  simp only [Safe, freshOne, Prog.wp_bind, Prog.wp_commit]
  refine ⟨trivial, ?_⟩
  have howing : Owing log (log ++ [.touchEnrichAttempt entry.1 env.now]) :=
    (Owing.refl log).concat fun _ => rfl
  refine Prog.wp_post (safe_textLeg cfg env _ _) fun out dir₁ log₁ htext => ?_
  obtain ⟨retry, stats₁⟩ := out
  refine Prog.wp_seq (safe_freshImage cfg env _ _ _ _) fun out dir₂ log₂ himage => ?_
  obtain ⟨leg, stats₂⟩ := out
  have howing₂ := (howing.trans htext.owing).trans himage.owing
  simp only [Prog.wp_ite, Prog.wp_bind, Prog.wp_commit]
  -- `mark_processed` is guarded by settled text work; the image leg has not disturbed it
  refine ⟨fun hfinished => ?_, fun _ => howing₂⟩
  have hretry : retry = false := by simpa using (Bool.and_eq_true_iff.mp hfinished).1
  exact ⟨himage.text _ (htext.settled hretry), howing₂.concat fun _ => rfl⟩

/-- The space a service reports for a leg. -/
def legSpace : Leg → String × String → String
  | .text => Prod.fst
  | .image => Prod.snd

/-- Does a pass that starts here requeue every capture of the leg: does the service report a
    space other than the store's, or find the leg's availability flag up? -/
def restarts (env : PassEnv) (dir : ClientDir) (leg : Leg) : Bool :=
  match env.spaces with
  | some spaces =>
      spaceMismatch (dir.index leg) (legSpace leg spaces) || flagSet env dir.ukg (flagKey leg)
  | none => false

/-- What a pass leaves when it runs to its end: no new debt, and none at all on the legs it
    restarted. -/
structure PassDone (env : PassEnv) (dir : ClientDir) (log log' : List Event) : Prop where
  owing : Owing log log'
  repaid : ∀ leg, restarts env dir leg = true → rebuilding leg log' = false

omit [TextTables] in
/-- A flag is read from the table of settings alone. -/
private theorem flagSet_congr (env : PassEnv) {u v : Ukg} {key : String}
    (h : u.getConfig key = v.getConfig key) : flagSet env u key = flagSet env v key := by
  rw [flagSet, flagSet, h]

omit [TextTables] in
/-- Once repaid, a leg stays repaid over programs that run up no debt. -/
theorem Owing.repaid {l₁ l₂ : List Event} {leg : Leg} (h : Owing l₁ l₂)
    (h₁ : rebuilding leg l₁ = false) : rebuilding leg l₂ = false := by
  by_contra hne
  rw [h leg (by simpa using hne)] at h₁
  cases h₁

/-- The whole start of a pass is allowed. -/
theorem safe_checkSpaces (env : PassEnv) :
    Safe cfg (checkSpaces cfg env) dir log fun _ _ log' => PassDone env dir log log' := by
  unfold checkSpaces Safe
  cases hspaces : env.spaces with
  | none => exact ⟨Owing.refl log, fun leg h => by simp [restarts, hspaces] at h⟩
  | some spaces =>
    obtain ⟨textSpace, imageSpace⟩ := spaces
    refine Prog.wp_seq (safe_alignSpace cfg .text textSpace) fun _ d₁ l₁ h₁ => ?_
    refine Prog.wp_seq (safe_alignSpace cfg .image imageSpace) fun _ d₂ l₂ h₂ => ?_
    refine Prog.wp_seq (safe_requeueUnavailable cfg env .text) fun _ d₃ l₃ h₃ => ?_
    refine Prog.wp_post (safe_requeueUnavailable cfg env .image) fun _ d₄ l₄ h₄ => ?_
    refine ⟨((h₁.owing.trans h₂.owing).trans h₃.owing).trans h₄.owing, fun leg hrestart => ?_⟩
    -- neither alignment touches the flags, and each requeue only its own
    have hconfig : ∀ key, d₂.ukg.getConfig key = dir.ukg.getConfig key := by
      intro key
      rw [Ukg.getConfig, h₂.config, h₁.config]
      rfl
    simp only [restarts, hspaces, Bool.or_eq_true] at hrestart
    cases leg with
    | text =>
      have hrest : Owing l₁ l₄ := (h₂.owing.trans h₃.owing).trans h₄.owing
      rcases hrestart with h | h
      · exact hrest.repaid (h₁.repaid h)
      · rw [← flagSet_congr env (hconfig _)] at h
        exact h₄.owing.repaid (h₃.repaid h)
    | image =>
      rcases hrestart with h | h
      · rw [← h₁.other .image (by decide)] at h
        exact (h₃.owing.trans h₄.owing).repaid (h₂.repaid h)
      · have hflag := (h₃.config (flagKey .image) (by decide)).trans (hconfig (flagKey .image))
        rw [← flagSet_congr env hflag] at h
        exact h₄.repaid h

/-- **The pass.**  Every write of an enrichment pass is committed where its guard holds, and a
    pass that runs to its end has requeued whatever it cleared. -/
theorem safe_enrichClient (env : PassEnv) :
    Safe cfg (enrichClient cfg env) dir log fun _ _ log' => PassDone env dir log log' := by
  unfold enrichClient Safe
  refine Prog.wp_seq (safe_openIndex cfg .text) fun _ d₁ l₁ h₁ => ?_
  refine Prog.wp_seq (safe_openIndex cfg .image) fun _ d₂ l₂ h₂ => ?_
  refine Prog.wp_seq (safe_checkSpaces cfg env) fun _ d₃ l₃ h₃ => ?_
  rw [Prog.wp_bind, Prog.wp_get]
  have hbackfill : Safe cfg (Prog.forEach (backfillOne cfg env)
      (d₃.ukg.capturesNeedingImageEmbedding batch env.now retryBackoffTicks) {}) d₃ l₃
      fun _ _ l => Owing l₃ l :=
    Prog.wp_forEach (fun entry _ acc d l h => Prog.wp_post (safe_backfillOne cfg env entry acc)
      fun _ _ _ h' => h.trans h') (Owing.refl l₃)
  refine Prog.wp_seq hbackfill fun acc d₄ l₄ h₄ => ?_
  have hfresh : Safe cfg (Prog.forEach (freshOne cfg env)
      (d₃.ukg.capturesPendingEnrichment batch env.now retryBackoffTicks) acc) d₄ l₄
      fun _ _ l => Owing l₃ l :=
    Prog.wp_forEach (fun entry _ acc d l h => Prog.wp_post (safe_freshOne cfg env entry acc)
      fun _ _ _ h' => h.trans h') h₄
  refine Prog.wp_seq hfresh fun acc d₅ l₅ h₅ => ?_
  refine ⟨((h₁.owing.trans h₂.owing).trans h₃.owing).trans h₅, fun leg hrestart => ?_⟩
  -- opening the stores has changed nothing the condition looks at
  have hsame : restarts env d₂ leg = restarts env dir leg := by
    unfold restarts
    rw [h₂.ukg, h₁.ukg]
    cases env.spaces with
    | none => rfl
    | some spaces => simp only [h₂.mismatch, h₁.mismatch]
  exact h₅.repaid (h₃.repaid leg (hsame ▸ hrestart))

end

/-! ### Histories -/

omit [TextTables] in
/-- The writes of the ingesting process are always in order: they neither clear a store nor
    record an answer. -/
theorem guard_of_ingested {client : String} {dim : Nat} {e : Event}
    (h : e.ingested client = true) (dir : ClientDir) (log : List Event) :
    Guard client dim e dir log := by
  cases e with
  | putObject clientId date token ext stored => exact beq_iff_eq.mp h
  | _ => trivial

/-- A guard that the ingesting process and every pass meet holds along every history, by
    induction on its steps. -/
theorem guarded_history {cfg : EnrichConfig} {G : Event → ClientDir → List Event → Prop}
    (hingest : ∀ e : Event, e.ingested cfg.client = true → ∀ dir log, G e dir log)
    (hpass : ∀ env dir log, (enrichClient cfg env).wp Event.apply G (fun _ _ _ => True) dir log)
    (steps : List (Step cfg)) : Guarded Event.apply G ClientDir.new (history cfg steps) := by
  induction steps using List.reverseRecOn with
  | nil => exact .nil
  | append_singleton steps step ih =>
    rw [history, List.foldl_append, List.foldl_cons, List.foldl_nil]
    cases step with
    | ingest events =>
      refine ih.append fun e he => ?_
      obtain ⟨⟨e, hingested⟩, -, rfl⟩ := List.mem_map.mp he
      exact hingest e hingested
    | pass env budget => exact (Prog.run_guarded budget ih (hpass env _ _)).1

/-- **Every log of a history is guarded**, however its passes were interrupted: each prefix of a
    guarded log is one. -/
theorem history_guarded (cfg : EnrichConfig) (steps : List (Step cfg)) :
    Guarded Event.apply (Guard cfg.client cfg.dim) ClientDir.new (history cfg steps) :=
  guarded_history (fun _ => guard_of_ingested)
    (fun env _ _ => Prog.wp_post (safe_enrichClient cfg env) fun _ _ _ _ => trivial) steps

/-- What a pass leaves is the replay of its log, so statements about logs say all there is about
    stores. -/
theorem runPass_store (cfg : EnrichConfig) (env : PassEnv) (budget : Nat) (log : List Event) :
    (runPass cfg env budget log).store = ClientDir.after (runPass cfg env budget log).log :=
  Prog.run_store (enrichClient cfg env) budget

/-- The log of a pass that continues a history is guarded, and a pass that runs to its end has
    requeued whatever it cleared. -/
theorem runPass_done (cfg : EnrichConfig) (steps : List (Step cfg)) (env : PassEnv) (budget : Nat) :
    let out := runPass cfg env budget (history cfg steps)
    Guarded Event.apply (Guard cfg.client cfg.dim) ClientDir.new out.log ∧
      ∀ stats, out.value = some stats →
        PassDone env (ClientDir.after (history cfg steps)) (history cfg steps) out.log :=
  Prog.run_guarded budget (history_guarded cfg steps) (safe_enrichClient cfg env)

end Precall.Api
