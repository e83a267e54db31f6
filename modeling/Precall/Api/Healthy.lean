import Precall.Api.Fairness
import Precall.Api.Guards

namespace Precall.Api

open ByteLib TextLib TableLib Durable Precall.Proto Precall.Store

/-!
# Passes while the service is healthy

A healthy service reports its spaces, answers every call in them or refuses the input, and every
file and flag can be read.  Over stores that carry its labels (`Steady`) nothing is rebuilt or
requeued: a pass works on single captures only.

* `work` — the writes about one capture; `Steady.apply`, `view_apply` — what they leave alone;
* `healthy_imageLeg`, `healthy_textLeg` — how the two legs of one capture end;
* `Served` — a capture has been attempted and has left both queues, or its object is missing;
* `served_backfillOne`, `served_freshOne` — one turn of either loop serves its capture.
-/

/-! ### The service and the stores -/

/-- What a healthy service answers: a vector of the space it reports, or a refusal. -/
def Answers (space : String) : EmbedOutcome → Prop
  | .ok _ s => s = space
  | .rejected => True
  | .disabled | .retry => False

/-- The environment of a pass while the service is up and everything can be read: spaces
    reported, calls answered, files and flags readable. -/
structure Healthy (spaces : String × String) (env : PassEnv) : Prop where
  reported : env.spaces = some spaces
  text : ∀ wcId text, Answers spaces.1 (env.embedText wcId text)
  image : ∀ wcId jpeg, Answers spaces.2 (env.embedImage wcId jpeg)
  flag : ∀ key, env.flagReadFails key = false
  stat : ∀ path, env.statFails path = false
  read : ∀ path, env.readFails path = false

/-- Both stores carry the reported labels, and no leg is recorded as unavailable, so a pass has
    nothing to put right first. -/
structure Steady (spaces : String × String) (dir : ClientDir) : Prop where
  label : ∀ leg, (dir.index leg).spaceId = some (legSpace leg spaces)
  available : ∀ leg, dir.ukg.getConfig (flagKey leg) ≠ some "1"

/-- The writes of one leg of one capture over such stores: no rebuild is among them, and no label
    but the one that is there. -/
def legWork (spaces : String × String) (wcId : Int) : Event → Bool
  | .embedded _ id _ | .attachTopic id _ _ | .setImageEmbeddingState id _ _ _ _ => id == wcId
  | .insertVector _ _ _ => true
  | .setSpaceId leg _ space => space == legSpace leg spaces
  | _ => false

/-- The writes of one turn of a loop: the attempt, the legs, and the processed mark. -/
def work (spaces : String × String) (wcId : Int) : Event → Bool
  | .touchEnrichAttempt id _ | .markProcessed id => id == wcId
  | e => legWork spaces wcId e

/-- What a leg does for a capture is work on it. -/
theorem work_of_legWork {spaces : String × String} {wcId : Int} {e : Event}
    (h : legWork spaces wcId e = true) : work spaces wcId e = true := by
  cases e <;> first | exact h | cases h

/-- What the two queues see of a capture: its row, its image state and its clock.  They select by
    nothing else. -/
def view (dir : ClientDir) (wcId : Int) :
    Option WindowCaptureRow × Option ImageEmbedding × Option Int :=
  (dir.ukg.windowCapture.get? wcId, dir.ukg.imageEmbedding.lookup wcId,
    dir.ukg.enrichAttempt.lookup wcId)

/-! ### What the work on one capture leaves alone -/

section
variable [TextTables] {spaces : String × String} {wcId : Int} {e : Event} {dir : ClientDir}

/-- Work on a capture sets no flag and moves no label, so the stores stay steady while the loops
    run. -/
theorem Steady.apply (h : Steady spaces dir) (he : work spaces wcId e = true) :
    Steady spaces (e.apply dir) := by
  constructor
  · intro leg
    cases htarget : e.targets leg with
    | false =>
      rw [Event.index_apply htarget]
      exact h.label leg
    | true =>
      cases e with
      | setSpaceId leg' dim space =>
        obtain rfl := beq_iff_eq.mp htarget
        obtain rfl : space = legSpace leg' spaces := beq_iff_eq.mp he
        simp only [Event.apply, ClientDir.index_setIndex, SiDb.spaceId_setSpaceId]
      | insertVector leg' item embedding =>
        obtain rfl := beq_iff_eq.mp htarget
        simp only [Event.apply, ClientDir.index_setIndex, SiDb.spaceId_insertRows]
        exact h.label leg'
      | ensureInfo l d s => cases he
      | clearMetadata l => cases he
      | clearGraph l => cases he
      | clearItems l => cases he
      | _ => cases htarget
  · intro leg
    have hkey : ∀ value, e ≠ .setConfig (flagKey leg) value := by
      rintro value rfl
      cases he
    rw [Event.getConfig_apply hkey]
    exact h.available leg

/-- Work on a capture stores no object. -/
theorem files_work (he : work spaces wcId e = true) : (e.apply dir).files = dir.files := by
  rcases Event.files_apply e dir with ⟨clientId, date, token, ext, stored, rfl⟩ | h
  · cases he
  · exact h

omit [TextTables] in
/-- Marking one capture leaves the rows of the others. -/
theorem get?_markProcessed (ukg : Ukg) (id other : Int) :
    (ukg.markProcessed id).windowCapture.get? other
      = (ukg.windowCapture.get? other).map fun w =>
          if other = id then { w with isProcessed := true } else w := by
  cases hget : ukg.windowCapture.get? other with
  | none =>
    have hnone : ¬ ((ukg.markProcessed id).windowCapture.get? other).isSome = true := by
      intro hsome
      obtain ⟨w, hw⟩ := Option.isSome_iff_exists.mp hsome
      obtain ⟨v, hv, -⟩ := Table.mem_update.mp (Table.get?_eq_some.mp hw)
      rw [Table.get?_eq_some.mpr hv] at hget
      cases hget
    exact Option.not_isSome_iff_eq_none.mp hnone
  | some w =>
    rw [Option.map_some, Table.get?_eq_some]
    exact Table.mem_update.mpr ⟨w, Table.get?_eq_some.mp hget, rfl⟩

/-- Work on a capture leaves the view of every other. -/
theorem view_apply {other : Int} (he : work spaces wcId e = true) (hne : other ≠ wcId) :
    view (e.apply dir) other = view dir other := by
  cases e with
  | touchEnrichAttempt id now =>
    obtain rfl : id = wcId := beq_iff_eq.mp he
    show (_, _, (dir.ukg.enrichAttempt.insert id now).lookup other) = _
    rw [AList.lookup_insert_ne hne]
    rfl
  | markProcessed id =>
    obtain rfl : id = wcId := beq_iff_eq.mp he
    have hrow : (dir.ukg.markProcessed id).windowCapture.get? other
        = dir.ukg.windowCapture.get? other := by
      rw [get?_markProcessed]
      cases dir.ukg.windowCapture.get? other with
      | none => rfl
      | some w => rw [Option.map_some, if_neg hne]
    show ((dir.ukg.markProcessed id).windowCapture.get? other, _, _) = _
    rw [hrow]
    rfl
  | setImageEmbeddingState id state attempts err now =>
    obtain rfl : id = wcId := beq_iff_eq.mp he
    show (_, (dir.ukg.imageEmbedding.insert id _).lookup other, _) = _
    rw [AList.lookup_insert_ne hne]
    rfl
  | attachTopic id title score => rfl
  | embedded leg id outcome => rfl
  | insertVector leg item embedding =>
    simp only [view, Event.apply, ClientDir.ukg_setIndex]
  | setSpaceId leg dim space =>
    simp only [view, Event.apply, ClientDir.ukg_setIndex]
  | _ => cases he

end

/-! ### The two legs of one capture -/

/-- Is the object of a capture there, as a JPEG or as a raw frame? -/
def hasObject [TextTables] (cfg : EnrichConfig) (files : Files) (ts : Int) (token : String) :
    Bool :=
  ObjectStore.exists files (keyPath cfg.client (ymdFromFiletime ts) token "jpg") ||
    ObjectStore.exists files (keyPath cfg.client (ymdFromFiletime ts) token "raw")

section
variable [TextTables] {cfg : EnrichConfig} {spaces : String × String} {env : PassEnv}
  {dir : ClientDir} {log : List Event}

/-- Setting the label of a steady store changes nothing. -/
theorem Steady.setSpaceId_apply (h : Steady spaces dir) (leg : Leg) (dim : Nat) :
    (Event.setSpaceId leg dim (legSpace leg spaces)).apply dir = dir := by
  show dir.setIndex leg ((dir.index leg).setSpaceId dim (legSpace leg spaces)) = dir
  rw [SiDb.setSpaceId_same (h.label leg)]
  cases leg <;> rfl

omit [TextTables] in
/-- Over steady stores the label of each leg is the space the service reports. -/
theorem Steady.spaceMismatch_eq (h : Steady spaces dir) (leg : Leg) :
    spaceMismatch (dir.index leg) (legSpace leg spaces) = false := by
  simp [spaceMismatch, h.label leg]

/-- Aligning a steady store commits its label once more. -/
theorem Steady.wp_alignSpace (h : Steady spaces dir) (leg : Leg)
    {G : Event → ClientDir → List Event → Prop} {Q : Unit → ClientDir → List Event → Prop} :
    (alignSpace cfg leg (legSpace leg spaces)).wp Event.apply G Q dir log ↔
      G (.setSpaceId leg cfg.dim (legSpace leg spaces)) dir log ∧
        Q () dir (log ++ [.setSpaceId leg cfg.dim (legSpace leg spaces)]) := by
  simp only [alignSpace, Prog.wp_bind, Prog.wp_get, h.spaceMismatch_eq leg, Bool.false_eq_true,
    if_false, Prog.wp_commit, h.setSpaceId_apply leg]

omit [TextTables] in
/-- A recorded state says whether the image leg still owes a vector. -/
theorem imageStateOpen_setState (ukg : Ukg) (wcId : Int) (state : ImageState) (attempts : Int)
    (lastError : Option String) (now : Int) :
    (ukg.setImageEmbeddingState wcId state attempts lastError now).imageStateOpen wcId
      = (state == ImageState.pending) := by
  simp only [Ukg.imageStateOpen, Ukg.setImageEmbeddingState, AList.lookup_insert]

/-- How the image leg of a capture ends: its work is recorded, or its object is missing and the
    leg asks for a retry. -/
structure ImageEnd (cfg : EnrichConfig) (wcId ts : Int) (token : String) (files : Files)
    (leg : ImageLeg) (dir' : ClientDir) : Prop where
  answered : leg ≠ .unavailable
  missing : leg = .retry → hasObject cfg files ts token = false
  closed : leg ≠ .retry → dir'.ukg.imageStateOpen wcId = false

/-- A verdict just recorded. -/
theorem ImageEnd.of_setState {wcId ts : Int} {token : String} {files : Files} {leg : ImageLeg}
    {state : ImageState} (hleg : leg = .done ∨ leg = .terminal) (hstate : state ≠ .pending)
    (attempts : Int) (lastError : Option String) (now : Int) :
    ImageEnd cfg wcId ts token files leg
      ((Event.setImageEmbeddingState wcId state attempts lastError now).apply dir) := by
  refine ⟨?_, ?_, fun _ => ?_⟩
  · rcases hleg with rfl | rfl <;> decide
  · rintro rfl
    rcases hleg with h | h <;> cases h
  · show (dir.ukg.setImageEmbeddingState wcId state attempts lastError now).imageStateOpen wcId = _
    rw [imageStateOpen_setState, beq_eq_false_iff_ne]
    exact hstate

/-- A verdict recorded earlier. -/
theorem ImageEnd.of_prior {wcId ts : Int} {token : String} {files : Files} {leg : ImageLeg}
    {state : ImageState} (hleg : leg = .done ∨ leg = .terminal) (hstate : state ≠ .pending)
    (hprior : (dir.ukg.imageEmbeddingState wcId).map Prod.fst = some state) :
    ImageEnd cfg wcId ts token files leg dir := by
  refine ⟨?_, ?_, fun _ => ?_⟩
  · rcases hleg with rfl | rfl <;> decide
  · rintro rfl
    rcases hleg with h | h <;> cases h
  · rw [Ukg.imageEmbeddingState] at hprior
    unfold Ukg.imageStateOpen
    cases hrow : dir.ukg.imageEmbedding.lookup wcId with
    | none =>
      rw [hrow] at hprior
      cases hprior
    | some row =>
      rw [hrow] at hprior
      obtain rfl : row.state = state := Option.some.inj hprior
      exact beq_eq_false_iff_ne.mpr hstate

/-- A file that is there is read, or is no ciphertext of the store's; nothing else can go wrong
    with a healthy disk. -/
theorem get_of_exists {files : Files} {date : Int × Nat × Nat} {token ext : String} (id : Uuid)
    (hclient : cfg.client = id.text)
    (hexists : ObjectStore.exists files (keyPath cfg.client date token ext) = true) :
    (∃ bytes, cfg.objects.get files false cfg.client (keyPath cfg.client date token ext) token
        = .ok bytes) ∨
      ∃ e, cfg.objects.get files false cfg.client (keyPath cfg.client date token ext) token
        = .error (.crypto e) := by
  have hprefix : clientPath cfg.client <+: keyPath cfg.client date token ext := by
    rw [hclient]
    exact keyPath_client id date token ext
  obtain ⟨raw, hraw⟩ := Option.isSome_iff_exists.mp hexists
  unfold ObjectStore.get
  rw [if_neg (not_not_intro hprefix), if_neg (by decide), hraw]
  cases cfg.objects.cipher with
  | none => exact Or.inl ⟨raw, rfl⟩
  | some c =>
    dsimp only
    cases c.open (ObjectStore.utf8 token) raw with
    | ok bytes => exact Or.inl ⟨bytes, rfl⟩
    | error e => exact Or.inr ⟨e, rfl⟩

/-- Finding and reading the object: the bytes, a verdict, or a retry for want of the object. -/
theorem healthy_readJpeg (id : Uuid) (hclient : cfg.client = id.text) (henv : Healthy spaces env)
    (wcId ts : Int) (token : String) (attempts : Int) (stats : EnrichStats) :
    (readJpeg cfg env wcId ts token attempts stats).wp Event.apply
      (fun e _ _ => legWork spaces wcId e = true)
      (fun out dir' _ => match out.1 with
        | .settled leg => ImageEnd cfg wcId ts token dir.files leg dir'
        | .embed _ _ => dir' = dir) dir log := by
  have hwork : ∀ state n err now, legWork spaces wcId (.setImageEmbeddingState wcId state n err now)
      = true := fun _ _ _ _ => beq_self_eq_true wcId
  have hvisible : ∀ path, visible env dir.files path = ObjectStore.exists dir.files path := by
    intro path
    simp [visible, henv.stat path]
  simp only [readJpeg, setState, Prog.wp_bind, Prog.wp_get, Prog.wp_ite, Prog.wp_commit,
    Prog.wp_pure, hvisible, henv.read]
  refine ⟨fun hjpg => ⟨fun _ => ⟨hwork _ _ _ _, ?_⟩, fun hraw => ⟨hwork _ _ _ _, ?_⟩⟩,
    fun hjpg => ?_⟩
  · exact ImageEnd.of_setState (Or.inr rfl) (by decide) _ _ _
  · -- neither file is there
    refine ⟨by decide, fun _ => ?_, fun hne => absurd rfl hne⟩
    rw [hasObject, Bool.or_eq_false_iff]
    exact ⟨by simpa using hjpg, Bool.eq_false_iff.mpr hraw⟩
  · have hexists : ObjectStore.exists dir.files
        (keyPath cfg.client (ymdFromFiletime ts) token "jpg") = true := by simpa using hjpg
    rcases get_of_exists id hclient hexists with ⟨bytes, hget⟩ | ⟨e, hget⟩
    · rw [hget]
      rfl
    · rw [hget]
      exact ⟨hwork _ _ _ _, ImageEnd.of_setState (Or.inr rfl) (by decide) _ _ _⟩

/-- What the embedder's answer leads to. -/
theorem healthy_imageRecord (h : Steady spaces dir) (wcId ts : Int) (token : String) (files : Files)
    (attempts : Int) {outcome : EmbedOutcome} (houtcome : Answers spaces.2 outcome)
    (stats : EnrichStats) :
    (imageRecord cfg env wcId attempts outcome stats).wp Event.apply
      (fun e _ _ => legWork spaces wcId e = true)
      (fun out dir' _ => ImageEnd cfg wcId ts token files out.1 dir') dir log := by
  have hwork : ∀ state n err now, legWork spaces wcId (.setImageEmbeddingState wcId state n err now)
      = true := fun _ _ _ _ => beq_self_eq_true wcId
  unfold imageRecord
  cases outcome with
  | disabled => exact houtcome.elim
  | retry => exact houtcome.elim
  | rejected =>
    exact ⟨hwork _ _ _ _, ImageEnd.of_setState (Or.inr rfl) (by decide) _ _ _⟩
  | ok embedding space =>
    obtain rfl : space = legSpace .image spaces := houtcome
    simp only [setState, Prog.wp_ite, Prog.wp_bind, Prog.wp_commit, Prog.wp_pure,
      h.wp_alignSpace .image]
    refine ⟨fun _ => ⟨hwork _ _ _ _, ?_⟩, fun _ => ⟨beq_self_eq_true _, rfl, hwork _ _ _ _, ?_⟩⟩
    · exact ImageEnd.of_setState (Or.inr rfl) (by decide) _ _ _
    · exact ImageEnd.of_setState (Or.inl rfl) (by decide) _ _ _

/-- **The image leg ends.**  It records a verdict, unless the object of the capture is missing. -/
theorem healthy_imageLeg (id : Uuid) (hclient : cfg.client = id.text) (henv : Healthy spaces env)
    (h : Steady spaces dir) (wcId ts : Int) (token : String) (stats : EnrichStats) :
    (imageLeg cfg env wcId (some ts) token stats).wp Event.apply
      (fun e _ _ => legWork spaces wcId e = true)
      (fun out dir' _ => ImageEnd cfg wcId ts token dir.files out.1 dir') dir log := by
  have hstep : (imageStep cfg env wcId (some ts) token stats).wp Event.apply
      (fun e _ _ => legWork spaces wcId e = true)
      (fun out dir' _ => match out.1 with
        | .settled leg => ImageEnd cfg wcId ts token dir.files leg dir'
        | .embed _ _ => dir' = dir) dir log := by
    simp only [imageStep, setState, Prog.wp_bind, Prog.wp_get, Prog.wp_ite, Prog.wp_commit,
      Prog.wp_pure]
    refine ⟨fun _ => ⟨fun hdone => ?_, fun _ => ⟨beq_self_eq_true wcId, ?_⟩⟩,
      fun _ => ⟨fun hskipped => ?_, fun _ => ?_⟩⟩
    · exact ImageEnd.of_prior (Or.inl rfl) (by decide) hdone
    · exact ImageEnd.of_setState (Or.inl rfl) (by decide) _ _ _
    · exact ImageEnd.of_prior (Or.inr rfl) (by decide) hskipped
    · exact healthy_readJpeg id hclient henv wcId ts token _ stats
  refine Prog.wp_seq hstep fun out dir' log' hout => ?_
  obtain ⟨step, stats'⟩ := out
  cases step with
  | settled leg => exact hout
  | embed jpeg attempts =>
    obtain rfl : dir' = dir := hout
    refine ⟨beq_self_eq_true wcId, ?_⟩
    exact healthy_imageRecord h wcId ts token _ attempts (henv.image wcId jpeg) stats'

/-- **The text leg ends**: a healthy service answers or refuses, so there is nothing to retry. -/
theorem healthy_textLeg (henv : Healthy spaces env) (h : Steady spaces dir) (wcId : Int)
    (stats : EnrichStats) :
    (textLeg cfg env wcId stats).wp Event.apply (fun e _ _ => legWork spaces wcId e = true)
      (fun out _ _ => out.1 = false) dir log := by
  simp only [textLeg, Prog.wp_bind, Prog.wp_get, Prog.wp_ite, Prog.wp_commit, Prog.wp_pure]
  refine ⟨fun _ => trivial, fun _ => ⟨beq_self_eq_true wcId, ?_⟩⟩
  have hrecord : (textRecord cfg wcId (env.embedText wcId (ocrText dir.ukg wcId)) stats).wp
      Event.apply (fun e _ _ => legWork spaces wcId e = true) (fun out _ _ => out.1 = false) dir
      (log ++ [.embedded .text wcId (env.embedText wcId (ocrText dir.ukg wcId))]) := by
    have houtcome := henv.text wcId (ocrText dir.ukg wcId)
    generalize env.embedText wcId (ocrText dir.ukg wcId) = outcome at houtcome ⊢
    cases outcome with
    | disabled => exact houtcome.elim
    | retry => exact houtcome.elim
    | rejected => exact rfl
    | ok embedding space =>
      obtain rfl : space = legSpace .text spaces := houtcome
      simp only [textRecord, Prog.wp_ite, Prog.wp_bind, Prog.wp_commit, Prog.wp_pure,
        h.wp_alignSpace .text]
      exact ⟨fun _ => trivial, fun _ => ⟨beq_self_eq_true _, rfl, trivial⟩⟩
  refine Prog.wp_post hrecord fun out dir' log' hout => ?_
  obtain ⟨retry, stats'⟩ := out
  obtain rfl : retry = false := hout
  simp only [Bool.false_eq_true, if_false, Prog.wp_bind, attachTopics]
  have htopic : ∀ t : String × F64, legWork spaces wcId (.attachTopic wcId t.1 t.2) = true :=
    fun _ => beq_self_eq_true wcId
  refine Prog.wp_post (Prog.wp_forEach (J := fun _ _ _ => True)
    (fun t _ _ _ _ _ => ⟨htopic t, trivial⟩) trivial) ?_
  exact fun _ _ _ _ => rfl

end

/-! ### One turn of a loop -/

/-- A capture needs nothing more, or its object is missing; in either case no pass can do more
    for it now. -/
def Rests [TextTables] (cfg : EnrichConfig) (dir : ClientDir) (wcId : Int) : Prop :=
  ∃ w, dir.ukg.windowCapture.get? wcId = some w ∧
    ((w.isProcessed = true ∧ dir.ukg.imageStateOpen wcId = false) ∨
      ∃ token, w.imageToken = some token ∧ hasObject cfg dir.files w.timeStamp token = false)

/-- A capture has been attempted at `now` and rests. -/
structure Served [TextTables] (cfg : EnrichConfig) (now : Int) (dir : ClientDir) (wcId : Int) :
    Prop where
  clock : dir.ukg.enrichAttempt.lookup wcId = some now
  rests : Rests cfg dir wcId

section
variable [TextTables] {cfg : EnrichConfig} {spaces : String × String} {env : PassEnv}
  {dir dir' : ClientDir} {log : List Event} {wcId : Int}

/-- Rest is a matter of the capture's view and of the files. -/
theorem Rests.congr (h : Rests cfg dir wcId) (hview : view dir' wcId = view dir wcId)
    (hfiles : dir'.files = dir.files) : Rests cfg dir' wcId := by
  obtain ⟨w, hget, hrest⟩ := h
  simp only [view, Prod.mk.injEq] at hview
  obtain ⟨hrow, hstate, -⟩ := hview
  refine ⟨w, hrow.trans hget, ?_⟩
  unfold Ukg.imageStateOpen at hrest ⊢
  rw [hstate, hfiles]
  exact hrest

/-- Whether a capture is served depends on its own rows, its vectors and the objects. -/
theorem Served.congr {now : Int} (h : Served cfg now dir wcId)
    (hview : view dir' wcId = view dir wcId) (hfiles : dir'.files = dir.files) :
    Served cfg now dir' wcId := by
  refine ⟨?_, h.rests.congr hview hfiles⟩
  simp only [view, Prod.mk.injEq] at hview
  exact hview.2.2.trans h.clock

/-- What the legs of a capture leave: every row, every clock and every file of the directory. -/
structure SameRows (dir dir' : ClientDir) : Prop where
  rows : dir'.ukg.windowCapture = dir.ukg.windowCapture
  clock : dir'.ukg.enrichAttempt = dir.ukg.enrichAttempt
  files : dir'.files = dir.files

/-- What the legs write leaves the rows of captures and regions as they are. -/
theorem sameRows_replay {ws : List Event} (hws : ∀ e ∈ ws, legWork spaces wcId e = true) :
    SameRows dir (replay Event.apply dir ws) := by
  induction ws using List.reverseRecOn with
  | nil => exact ⟨rfl, rfl, rfl⟩
  | append_singleton ws e ih =>
    have hinit := ih fun v hv => hws v (List.mem_append_left _ hv)
    have he : legWork spaces wcId e = true :=
      hws e (List.mem_append_right _ (List.mem_singleton_self e))
    rw [replay_concat]
    refine ⟨?_, ?_, (files_work (work_of_legWork he)).trans hinit.files⟩
    · rw [Event.windowCapture_apply, hinit.rows]
      · rintro rec rfl
        cases he
      · rintro id rfl
        cases he
      · rintro rfl
        cases he
    · rw [enrichAttempt_apply, hinit.clock]
      cases e <;> first | rfl | cases he

/-- Work leaves steady stores steady. -/
theorem steady_replay (h : Steady spaces dir) {ws : List Event}
    (hws : ∀ e ∈ ws, work spaces wcId e = true) : Steady spaces (replay Event.apply dir ws) := by
  induction ws using List.reverseRecOn with
  | nil => exact h
  | append_singleton ws e ih =>
    rw [replay_concat]
    have he : work spaces wcId e = true :=
      hws e (List.mem_append_right _ (List.mem_singleton_self e))
    exact (ih fun v hv => hws v (List.mem_append_left _ hv)).apply he

/-- The work on a capture, however much of it, leaves every other capture and the files. -/
theorem view_replay {ws : List Event} (hws : ∀ e ∈ ws, work spaces wcId e = true) :
    (replay Event.apply dir ws).files = dir.files ∧
      ∀ other, other ≠ wcId → view (replay Event.apply dir ws) other = view dir other := by
  induction ws using List.reverseRecOn with
  | nil => exact ⟨rfl, fun _ _ => rfl⟩
  | append_singleton ws e ih =>
    obtain ⟨hfiles, hview⟩ := ih fun v hv => hws v (List.mem_append_left _ hv)
    have he : work spaces wcId e = true :=
      hws e (List.mem_append_right _ (List.mem_singleton_self e))
    rw [replay_concat]
    refine ⟨(files_work he).trans hfiles, fun other hne => ?_⟩
    exact (view_apply he hne).trans (hview other hne)

/-- The attempt on a capture is recorded, and nothing else changes. -/
theorem touch_apply (now : Int) (dir : ClientDir) :
    ((Event.touchEnrichAttempt wcId now).apply dir).ukg.enrichAttempt.lookup wcId = some now :=
  AList.lookup_insert dir.ukg.enrichAttempt

/-- **One capture of the backfill queue is served**: attempted, and afterwards at rest. -/
theorem served_backfillOne (id : Uuid) (hclient : cfg.client = id.text)
    (henv : Healthy spaces env) (h : Steady spaces dir) {entry : Int × Option Int × String}
    {w : WindowCaptureRow} (hget : dir.ukg.windowCapture.get? entry.1 = some w)
    (hprocessed : w.isProcessed = true) (hts : entry.2.1 = some w.timeStamp)
    (htoken : w.imageToken = some entry.2.2) {acc : LoopState} (hgo : acc.stopImages = false) :
    (backfillOne cfg env entry acc).wp Event.apply (fun e _ _ => work spaces entry.1 e = true)
      (fun acc' dir' _ => acc'.stopImages = false ∧ Served cfg env.now dir' entry.1) dir log := by
  obtain ⟨wcId, ts, token⟩ := entry
  obtain rfl : ts = some w.timeStamp := hts
  have htouch : work spaces wcId (.touchEnrichAttempt wcId env.now) = true := beq_self_eq_true wcId
  unfold backfillOne
  rw [hgo, if_neg (by decide)]
  simp only [Prog.wp_bind, Prog.wp_commit]
  refine ⟨htouch, ?_⟩
  have h₁ := h.apply htouch
  refine Prog.wp_mono (Prog.wp_appends (healthy_imageLeg id hclient henv h₁ wcId w.timeStamp token
    acc.stats)) (fun _ _ _ => work_of_legWork) ?_
  rintro ⟨leg, stats⟩ dir' log' ⟨hend, ws, -, rfl, hws⟩
  have hsame : SameRows ((Event.touchEnrichAttempt wcId env.now).apply dir) _ :=
    sameRows_replay hws
  have hserved : Served cfg env.now (replay Event.apply
      ((Event.touchEnrichAttempt wcId env.now).apply dir) ws) wcId := by
    refine ⟨by rw [hsame.clock]; exact touch_apply env.now dir, w, ?_, ?_⟩
    · rw [hsame.rows]
      exact hget
    · by_cases hretry : leg = .retry
      · refine Or.inr ⟨token, htoken, ?_⟩
        rw [hsame.files]
        exact hend.missing hretry
      · exact Or.inl ⟨hprocessed, hend.closed hretry⟩
  cases leg with
  | unavailable => exact absurd rfl hend.answered
  | done => exact ⟨rfl, hserved⟩
  | terminal => exact ⟨rfl, hserved⟩
  | retry => exact ⟨rfl, hserved⟩

/-- The image leg of a capture of the fresh queue, or the verdict on one without a token: only a
    missing object is tried again, and whatever else comes of it closes the leg. -/
theorem healthy_freshImage (id : Uuid) (hclient : cfg.client = id.text)
    (henv : Healthy spaces env) (h : Steady spaces dir) (wcId ts : Int) (token : Option String)
    (acc : LoopState) (hgo : acc.stopImages = false) :
    (freshImage cfg env wcId (some ts) token acc).wp Event.apply
      (fun e _ _ => legWork spaces wcId e = true)
      (fun out dir' _ => out.1 ≠ .unavailable ∧
        (out.1 = .retry → ∃ t, token = some t ∧ hasObject cfg dir.files ts t = false) ∧
        (out.1 ≠ .retry → dir'.ukg.imageStateOpen wcId = false)) dir log := by
  unfold freshImage
  rw [if_neg (by rw [hgo]; decide)]
  cases token with
  | none =>
    have hend : ImageEnd cfg wcId 0 "" dir.files .terminal ((Event.setImageEmbeddingState wcId
        .skipped 1 (some "no image token") env.now).apply dir) :=
      ImageEnd.of_setState (Or.inr rfl) (by decide) _ _ _
    exact ⟨beq_self_eq_true wcId, hend.answered, (fun hretry => by cases hretry), hend.closed⟩
  | some t =>
    refine Prog.wp_post (healthy_imageLeg id hclient henv h wcId ts t acc.stats) ?_
    exact fun out dir' _ hend => ⟨hend.answered, fun hr => ⟨t, rfl, hend.missing hr⟩, hend.closed⟩

/-- **One capture of the fresh queue is served**: attempted, and marked as processed unless its
    object is missing. -/
theorem served_freshOne (id : Uuid) (hclient : cfg.client = id.text)
    (henv : Healthy spaces env) (h : Steady spaces dir)
    {entry : Int × Option Int × Option String} {w : WindowCaptureRow}
    (hget : dir.ukg.windowCapture.get? entry.1 = some w)
    (hts : entry.2.1 = some w.timeStamp) (htoken : w.imageToken = entry.2.2) {acc : LoopState}
    (hgo : acc.stopImages = false) :
    (freshOne cfg env entry acc).wp Event.apply (fun e _ _ => work spaces entry.1 e = true)
      (fun acc' dir' _ => acc'.stopImages = false ∧ Served cfg env.now dir' entry.1) dir log := by
  obtain ⟨wcId, ts, token⟩ := entry
  obtain rfl : ts = some w.timeStamp := hts
  have htouch : work spaces wcId (.touchEnrichAttempt wcId env.now) = true := beq_self_eq_true wcId
  simp only [freshOne, Prog.wp_bind, Prog.wp_commit]
  refine ⟨htouch, ?_⟩
  have h₁ := h.apply htouch
  refine Prog.wp_mono (Prog.wp_appends (healthy_textLeg henv h₁ wcId acc.stats))
    (fun _ _ _ => work_of_legWork) ?_
  rintro ⟨retry, stats⟩ dir₁ log₁ ⟨hretry, ws₁, -, rfl, hws₁⟩
  obtain rfl : retry = false := hretry
  have hsame₁ : SameRows ((Event.touchEnrichAttempt wcId env.now).apply dir) _ :=
    sameRows_replay hws₁
  have h₂ := steady_replay h₁ fun e he => work_of_legWork (hws₁ e he)
  generalize replay Event.apply ((Event.touchEnrichAttempt wcId env.now).apply dir) ws₁ = dir₁
    at hsame₁ h₂ ⊢
  rw [Prog.wp_bind]
  refine Prog.wp_mono (Prog.wp_appends (healthy_freshImage id hclient henv h₂ wcId w.timeStamp token
    { acc with stats := stats } hgo)) (fun _ _ _ => work_of_legWork) ?_
  rintro ⟨leg, stats'⟩ dir₂ log₂ ⟨⟨hanswered, hmissing, hclosed⟩, ws₂, -, rfl, hws₂⟩
  have hsame₂ : SameRows dir₁ _ := sameRows_replay hws₂
  generalize replay Event.apply dir₁ ws₂ = dir₂ at hsame₂ hclosed ⊢
  have hrow : dir₂.ukg.windowCapture.get? wcId = some w := by
    rw [hsame₂.rows, hsame₁.rows]
    exact hget
  have hclock : dir₂.ukg.enrichAttempt.lookup wcId = some env.now := by
    rw [hsame₂.clock, hsame₁.clock]
    exact touch_apply env.now dir
  have hstop : (acc.stopImages || leg == .unavailable) = false := by
    rw [hgo, Bool.false_or, beq_eq_false_iff_ne]
    exact hanswered
  simp only [Prog.wp_ite, Prog.wp_bind, Prog.wp_commit, Prog.wp_pure]
  refine ⟨fun hfinished => ⟨beq_self_eq_true wcId, hstop, hclock, ?_⟩,
    fun hunfinished => ⟨hstop, hclock, ?_⟩⟩
  · -- both legs are through: the capture is marked
    have hne : leg ≠ .retry := by simpa using hfinished
    refine ⟨{ w with isProcessed := true }, ?_, Or.inl ⟨rfl, hclosed hne⟩⟩
    show (dir₂.ukg.markProcessed wcId).windowCapture.get? wcId = _
    rw [get?_markProcessed, hrow, Option.map_some, if_pos rfl]
  · have hleg : leg = .retry := by simpa using hunfinished
    obtain ⟨t, rfl, hgone⟩ := hmissing hleg
    refine ⟨w, hrow, Or.inr ⟨t, htoken, ?_⟩⟩
    rw [hsame₂.files]
    exact hgone

end

end Precall.Api
