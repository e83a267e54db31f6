import Precall.Api.Verdicts

namespace Precall.Api

open ByteLib TextLib Durable Precall.Store

/-!
# Images that cannot be decoded

The image route of the AI service, what the API makes of its replies, and what becomes of a capture
whose screenshot the service's decoder cannot read.

* `embedImageRoute` — `embed_image` of `precall_ai/server.py`, an exception being status 500;
* `Embedder.embedImage` — `embed_image` of `precall-api/src/embed.rs`, over whatever comes back;
* `CallGuard` — what a pass hands to the embedder, and what it writes right after the answer;
* `undecodable_settles_iff` — an undecodable object settles its capture just when it is empty.
-/

/-! ### The service -/

/-- The CLIP encoder: the image decoder, `none` where it raises, and the model behind it. -/
structure Clip (Image : Type) where
  decode : Bytes → Option Image
  features : Image → List F32

/-- `ImageEmbedder` — the CLIP encoder where it is installed, and the content hash that stands in
    for it. -/
structure ImageEmbedder (Image : Type) where
  model : Option (Clip Image)
  hashEmbeddingBytes : Bytes → List F32

/-- A reply that reached the caller: its status, and its body where that is an embedding, with
    the space it names. -/
structure HttpReply where
  status : Nat
  body : Option (List F32 × Option String)
  deriving DecidableEq

section
variable {Image : Type}

/-- `space_id` — the identity of the vector space, which tells the encoder's vectors from those
    of the hash. -/
def ImageEmbedder.spaceId (embedder : ImageEmbedder Image) : String :=
  if embedder.model.isSome then "clip:openai/clip-vit-base-patch32@384"
  else "hash:python-image@384"

/-- `embed`; `none` where it raises, which only the encoder's decoder does. -/
def ImageEmbedder.embed (embedder : ImageEmbedder Image) (jpeg : Bytes) : Option (List F32) :=
  match embedder.model with
  | some clip => (clip.decode jpeg).map clip.features
  | none => some (embedder.hashEmbeddingBytes jpeg)

/-- `embed_image` — the route.  An empty body is answered before anything looks at it; an exception
    is turned into status 500, with a text for a body. -/
def embedImageRoute (embedder : ImageEmbedder Image) (body : Bytes) : HttpReply :=
  if body = [] then { status := 200, body := some ([], none) }
  else match embedder.embed body with
    | some emb => { status := 200, body := some (emb, some embedder.spaceId) }
    | none => { status := 500, body := none }

/-- A frame that the encoder's decoder cannot read. -/
def ImageEmbedder.Undecodable (embedder : ImageEmbedder Image) (jpeg : Bytes) : Prop :=
  ∃ clip, embedder.model = some clip ∧ clip.decode jpeg = none

end

/-! ### The caller -/

/-- `is_input_refusal` — does the status refuse this very input, so that sending it again is of
    no use? -/
def isInputRefusal (status : Nat) : Bool :=
  status == 400 || status == 413 || status == 415 || status == 422

/-- `is_success` of a status code. -/
def isSuccess (status : Nat) : Bool := 200 ≤ status && status < 300

/-- `Embedder`: the AI service under a base URL, the in-process hash, or none at all. -/
inductive Embedder where
  | http (base : String)
  | inProcess
  | disabled
  deriving DecidableEq, Repr

/-- What a reply of the image route, or its absence, means to the caller. -/
def replyOutcome (base : String) : Option HttpReply → EmbedOutcome
  | none => .retry
  | some reply =>
      if isInputRefusal reply.status then .rejected
      else if !isSuccess reply.status then
        -- 404, 501: the route itself is absent
        if reply.status == 404 || reply.status == 501 then .disabled else .retry
      else match reply.body with
        | some (embedding, space) => .ok embedding (space.getD ("http:" ++ base))
        | none => .retry

/-- `embed_image` — `post` sends the bytes to the service, `localHash` embeds them in process.
    Only the service can ask for a retry. -/
def Embedder.embedImage (post : Bytes → Option HttpReply) (localHash : Bytes → List F32)
    (jpeg : Bytes) : Embedder → EmbedOutcome
  | .http base => replyOutcome base (post jpeg)
  | .inProcess => .ok (localHash jpeg) "hash:rust-image@384"
  | .disabled => .disabled

/-- A pass whose image embedder is a healthy service at `base`: every call reaches the route, and
    its reply the caller. -/
def ServedBy {Image : Type} (embedder : ImageEmbedder Image) (base : String)
    (localHash : Bytes → List F32) (env : PassEnv) : Prop :=
  ∀ wcId jpeg, env.embedImage wcId jpeg
    = (Embedder.http base).embedImage (fun body => some (embedImageRoute embedder body)) localHash
        jpeg

/-- **The composition.**  An undecodable frame is answered with an empty vector if there is nothing
    in it, and is to be retried otherwise. -/
theorem ServedBy.embedImage_undecodable {Image : Type} {embedder : ImageEmbedder Image}
    {base : String} {localHash : Bytes → List F32} {env : PassEnv}
    (h : ServedBy embedder base localHash env) {jpeg : Bytes}
    (hjpeg : embedder.Undecodable jpeg) (wcId : Int) :
    env.embedImage wcId jpeg = if jpeg = [] then .ok [] ("http:" ++ base) else .retry := by
  obtain ⟨clip, hmodel, hdecode⟩ := hjpeg
  rw [h wcId jpeg]
  show replyOutcome base (some (embedImageRoute embedder jpeg)) = _
  by_cases hempty : jpeg = []
  · rw [embedImageRoute, if_pos hempty, if_pos hempty]
    rfl
  · have hraises : embedder.embed jpeg = none := by
      rw [ImageEmbedder.embed, hmodel]
      show (clip.decode jpeg).map clip.features = none
      rw [hdecode]
      rfl
    rw [embedImageRoute, if_neg hempty, if_neg hempty, hraises]
    rfl

/-! ### What a pass submits, and what it writes next -/

/-- A call of the image embedder. -/
def isCall : Event → Bool
  | .embedded .image _ _ => true
  | _ => false

/-- The row that ends the work on a capture's image, whatever the reason it gives. -/
def Skips (wcId : Int) (e : Event) : Prop :=
  ∃ n err now, e = .setImageEmbeddingState wcId .skipped n err now

/-- The answers that are terminal: a refusal, and a vector of the wrong width.  After them the
    image is not submitted again. -/
def terminal (dim : Nat) : EmbedOutcome → Bool
  | .rejected => true
  | .ok embedding _ => !usable embedding dim
  | _ => false

/-- The empty vector is of the wrong width, unless the store has none. -/
theorem terminal_empty {dim : Nat} {space : String} :
    terminal dim (.ok [] space) = true ↔ dim ≠ 0 := by
  show (!(0 == dim)) = true ↔ dim ≠ 0
  rw [Bool.not_eq_true', beq_eq_false_iff_ne]
  exact ne_comm

/-- The last thing the pass after `before` did was not a call, so its next write follows none. -/
def Quiet (before log : List Event) : Prop :=
  ∀ l e, log = before ++ (l ++ [e]) → isCall e = false

/-- A pass that has done nothing is quiet. -/
theorem quiet_start {before : List Event} : Quiet before before := by
  intro l e heq
  have hlength := congrArg List.length heq
  simp at hlength

/-- It is quiet behind a write that is no call. -/
theorem quiet_concat {before log : List Event} {e : Event} (h : isCall e = false) :
    Quiet before (log ++ [e]) := by
  intro l e' heq
  rw [← List.append_assoc] at heq
  obtain ⟨-, hlast⟩ := List.append_inj' heq rfl
  obtain rfl : e = e' := (List.cons.inj hlast).1
  exact h

/-- And it stays so through writes that are none. -/
theorem Quiet.append {before log ws : List Event} (h : Quiet before log)
    (hws : ∀ e ∈ ws, isCall e = false) : Quiet before (log ++ ws) := by
  rcases List.eq_nil_or_concat ws with rfl | ⟨ws, e, rfl⟩
  · rwa [List.append_nil]
  · rw [List.concat_eq_append] at hws ⊢
    rw [← List.append_assoc]
    exact quiet_concat (hws e (List.mem_append_right _ (List.mem_singleton_self e)))

/-- An entry's attempt, and its text leg. -/
theorem bookkeeping_touch_text (wcId now : Int) {ws : List Event}
    (hws : ∀ e ∈ ws, legWrites .text wcId e = true) :
    ∀ e ∈ .touchEnrichAttempt wcId now :: ws, bookkeeping e = true := by
  intro e he
  rcases List.mem_cons.mp he with rfl | he
  · rfl
  · exact bookkeeping_of_legWrites (hws e he)

section
variable [TextTables]

/-- The JPEG object of a capture reads as `jpeg`. -/
def StoresJpeg (cfg : EnrichConfig) (env : PassEnv) (dir : ClientDir) (wcId : Int)
    (jpeg : Bytes) : Prop :=
  ∃ w token, (wcId, w) ∈ dir.ukg.windowCapture.rows ∧ w.imageToken = some token ∧
    cfg.objects.get dir.files
      (env.readFails (keyPath cfg.client (ymdFromFiletime w.timeStamp) token "jpg")) cfg.client
      (keyPath cfg.client (ymdFromFiletime w.timeStamp) token "jpg") token = .ok jpeg

/-- What the pass after `before` hands to the embedder, and what it writes right after a call: a
    `skipped` row exactly after a terminal answer. -/
def CallGuard (cfg : EnrichConfig) (env : PassEnv) (before : List Event) (e : Event)
    (_dir : ClientDir) (log : List Event) : Prop :=
  (∀ wcId outcome, e = .embedded .image wcId outcome → ∀ jpeg,
    StoresJpeg cfg env (ClientDir.after log) wcId jpeg → outcome = env.embedImage wcId jpeg) ∧
  ∀ l wcId outcome, log = before ++ (l ++ [.embedded .image wcId outcome]) →
    (Skips wcId e ↔ terminal cfg.dim outcome = true)

variable {cfg : EnrichConfig} {env : PassEnv} {before log : List Event} {e : Event}

/-- A write that is no call, where nothing was called just before. -/
theorem Quiet.guard (h : Quiet before log) (he : isCall e = false) (dir : ClientDir) :
    CallGuard cfg env before e dir log := by
  refine ⟨fun wcId outcome heq => ?_, fun l wcId outcome heq => ?_⟩
  · rw [heq] at he
    cases he
  · cases h l _ heq

/-- The write that follows a call. -/
theorem guard_afterCall {wcId : Int} {outcome : EmbedOutcome} (he : isCall e = false)
    (h : Skips wcId e ↔ terminal cfg.dim outcome = true) (dir : ClientDir) :
    CallGuard cfg env before e dir (log ++ [.embedded .image wcId outcome]) := by
  refine ⟨fun id outcome' heq => ?_, fun l id outcome' heq => ?_⟩
  · rw [heq] at he
    cases he
  · rw [← List.append_assoc] at heq
    obtain ⟨-, hlast⟩ := List.append_inj' heq rfl
    obtain ⟨-, rfl, rfl⟩ := Event.embedded.inj (List.cons.inj hlast).1
    exact h

/-- A stretch of a pass that calls nothing. -/
theorem Quiet.wp {α : Type} {P : Event → Bool} {p : Enricher α} (h : Quiet before log)
    (hp : Writes P p) (hP : ∀ e, P e = true → isCall e = false) :
    p.wp Event.apply (CallGuard cfg env before)
      (fun _ dir' log' => dir' = ClientDir.after log' ∧ Quiet before log' ∧
        ∃ ws, log' = log ++ ws ∧ ∀ e ∈ ws, P e = true) (ClientDir.after log) log := by
  refine Prog.wp_mono (hp.wp_log Event.apply ClientDir.new log) ?_ ?_
  · rintro e dir _ ⟨he, -, ws, rfl, hws⟩
    exact (h.append fun e he => hP e (hws e he)).guard (hP e he) dir
  · rintro _ dir _ ⟨hdir, ws, rfl, hws⟩
    exact ⟨hdir, h.append fun e he => hP e (hws e he), ws, rfl, hws⟩

/-! ### One leg -/

/-- **The record of an answer**, right after the call: its first write tells whether the answer
    was terminal. -/
theorem call_imageRecord (wcId attempts : Int) (outcome : EmbedOutcome) (stats : EnrichStats)
    {dir : ClientDir} :
    (imageRecord cfg env wcId attempts outcome stats).wp Event.apply (CallGuard cfg env before)
      (fun _ _ log' => Quiet before log') dir (log ++ [.embedded .image wcId outcome]) := by
  have hnot : ∀ {e : Event}, (∀ id n err now, e ≠ .setImageEmbeddingState id .skipped n err now) →
      terminal cfg.dim outcome = false → (Skips wcId e ↔ terminal cfg.dim outcome = true) := by
    intro e hne hpass
    rw [hpass]
    exact ⟨fun ⟨n, err, now, heq⟩ => absurd heq (hne wcId n err now), fun h => by cases h⟩
  cases outcome with
  | disabled =>
    exact ⟨guard_afterCall rfl (hnot (fun _ _ _ _ h => by cases h) rfl) _, quiet_concat rfl⟩
  | retry =>
    exact ⟨guard_afterCall rfl (hnot (fun _ _ _ _ h => by cases h) rfl) _, quiet_concat rfl⟩
  | rejected =>
    exact ⟨guard_afterCall rfl ⟨fun _ => rfl, fun _ => ⟨_, _, _, rfl⟩⟩ _, quiet_concat rfl⟩
  | ok embedding space =>
    simp only [imageRecord, Prog.wp_ite, Prog.wp_bind]
    refine ⟨fun hwidth => ?_, fun hwidth => ?_⟩
    · have hterminal : terminal cfg.dim (.ok embedding space) = true := hwidth
      exact ⟨guard_afterCall rfl ⟨fun _ => hterminal, fun _ => ⟨_, _, _, rfl⟩⟩ _, quiet_concat rfl⟩
    · have hpass : terminal cfg.dim (.ok embedding space) = false := Bool.eq_false_iff.mpr hwidth
      -- the first write is the label's, or the first of a rebuild
      have hfirst : ∀ {e : Event}, isCall e = false →
          (∀ id n err now, e ≠ .setImageEmbeddingState id .skipped n err now) → ∀ dir,
          CallGuard cfg env before e dir (log ++ [.embedded .image wcId (.ok embedding space)]) :=
        fun he hne dir => guard_afterCall he (hnot hne hpass) dir
      have hnext : ∀ {e' e : Event} {log' : List Event}, isCall e' = false → isCall e = false →
          ∀ dir, CallGuard cfg env before e dir (log' ++ [e']) :=
        fun he' he dir => (quiet_concat he').guard he dir
      simp only [alignSpace, rebuild, clear, Prog.wp_bind, Prog.wp_get, Prog.wp_ite]
      refine ⟨fun _ => ⟨hfirst rfl (fun _ _ _ _ h => by cases h) _, hnext rfl rfl _,
        hnext rfl rfl _, hnext rfl rfl _, hnext rfl rfl _, ?_⟩,
        fun _ => ⟨hfirst rfl (fun _ _ _ _ h => by cases h) _, ?_⟩⟩
      · exact ⟨hnext rfl rfl _, hnext rfl rfl _, quiet_concat rfl⟩
      · exact ⟨hnext rfl rfl _, hnext rfl rfl _, quiet_concat rfl⟩

/-- A leg is given the token and the timestamp of its capture. -/
def LegOf (dir : ClientDir) (wcId : Int) (ts : Option Int) (imageToken : Option String) : Prop :=
  ∀ w, (wcId, w) ∈ dir.ukg.windowCapture.rows → ts = some w.timeStamp ∧ imageToken = w.imageToken

/-- **The image leg of one capture** meets the guard: it is quiet up to its call, and quiet again
    after the record. -/
theorem call_imageLeg {wcId : Int} {ts : Option Int} {token : String} (stats : EnrichStats)
    (hleg : LegOf (ClientDir.after log) wcId ts (some token)) (h : Quiet before log) :
    (imageLeg cfg env wcId ts token stats).wp Event.apply (CallGuard cfg env before)
      (fun _ _ log' => Quiet before log') (ClientDir.after log) log := by
  have hrow : ∀ {state n err now}, CallGuard cfg env before
      (.setImageEmbeddingState wcId state n err now) (ClientDir.after log) log :=
    h.guard rfl _
  simp only [imageLeg, Prog.wp_bind, imageStep, Prog.wp_get, Prog.wp_ite]
  refine ⟨fun _ => ⟨fun _ => h, fun _ => ⟨hrow, quiet_concat rfl⟩⟩,
    fun _ => ⟨fun _ => h, fun _ => ?_⟩⟩
  cases ts with
  | none => exact ⟨hrow, quiet_concat rfl⟩
  | some ts =>
    simp only [readJpeg, Prog.wp_bind, Prog.wp_get, Prog.wp_ite]
    refine ⟨fun _ => ⟨fun _ => ⟨hrow, quiet_concat rfl⟩, fun _ => ⟨hrow, quiet_concat rfl⟩⟩,
      fun _ => ?_⟩
    split
    · next jpeg hget =>
      refine ⟨⟨fun id outcome heq => ?_, fun l id outcome heq => ?_⟩, call_imageRecord _ _ _ _⟩
      · obtain ⟨-, rfl, rfl⟩ := Event.embedded.inj heq
        rintro jpeg' ⟨w, token', hmem, htoken, hget'⟩
        -- the leg read the object that the capture's row names
        obtain ⟨hts, htoken'⟩ := hleg w hmem
        obtain rfl := Option.some.inj hts
        obtain rfl := Option.some.inj (htoken'.trans htoken)
        rw [hget] at hget'
        rw [Except.ok.inj hget']
      · cases h l _ heq
    · exact ⟨hrow, quiet_concat rfl⟩
    · exact ⟨hrow, quiet_concat rfl⟩

/-! ### The pass -/

/-- What the leg of the next entry is given. -/
theorem Pending.legOf {entry : Int × Option Int × Option String}
    {rest : List (Int × Option Int × Option String)} {acc : LoopState} {dir : ClientDir}
    (h : Pending env before (entry :: rest) acc dir log) {ws : List Event}
    (hws : ∀ e ∈ ws, bookkeeping e = true) :
    LegOf (ClientDir.after (log ++ ws)) entry.1 entry.2.1 entry.2.2 := by
  obtain ⟨events, rfl, hbooks, -, -⟩ := h.split
  obtain ⟨w₀, hrow₀, hts₀, htoken₀⟩ := h.entries entry List.mem_cons_self
  intro w hrow
  rw [List.append_assoc] at hrow
  obtain ⟨w₁, hrow₁, htoken₁, htime₁⟩ := mem_windowCapture_after (fun e he =>
    (List.mem_append.mp he).elim (hbooks e) (hws e)) hrow
  obtain rfl := TableLib.Table.eq_of_mem hrow₀ hrow₁
  exact ⟨hts₀.trans (congrArg some htime₁), htoken₀.trans htoken₁⟩

/-- **One entry of the backfill queue.** -/
theorem Quiet.backfillOne {entry : Int × Option Int × String}
    {rest : List (Int × Option Int × Option String)} {acc : LoopState} {dir : ClientDir}
    (hquiet : Quiet before log) (h : Pending env before (withToken entry :: rest) acc dir log) :
    (backfillOne cfg env entry acc).wp Event.apply (CallGuard cfg env before)
      (fun _ _ log' => Quiet before log') dir log := by
  simp only [Api.backfillOne, Prog.wp_ite, Prog.wp_bind, Prog.wp_commit]
  refine ⟨fun _ => hquiet, fun _ => ⟨hquiet.guard rfl _, ?_⟩⟩
  rw [h.store, ← ClientDir.after_concat]
  have hleg := h.legOf (bookkeeping_touch_text entry.1 env.now (List.forall_mem_nil _))
  refine Prog.wp_post (call_imageLeg acc.stats hleg (quiet_concat rfl)) ?_
  rintro ⟨leg, stats⟩ dir' log' hend
  cases leg <;> exact hend

/-- **One entry of the fresh queue.** -/
theorem Quiet.freshOne {entry : Int × Option Int × Option String}
    {rest : List (Int × Option Int × Option String)} {acc : LoopState} {dir : ClientDir}
    (hquiet : Quiet before log) (h : Pending env before (entry :: rest) acc dir log) :
    (freshOne cfg env entry acc).wp Event.apply (CallGuard cfg env before)
      (fun _ _ log' => Quiet before log') dir log := by
  have htext : ∀ e, legWrites .text entry.1 e = true → isCall e = false := by
    intro e he
    cases e with
    | embedded leg id outcome =>
      cases leg with
      | text => rfl
      | image => cases he
    | _ => rfl
  simp only [Api.freshOne, Prog.wp_bind, Prog.wp_commit]
  refine ⟨hquiet.guard rfl _, ?_⟩
  rw [h.store, ← ClientDir.after_concat]
  refine Prog.wp_post ((quiet_concat rfl).wp (writes_textLeg cfg env entry.1 acc.stats) htext) ?_
  rintro ⟨textRetry, stats⟩ dir₁ log₁ ⟨rfl, hquiet₁, ws, rfl, hws⟩
  have hleg := h.legOf (bookkeeping_touch_text entry.1 env.now hws)
  rw [List.append_cons] at hleg
  refine Prog.wp_seq (R := fun _ _ log' => Quiet before log') ?_ fun out dir' log' hend => ?_
  · simp only [Api.freshImage, Prog.wp_ite]
    refine ⟨fun _ => hquiet₁, fun _ => ?_⟩
    cases htoken : entry.2.2 with
    | none => exact ⟨hquiet₁.guard rfl _, quiet_concat rfl⟩
    | some token =>
      rw [htoken] at hleg
      exact call_imageLeg stats hleg hquiet₁
  · simp only [Prog.wp_ite, Prog.wp_bind, Prog.wp_commit]
    exact ⟨fun _ => ⟨hend.guard rfl _, quiet_concat rfl⟩, fun _ => hend⟩

/-- **The pass** meets the guard, each loop by the lemma for one of its entries. -/
theorem callGuard_enrichClient (cfg : EnrichConfig) (env : PassEnv) (before : List Event) :
    (enrichClient cfg env).wp Event.apply (CallGuard cfg env before) (fun _ _ _ => True)
      (ClientDir.after before) before := by
  rw [enrichClient_eq]
  have hcalls : ∀ e, upkeepWrites e = true → isCall e = false := fun e he => by
    cases e <;> first | rfl | cases he
  refine Prog.wp_seq (quiet_start.wp (writes_prepare cfg env) hcalls) ?_
  rintro _ dir log ⟨rfl, hquiet, ws, rfl, hws⟩
  rw [Prog.wp_bind, Prog.wp_get]
  refine Prog.wp_seq (Prog.wp_mono (Prog.wp_forEach_rest (J := fun xs acc dir log =>
    Pending env before (xs.map withToken
      ++ (ClientDir.after (before ++ ws)).ukg.capturesPendingEnrichment batch env.now
        retryBackoffTicks) acc dir log ∧ Quiet before log)
    (fun entry rest acc dir log h => Prog.wp_and h.1.backfillOne (h.2.backfillOne h.1))
    ⟨pending_of_read hws env.now retryBackoffTicks batch, hquiet⟩)
    (fun _ _ _ h => h.2) fun _ _ _ h => h) fun acc dir log h => ?_
  refine Prog.wp_seq (Prog.wp_mono (Prog.wp_forEach_rest (J := fun xs acc dir log =>
    Pending env before xs acc dir log ∧ Quiet before log)
    (fun entry rest acc dir log h => Prog.wp_and h.1.freshOne (h.2.freshOne h.1)) h)
    (fun _ _ _ h => h.2) fun _ _ _ h => h) fun _ _ _ _ => trivial

/-! ### What the answer settles -/

/-- What a call settles, `called` being the log that ends with it and `e` what the pass wrote next:
    the capture is recorded as skipped, and however the history goes on, before the next call for it
    the image store is rebuilt. -/
def Settles (cfg : EnrichConfig) (steps : List (Step cfg)) (env : PassEnv) (budget : Nat)
    (wcId : Int) (called : List Event) (e : Event) : Prop :=
  Skips wcId e ∧
  ∀ (rest : List (Step cfg)) (between later : List Event) (outcome : EmbedOutcome),
    history cfg (steps ++ .pass env budget :: rest)
      = called ++ e :: between ++ .embedded .image wcId outcome :: later →
    ∃ r ∈ between, rebuildsImages r = true

/-- **Undecodable frames.**  A pass served by a healthy service with the CLIP encoder submits a
    stored object that the decoder cannot read, and goes on: this settles the capture just when the
    object is empty, in a store of some width. -/
theorem undecodable_settles_iff {Image : Type} (embedder : ImageEmbedder Image) (base : String)
    (localHash : Bytes → List F32) (cfg : EnrichConfig) (steps : List (Step cfg)) (env : PassEnv)
    (hserved : ServedBy embedder base localHash env) (budget : Nat) {wcId : Int} {jpeg : Bytes}
    {s₁ s₂ : List Event} {outcome : EmbedOutcome} {e : Event}
    (hlog : (runPass cfg env budget (history cfg steps)).log
      = history cfg steps ++ (s₁ ++ .embedded .image wcId outcome :: e :: s₂))
    (hstored : StoresJpeg cfg env (ClientDir.after (history cfg steps ++ s₁)) wcId jpeg)
    (hjpeg : embedder.Undecodable jpeg) :
    Settles cfg steps env budget wcId
        (history cfg steps ++ (s₁ ++ [.embedded .image wcId outcome])) e ↔
      jpeg = [] ∧ cfg.dim ≠ 0 := by
  obtain ⟨ws, hws, hissued⟩ :=
    Prog.run_issued budget (callGuard_enrichClient cfg env (history cfg steps))
  obtain rfl := List.append_cancel_left (hws.symm.trans hlog)
  -- the answer, and the write after it
  obtain ⟨_, hcall, -⟩ := hissued s₁ (.embedded .image wcId outcome) (e :: s₂) rfl
  obtain ⟨_, -, hnext⟩ := hissued (s₁ ++ [.embedded .image wcId outcome]) e s₂ (by simp)
  have houtcome := hcall wcId outcome rfl jpeg hstored
  rw [hserved.embedImage_undecodable hjpeg] at houtcome
  have hskips : Skips wcId e ↔ jpeg = [] ∧ cfg.dim ≠ 0 := by
    rw [hnext s₁ wcId outcome rfl, houtcome]
    by_cases hempty : jpeg = []
    · rw [if_pos hempty, terminal_empty]
      exact (and_iff_right hempty).symm
    · rw [if_neg hempty]
      exact ⟨fun h => (by cases h), fun h => absurd h.1 hempty⟩
  refine ⟨fun h => hskips.mp h.1, fun h => ⟨hskips.mpr h, fun rest between later o hhist => ?_⟩⟩
  rw [List.append_cons _ e between] at hhist
  refine settled_final cfg (steps ++ .pass env budget :: rest) hhist ?_
  obtain ⟨n, err, now, rfl⟩ := hskips.mpr h
  rw [ClientDir.after_concat]
  exact settled_of_skipped _ wcId n err now

end

/-! ### A broken frame -/

section

attribute [local instance] TextTables.ascii

/-- A service with the CLIP encoder, whose decoder knows no frame as short as `smallJpeg`. -/
def smallService : ImageEmbedder Unit where
  model := some { decode := fun jpeg => if jpeg.length ≤ 4 then none else some ()
                  features := fun _ => [1] }
  hashEmbeddingBytes := fun _ => [1]

/-- A pass at time `now` with that service behind the image leg. -/
def servedEnv (now : Int) : PassEnv :=
  { smallEnv now none (.ok [1] "T") .retry with
    embedImage := fun _ jpeg => (Embedder.http "http://ai").embedImage
      (fun body => some (embedImageRoute smallService body)) (fun _ => [1]) jpeg }

/-- The frame arrives, and two passes a backoff apart find it. -/
def brokenFrame : List (Step smallConfig) :=
  [smallArrival, .pass (servedEnv 1000000000) 100, .pass (servedEnv 7000000000) 100]

/-- What the first of the two passes writes before it submits the frame. -/
def beforeFrame : List Event :=
  [.ensureInfo .text 1 spaceUnknown, .ensureInfo .image 1 spaceUnknown,
    .touchEnrichAttempt 1 1000000000, .embedded .text 1 (.ok [1] "T"), .setSpaceId .text 1 "T",
    .insertVector .text (itemIdForCapture 1) [1]]

/-- What it writes once the answer is there. -/
def frameVerdict : Event :=
  .setImageEmbeddingState 1 .pending 1 (some "embedder unavailable") 1000000000

/-- The frame is submitted twice, no verdict on it is terminal, and no rebuild lies in between:
    the service answers 500 to what it cannot decode. -/
theorem brokenFrame_resubmitted :
    ServedBy smallService "http://ai" (fun _ => [1]) (servedEnv 1000000000) ∧
    ServedBy smallService "http://ai" (fun _ => [1]) (servedEnv 7000000000) ∧
    smallService.Undecodable smallJpeg ∧
    StoresJpeg smallConfig (servedEnv 1000000000)
      (ClientDir.after (history smallConfig [smallArrival])) 1 smallJpeg ∧
    (history smallConfig brokenFrame).filter isCall
      = [.embedded .image 1 .retry, .embedded .image 1 .retry] ∧
    ∀ e ∈ history smallConfig brokenFrame,
      finalises 1 e = false ∧ rebuildsImages e = false := by
  refine ⟨fun _ _ => rfl, fun _ _ => rfl, ⟨_, rfl, rfl⟩, ?_, by decide +kernel, by decide +kernel⟩
  exact ⟨Ukg.captureRow smallRecord, "t", by decide +kernel, rfl, by decide +kernel⟩

/-- The first call for the frame does not settle the capture. -/
theorem undecodable_settles_brokenFrame :
    ¬ Settles smallConfig [smallArrival] (servedEnv 1000000000) 100 1
      (history smallConfig [smallArrival] ++ (beforeFrame ++ [.embedded .image 1 .retry]))
      frameVerdict := by
  intro h
  have hlog : (runPass smallConfig (servedEnv 1000000000) 100
      (history smallConfig [smallArrival])).log
      = history smallConfig [smallArrival]
        ++ (beforeFrame ++ .embedded .image 1 .retry :: frameVerdict :: []) := by
    decide +kernel
  have hstored : StoresJpeg smallConfig (servedEnv 1000000000)
      (ClientDir.after (history smallConfig [smallArrival] ++ beforeFrame)) 1 smallJpeg :=
    ⟨Ukg.captureRow smallRecord, "t", by decide +kernel, rfl, by decide +kernel⟩
  have hempty := (undecodable_settles_iff smallService "http://ai" (fun _ => [1]) smallConfig
    [smallArrival] (servedEnv 1000000000) (fun _ _ => rfl) 100 hlog hstored ⟨_, rfl, rfl⟩).mp h
  exact absurd hempty.1 (by decide)

end

end Precall.Api
