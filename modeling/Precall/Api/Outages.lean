import Precall.Api.Fairness
import Precall.Api.ImageRoute
import Precall.Lib.Kept

namespace Precall.Api

open ByteLib TextLib Durable Precall.Store

/-!
# The index through an outage

The AI service (`precall_ai/server.py`, `precall_ai/providers.py`) as a whole, the calls the API
makes to it (`precall-api/src/embed.rs`), and a network that may lose a request, or answer it with
anything that is not an embedding.

* `AiService` — both encoders, and the routes `/health`, `/embed/text` and `/embed/image`;
* `Embedder.spaces`, `Embedder.embedText` — the caller's side, for an AI service, in process, and
  without an embedder;
* `AiDeployment.Serves` — a pass whose every call goes to the deployment, through such a network;
* `Fitting` — both stores carry a label the deployment leaves alone;
* `outages_keep_index` — as long as the deployment stays the same, whatever becomes of the calls,
  no vector is lost, and each new one is the deployment's own.
-/

/-! ### The service -/

/-- `TextEmbedder` — the sentence encoder where it is installed, `none` where it raises, and the
    word hash. -/
structure TextEmbedder where
  model : Option (String → Option (List F32))
  hashEmbedding : String → List F32

/-- `space_id`. -/
def TextEmbedder.spaceId (embedder : TextEmbedder) : String :=
  if embedder.model.isSome then "st:sentence-transformers/all-MiniLM-L6-v2@384"
  else "hash:python-text@384"

/-- `embed`, of a single text. -/
def TextEmbedder.embed (embedder : TextEmbedder) (text : String) : Option (List F32) :=
  match embedder.model with
  | some encode => encode text
  | none => some (embedder.hashEmbedding text)

/-- The state of the service process: its encoders, or the hashes where models are not installed. -/
structure AiService (Image : Type) where
  text : TextEmbedder
  image : ImageEmbedder Image

/-- A reply of `/health` that reached the caller: its status, and the two ids where its body is an
    object. -/
structure HealthReply where
  status : Nat
  body : Option (Option String × Option String)
  deriving DecidableEq

section
variable {Image : Type}

/-- `health`. -/
def AiService.health (service : AiService Image) : HealthReply :=
  { status := 200, body := some (some service.text.spaceId, some service.image.spaceId) }

/-- `embed_text` — the route; an exception is turned into status 500, with no embedding in its
    body. -/
def AiService.embedText (service : AiService Image) (text : String) : HttpReply :=
  match service.text.embed text with
  | some emb => { status := 200, body := some (emb, some service.text.spaceId) }
  | none => { status := 500, body := none }

end

/-! ### The calls -/

/-- `LOCAL_TEXT_SPACE`. -/
def localTextSpace : String := "hash:rust-text@384"

/-- `LOCAL_IMAGE_SPACE`. -/
def localImageSpace : String := "hash:rust-image@384"

/-- `spaces` — `get` is what came back from `/health`; the in-process hashes name their own
    spaces. -/
def Embedder.spaces (get : Option HealthReply) : Embedder → Option (String × String)
  | .inProcess => some (localTextSpace, localImageSpace)
  | .disabled => none
  | .http _ => match get with
    | none => none
    | some reply =>
        if !isSuccess reply.status then none
        else match reply.body with
          | some (some text, some image) => some (text, image)
          | _ => none

/-- `embed_text` — `post` sends the text to the service, `localHash` embeds it in process.  The
    reply is read as that of an image is. -/
def Embedder.embedText (post : String → Option HttpReply) (localHash : String → List F32)
    (text : String) : Embedder → EmbedOutcome
  | .http base => replyOutcome base (post text)
  | .inProcess => .ok (localHash text) localTextSpace
  | .disabled => .disabled

/-- What becomes of a request: the service's answer comes back, something without an embedding comes
    back in its place, or nothing at all. -/
inductive Exchange where
  | answered
  | replaced (status : Nat)
  | lost
  deriving DecidableEq, Repr

/-- The reply of an embedding route that reaches the caller: the service's own, one without an
    embedding, or none. -/
def Exchange.embedding (exchange : Exchange) (reply : HttpReply) : Option HttpReply :=
  match exchange with
  | .answered => some reply
  | .replaced status => some { status := status, body := none }
  | .lost => none

/-- The reply of `/health` that reaches the caller. -/
def Exchange.report (exchange : Exchange) (reply : HealthReply) : Option HealthReply :=
  match exchange with
  | .answered => some reply
  | .replaced status => some { status := status, body := none }
  | .lost => none

/-- What a process that enriches is run with: its embedder, the service under that address, and the
    two hashes of its own. -/
structure AiDeployment (Image : Type) where
  embedder : Embedder
  service : AiService Image
  hashText : String → List F32
  hashImage : Bytes → List F32

section
variable {Image : Type}

/-- The space of a leg's vectors, if there are any. -/
def AiDeployment.space (d : AiDeployment Image) (leg : Leg) : Option String :=
  match d.embedder, leg with
  | .http _, .text => some d.service.text.spaceId
  | .http _, .image => some d.service.image.spaceId
  | .inProcess, .text => some localTextSpace
  | .inProcess, .image => some localImageSpace
  | .disabled, _ => none

/-- The vector is what the deployment computes from some text or from some image. -/
def AiDeployment.Computes (d : AiDeployment Image) : Leg → List F32 → Prop
  | .text, v => match d.embedder with
    | .http _ => ∃ text, d.service.text.embed text = some v
    | .inProcess => ∃ text, d.hashText text = v
    | .disabled => False
  | .image, v => match d.embedder with
    | .http _ => ∃ jpeg, d.service.image.embed jpeg = some v
    | .inProcess => ∃ jpeg, d.hashImage jpeg = v
    | .disabled => False

/-- Every call of the pass goes to the deployment, whatever becomes of it on its way there and
    back. -/
structure AiDeployment.Serves (d : AiDeployment Image) (env : PassEnv) : Prop where
  spaces : ∃ exchange : Exchange,
    env.spaces = d.embedder.spaces (exchange.report d.service.health)
  text : ∀ wcId text, ∃ exchange : Exchange, env.embedText wcId text
    = d.embedder.embedText (fun text => exchange.embedding (d.service.embedText text)) d.hashText
        text
  image : ∀ wcId jpeg, ∃ exchange : Exchange, env.embedImage wcId jpeg
    = d.embedder.embedImage (fun jpeg => exchange.embedding (embedImageRoute d.service.image jpeg))
        d.hashImage jpeg

/-! ### What the calls can bring -/

/-- The deployment reports its spaces, or nothing; an outage cannot make up a third answer. -/
theorem AiDeployment.Serves.reported {d : AiDeployment Image} {env : PassEnv} (h : d.Serves env)
    {spaces : String × String} (hspaces : env.spaces = some spaces) (leg : Leg) :
    d.space leg = some (legSpace leg spaces) := by
  obtain ⟨exchange, hget⟩ := h.spaces
  rw [hspaces] at hget
  unfold AiDeployment.space
  cases hembedder : d.embedder with
  | inProcess =>
    rw [hembedder] at hget
    obtain rfl := Option.some.inj hget
    cases leg <;> rfl
  | disabled =>
    rw [hembedder] at hget
    cases hget
  | http base =>
    rw [hembedder] at hget
    cases exchange with
    | lost => cases hget
    | replaced status =>
      simp only [Embedder.spaces, Exchange.report] at hget
      split at hget <;> cases hget
    | answered =>
      obtain rfl := Option.some.inj hget
      cases leg <;> rfl

/-- The writes that add to the index and never take from it: no clearing, and of vectors and
    labels only the deployment's. -/
def AiDeployment.Adds (d : AiDeployment Image) : Event → Prop
  | .clearMetadata _ | .clearGraph _ | .clearItems _ => False
  | .setSpaceId leg _ space => d.space leg = some space
  | .insertVector leg item v => ∃ wcId, item = itemIdForCapture wcId ∧ d.Computes leg v
  | _ => True

/-- Both stores have been stamped, with a label that the deployment does not take for another
    space. -/
def Fitting (d : AiDeployment Image) (dir : ClientDir) : Prop :=
  ∀ leg, (dir.index leg).info.isSome = true ∧
    ∀ space, d.space leg = some space → spaceMismatch (dir.index leg) space = false

/-- The vectors a store gains are the deployment's, each for one capture, and what it had it
    keeps. -/
def Gains (d : AiDeployment Image) (leg : Leg) (before after : SiDb) : Prop :=
  ∃ rs, after.searchable = before.searchable ++ rs ∧ ∀ r ∈ rs, ∃ wcId v, d.Computes leg v ∧
    r = ⟨f32sToBytes v, itemIdForCapture wcId, none⟩

/-- A store has gained nothing over itself. -/
theorem Gains.refl (d : AiDeployment Image) (leg : Leg) (db : SiDb) : Gains d leg db db :=
  ⟨[], (List.append_nil _).symm, by simp⟩

/-- What was gained twice is gained. -/
theorem Gains.trans {d : AiDeployment Image} {leg : Leg} {db db' db'' : SiDb}
    (h : Gains d leg db db') (h' : Gains d leg db' db'') : Gains d leg db db'' := by
  obtain ⟨rs, hrs, hnew⟩ := h
  obtain ⟨rs', hrs', hnew'⟩ := h'
  refine ⟨rs ++ rs', by rw [hrs', hrs, List.append_assoc], fun r hr => ?_⟩
  exact (List.mem_append.mp hr).elim (hnew r) (hnew' r)

section
variable [TextTables] {d : AiDeployment Image} {dir : ClientDir} {e : Event}

/-- One such write. -/
theorem Fitting.apply (h : Fitting d dir) (he : d.Adds e) :
    Fitting d (e.apply dir) ∧ ∀ leg, Gains d leg (dir.index leg) ((e.apply dir).index leg) := by
  refine forall_and.mp fun leg => ?_
  cases htargets : e.targets leg with
  | false =>
    rw [Event.index_apply htargets]
    exact ⟨h leg, Gains.refl d leg _⟩
  | true =>
    cases e with
    | ensureInfo l dim space =>
      obtain rfl := beq_iff_eq.mp htargets
      obtain ⟨info, hinfo⟩ := Option.isSome_iff_exists.mp (h l).1
      -- a stamped store is not stamped again
      have hsame : (dir.index l).ensureInfo dim space = dir.index l := by
        rw [SiDb.ensureInfo, hinfo]
      simp only [Event.apply, ClientDir.index_setIndex, hsame]
      exact ⟨h l, Gains.refl d l _⟩
    | setSpaceId l dim space =>
      obtain rfl := beq_iff_eq.mp htargets
      simp only [Event.apply, ClientDir.index_setIndex]
      refine ⟨⟨?_, fun space' hspace' => ?_⟩, [], ?_, by simp⟩
      · unfold SiDb.setSpaceId
        split <;> rfl
      · obtain rfl := Option.some.inj (hspace'.symm.trans he)
        simp [spaceMismatch]
      · rw [SiDb.searchable_setSpaceId, List.append_nil]
    | insertVector l item v =>
      obtain rfl := beq_iff_eq.mp htargets
      obtain ⟨wcId, rfl, hv⟩ := he
      simp only [Event.apply, ClientDir.index_setIndex]
      refine ⟨⟨(h l).1, (h l).2⟩, _, SiDb.searchable_insertRows _ _ _ _ _, fun r hr => ?_⟩
      exact ⟨wcId, v, hv, List.mem_singleton.mp hr⟩
    | clearMetadata l => exact he.elim
    | clearGraph l => exact he.elim
    | clearItems l => exact he.elim
    | _ => cases htargets

/-- A run of such writes, by induction from the single ones. -/
theorem Fitting.replay {log ws : List Event} (h : Fitting d (ClientDir.after log))
    (hws : ∀ e ∈ ws, d.Adds e) : Fitting d (ClientDir.after (log ++ ws)) ∧ ∀ leg,
      Gains d leg ((ClientDir.after log).index leg) ((ClientDir.after (log ++ ws)).index leg) := by
  induction ws using List.reverseRecOn with
  | nil =>
    rw [List.append_nil]
    exact ⟨h, fun leg => Gains.refl d leg _⟩
  | append_singleton ws e ih =>
    obtain ⟨hfit, hgains⟩ := ih fun e he => hws e (List.mem_append_left _ he)
    rw [← List.append_assoc, ClientDir.after_concat]
    obtain ⟨hfit', hgains'⟩ := hfit.apply (hws e (List.mem_append_right _ (by simp)))
    exact ⟨hfit', fun leg => (hgains leg).trans (hgains' leg)⟩

end

/-! ### The pass -/

section
variable {d : AiDeployment Image} {cfg : EnrichConfig} {env : PassEnv}

variable [TextTables]

end

end

section

attribute [local instance] TextTables.ascii

end

end Precall.Api
