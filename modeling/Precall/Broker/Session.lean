import Precall.Broker.Frames
import Precall.Store.Client

namespace Precall.Broker

open ByteLib TextLib Durable Precall.Proto Precall.Store

/-!
# An ingestion session

What `Broker::handle_conn` of `precall-broker/src/ingest.rs` does for an authenticated client, as
a program over the client's directory: open the stores, register the client, then dispatch one
mux frame after another.  Each frame arrives with what the environment decides while it is
handled (`Arrival`); JSON is read by a crate outside the repository (`JsonReader`).

* `handleMeta` — one `CaptureBatch`: each capture takes the oldest pending frame;
* `handleAudio` — one audio object;
* `session_ingests` — a session commits writes of the ingesting process only.

An I/O error that ends a session is a run that stops early.
-/

/-- The head of a `PcAudio` payload: the token, and a timestamp if the client gives one. -/
structure AudioHead where
  token : String
  timestamp100ns : Option Int
  deriving DecidableEq, Repr

/-- What the JSON crate makes of a payload: a batch, an audio head, or nothing it can read. -/
structure JsonReader where
  captureBatch : Bytes → Option CaptureBatch
  audioHead : Bytes → Option AudioHead

/-- What stays the same during a session: the client, and the stores opened for it. -/
structure SessionConfig where
  clientId : Uuid
  hostname : String
  dim : Nat
  objects : ObjectStore

/-- A mux frame as it arrives, with the nonces of the objects sealed while it is handled and the
    clock at that time. -/
structure Arrival where
  frame : MuxFrame
  nonces : Nat → Bytes
  now : Int

/-- Emitted for every stored capture, to whoever follows the client live. -/
structure LiveEvent where
  clientId : Uuid
  windowCaptureId : Int
  imageToken : Option String
  windowTitle : Option String
  timestamp100ns : Int
  deriving DecidableEq, Repr

/-- The variables of the session loop, and the live events sent so far.  It starts anew with
    every connection. -/
structure SessionState where
  frames : FrameAssembler
  pending : List PendingFrame
  live : List LiveEvent

/-- A session begins with no frame open and none pending. -/
def SessionState.new : SessionState := { frames := FrameAssembler.new, pending := [], live := [] }

/-- Programs over a client's directory. -/
abbrev Ingester := Prog ClientDir Event

/-! ### Metadata -/

/-- The extension an object is stored under; the readers look for both. -/
def PendingFrame.ext (f : PendingFrame) : String :=
  if f.codecId = rdpgfxCodecidJpeg then "jpg" else "raw"

/-- The write that stores a frame as the object of a capture: sealed for the capture's token,
    under its date. -/
def putFrame (cfg : SessionConfig) (nonce : Bytes) (capture : WindowCaptureRecord)
    (f : PendingFrame) : Event :=
  .putObject cfg.clientId.text (ymdFromFiletime (asI64 capture.timestamp100ns)) capture.imageToken
    f.ext (cfg.objects.stored nonce capture.imageToken f.data)

/-- The write for one capture's object, if a frame is pending. -/
def storeFrame (cfg : SessionConfig) (nonce : Bytes) (capture : WindowCaptureRecord) :
    Option PendingFrame → Ingester Unit
  | some f => Prog.commit (putFrame cfg nonce capture f)
  | none => pure ()

/-- The live event of a capture stored under `wcId`. -/
def liveEvent (cfg : SessionConfig) (wcId : Int) (capture : WindowCaptureRecord) : LiveEvent where
  clientId := cfg.clientId
  windowCaptureId := wcId
  imageToken := some capture.imageToken
  windowTitle := some capture.windowTitle
  timestamp100ns := asI64 capture.timestamp100ns

section
variable [TextTables]

/-- One turn of the loop of `handle_meta`: the capture takes the front of the queue, and is
    inserted after its object. -/
def storeCapture (cfg : SessionConfig) (nonce : Bytes) (capture : WindowCaptureRecord)
    (st : SessionState) : Ingester SessionState := do
  -- the object first: a failed write of it ends the session before the row exists
  storeFrame cfg nonce capture st.pending.head?
  let dir ← Prog.get
  Prog.commit (.insertCapture capture)
  pure { st with
    pending := st.pending.tail
    live := st.live ++ [liveEvent cfg (dir.ukg.insertCapture capture).2 capture] }

/-- `Broker::handle_meta` on a parsed batch, capture by capture; a batch of another client is
    dropped. -/
def handleMeta (cfg : SessionConfig) (nonces : Nat → Bytes) (batch : CaptureBatch)
    (st : SessionState) : Ingester SessionState :=
  if batch.clientId ≠ cfg.clientId then pure st
  else Prog.forEach (fun capture st => storeCapture cfg (nonces capture.2) capture.1 st)
    batch.captures.zipIdx st

/-! ### Audio and dispatch -/

/-- The parse of a `PcAudio` payload, `[u16 header_len][json {token}][opus bytes]`: short payloads
    and empty audio are ignored. -/
def parseAudio (json : JsonReader) (payload : Bytes) :
    Except BrokerError (Option (AudioHead × Bytes)) :=
  let hlen := ofLe (payload.take 2)
  if payload.length < 2 ∨ payload.length < 2 + hlen then .ok none
  else match json.audioHead ((payload.drop 2).take hlen) with
    | none => .error .json
    | some head =>
      let data := payload.drop (2 + hlen)
      .ok (if data = [] then none else some (head, data))

/-- `Broker::handle_audio` — audio is stored under its token; without a timestamp it is filed
    under the time it arrived. -/
def handleAudio (json : JsonReader) (cfg : SessionConfig) (a : Arrival) : Ingester Unit :=
  match parseAudio json a.frame.payload with
  | .error _ => Prog.abort
  | .ok none => pure ()
  | .ok (some (head, data)) =>
      Prog.commit (.putObject cfg.clientId.text (ymdFromFiletime (head.timestamp100ns.getD a.now))
        head.token "opus" (cfg.objects.stored (a.nonces 0) head.token data))

/-- The dispatch of one mux frame; control messages are only logged, and a payload on the query
    channel is dropped. -/
def dispatch (json : JsonReader) (cfg : SessionConfig) (a : Arrival) (st : SessionState) :
    Ingester SessionState :=
  match a.frame.channel with
  | .gfxRdp => match handleGfx a.frame.payload st.frames st.pending with
    | .ok (frames, pending) => pure { st with frames := frames, pending := pending }
    | .error _ => Prog.abort
  | .pcMeta => match json.captureBatch a.frame.payload with
    | some batch => handleMeta cfg a.nonces batch st
    | none => Prog.abort
  | .pcAudio => do
      handleAudio json cfg a
      pure st
  | .pcCtrl | .pcQuery => pure st

/-- The label `open_store` stamps a fresh store of a leg with. -/
def storeLabel : Leg → String
  | .text => "text"
  | .image => "image"

/-- `SemanticIndex::open` on one of the two stores: a store that was never stamped is, others
    stay as they are. -/
def openIndex (cfg : SessionConfig) (leg : Leg) : Ingester Unit := do
  let dir ← Prog.get
  if (dir.index leg).info.isNone then Prog.commit (.ensureInfo leg cfg.dim (storeLabel leg))
  else pure ()

/-- `Broker::handle_conn` once the client is authenticated: the stores, the registry row, and
    then frame after frame. -/
def session (json : JsonReader) (cfg : SessionConfig) (now : Int) (arrivals : List Arrival) :
    Ingester SessionState := do
  openIndex cfg .text
  openIndex cfg .image
  Prog.commit (.touchClient cfg.clientId.text cfg.hostname now)
  Prog.forEach (dispatch json cfg) arrivals SessionState.new

/-! ### What a session writes -/

section
variable (json : JsonReader) (cfg : SessionConfig)

/-- Every write of the program is one of the ingesting process for the session's client, whatever
    it reads. -/
def Ingests {α : Type} (p : Ingester α) : Prop :=
  ∀ s log, Prog.wp Event.apply (fun e _ _ => e.ingested cfg.clientId.text = true)
    (fun _ _ _ => True) p s log

variable {cfg}

/-- A loop ingests if its body does. -/
theorem Ingests.forEach {α β : Type} {body : β → α → Ingester α} (xs : List β) (a : α)
    (h : ∀ x a, Ingests cfg (body x a)) : Ingests cfg (Prog.forEach body xs a) :=
  fun _ _ => Prog.wp_forEach (fun x _ a s log _ => h x a s log) trivial

/-- What a record writes is for its own client. -/
theorem storeCapture_ingests (nonce : Bytes) (capture : WindowCaptureRecord) (st : SessionState) :
    Ingests cfg (storeCapture cfg nonce capture st) := by
  intro s log
  unfold storeCapture storeFrame
  cases st.pending.head? with
  | none => simp [Event.ingested]
  | some f => simp [putFrame, Event.ingested]

/-- So is what audio writes. -/
theorem handleAudio_ingests (a : Arrival) : Ingests cfg (handleAudio json cfg a) := by
  intro s log
  unfold handleAudio
  split
  · trivial
  · trivial
  · simp [Event.ingested]

/-- Each frame of a session writes for the session's client only, whichever channel it is on. -/
theorem dispatch_ingests (a : Arrival) (st : SessionState) :
    Ingests cfg (dispatch json cfg a st) := by
  intro s log
  unfold dispatch
  split
  · split <;> trivial
  · split
    · rename_i batch _
      unfold handleMeta
      rw [Prog.wp_ite]
      refine ⟨fun _ => trivial, fun _ => ?_⟩
      exact Ingests.forEach _ st (fun c st => storeCapture_ingests _ _ st) s log
    · trivial
  · rw [Prog.wp_bind]
    exact Prog.wp_post (handleAudio_ingests json a s log) fun _ _ _ _ => trivial
  · trivial
  · trivial

/-- Opening a store writes no more than its stamp. -/
theorem openIndex_ingests (leg : Leg) : Ingests cfg (openIndex cfg leg) := by
  intro s log
  unfold openIndex
  simp [Event.ingested]

/-- **Writes of a session.**  Whatever arrives, a session commits writes of the ingesting process
    for its own client only. -/
theorem session_ingests (now : Int) (arrivals : List Arrival) :
    Ingests cfg (session json cfg now arrivals) := by
  intro s log
  unfold session
  refine Prog.wp_seq (openIndex_ingests .text s log) fun _ s log _ => ?_
  refine Prog.wp_seq (openIndex_ingests .image s log) fun _ s log _ => ?_
  rw [Prog.wp_bind]
  refine ⟨rfl, ?_⟩
  exact Ingests.forEach arrivals _ (fun a st => dispatch_ingests json a st) _ _

end

end

end Precall.Broker
