import Precall.Broker.Assembly
import Precall.Client.Wire
import Precall.Lib.Straight

namespace Precall.Client.Mock

open ByteLib TextLib Durable Incremental Serde
open Precall.Proto Precall.Store Precall.Broker Precall.Api

/-!
# The headless client, end to end

`Session` of `precall-mock/src/lib.rs` against the broker: what it writes to its stream, and what
a broker that receives any part of it stores.  JSON text is written and read by the JSON crate
(`print`, `parse`), the JPEG by the image crate.

* `Session.sendCapture`, `Session.heartbeat`, `Session.close` — the calls; `stream` — a caller
  that stops at the first error, as `main.rs` does;
* `Turn` — what one successful call puts on the wire; `stream_turns` — the bytes are those of whole
  turns, and of at most one frame whose record is still to come;
* `turns_commit` — what the session loop of the broker commits for them;
* `captures_stored` — the two together, over every cut of the stream into reads and wherever it
  and the broker stop.
-/

/-- One synthesized desktop frame, a JPEG and its record; `record` is the source's `meta`. -/
structure SyntheticFrame where
  jpeg : Bytes
  record : WindowCaptureRecord
  deriving DecidableEq, Repr

/-- `Session` — its counters, and what it has written to the stream so far. -/
structure Session where
  clientId : Uuid
  seq : UInt64
  frameId : UInt32
  written : Bytes
  deriving DecidableEq, Repr

/-- The session `connect` returns, which has written nothing yet. -/
def Session.connected (clientId : Uuid) : Session where
  clientId := clientId
  seq := 0
  frameId := 0
  written := []

/-- `Framed::send` — a frame the codec refuses leaves the stream as it was. -/
def Session.send (s : Session) (item : MuxFrame) : Except ProtoError Unit × Session :=
  match MuxCodec.encode item with
  | .ok dst => (.ok (), { s with written := s.written ++ dst })
  | .error e => (.error e, s)

/-- The PDUs of one capture: START, one JPEG region of the whole desktop, END. -/
def capturePdus (frameId : UInt32) (f : SyntheticFrame) : List GfxPdu :=
  [.startFrame frameId (f.record.timestamp100ns &&& 0xFFFFFFFF).toUInt32,
    .wireToSurface1 0 rdpgfxCodecidJpeg rdpgfxPixelFormatXrgb8888 ⟨0, 0, 1280, 720⟩ f.jpeg,
    .endFrame frameId]

/-- The mux frame of one capture's image: its three PDUs as one payload. -/
def imageFrame (frameId : UInt32) (f : SyntheticFrame) : MuxFrame :=
  ⟨.gfxRdp, (capturePdus frameId f).flatMap GfxPdu.encode⟩

/-- The batch of one capture. -/
def batchOf (clientId : Uuid) (seq : UInt64) (f : SyntheticFrame) : CaptureBatch where
  clientId := clientId
  seq := seq
  captures := [f.record]

section
variable [UuidText] (print : Value → Bytes)

/-- The mux frame of one capture's record. -/
def recordFrame (clientId : Uuid) (seq : UInt64) (f : SyntheticFrame) : MuxFrame :=
  ⟨.pcMeta, print (captureBatch.ser (batchOf clientId seq f))⟩

/-- The mux frame of a control message. -/
def controlFrame (m : ControlMessage) : MuxFrame := ⟨.pcCtrl, print (controlMessage.ser m)⟩

/-- `Session::send_capture` — the image, then the record; if the image is refused the record is
    not sent. -/
def Session.sendCapture (s : Session) (f : SyntheticFrame) : Except ProtoError Unit × Session :=
  let s := { s with frameId := s.frameId + 1 }
  match s.send (imageFrame s.frameId f) with
  | (.error e, s) => (.error e, s)
  | (.ok (), s) =>
    let s := { s with seq := s.seq + 1 }
    s.send (recordFrame print s.clientId s.seq f)

/-- `Session::heartbeat`. -/
def Session.heartbeat (s : Session) (sent : UInt64) (queue : UInt32) :
    Except ProtoError Unit × Session :=
  s.send (controlFrame print (.heartbeat sent 0 queue))

/-- `Session::close`. -/
def Session.close (s : Session) : Except ProtoError Unit × Session :=
  s.send (controlFrame print (.goodbye "done"))

/-- A call of a session: a capture, a heartbeat, or the end. -/
inductive Call where
  | sendCapture (f : SyntheticFrame)
  | heartbeat (sent : UInt64) (queue : UInt32)
  | close
  deriving DecidableEq, Repr

/-- A call on the session, with its result and the session it leaves. -/
def Call.perform (s : Session) : Call → Except ProtoError Unit × Session
  | .sendCapture f => s.sendCapture print f
  | .heartbeat sent queue => s.heartbeat print sent queue
  | .close => s.close print

/-- Calls one after the other, up to the first error; the session it leaves has written all that
    came before. -/
def stream (s : Session) : List Call → Except ProtoError Unit × Session
  | [] => (.ok (), s)
  | call :: calls => match call.perform print s with
    | (.error e, s) => (.error e, s)
    | (.ok (), s) => stream s calls

/-! ### Turns -/

/-- What one call puts on the wire, once its numbers are given out. -/
inductive Turn where
  | capture (frameId : UInt32) (seq : UInt64) (f : SyntheticFrame)
  | control (m : ControlMessage)

/-- The mux frames of a turn: an image and its record, or one control message. -/
def Turn.frames (clientId : Uuid) : Turn → List MuxFrame
  | .capture frameId seq f => [imageFrame frameId f, recordFrame print clientId seq f]
  | .control m => [controlFrame print m]

/-- An image whose record is not there. -/
abbrev Image := UInt32 × SyntheticFrame

/-- The mux frame of an image. -/
def Image.frame (image : Image) : MuxFrame := imageFrame image.1 image.2

/-- The payload is within the cap. -/
def Fits (item : MuxFrame) : Prop := item.payload.length ≤ maxMuxPayload

/-- The session has written these frames, one behind the other, since `s₀`, and nothing else. -/
structure Wrote (s₀ : Session) (frames : List MuxFrame) (s : Session) : Prop where
  written : s.written = s₀.written ++ frames.flatMap MuxCodec.wire
  fits : ∀ item ∈ frames, Fits item
  clientId : s.clientId = s₀.clientId

omit [UuidText] in
/-- What a session has written, in two parts. -/
theorem Wrote.trans {s₀ s₁ s₂ : Session} {frames frames' : List MuxFrame} (h : Wrote s₀ frames s₁)
    (h' : Wrote s₁ frames' s₂) : Wrote s₀ (frames ++ frames') s₂ where
  written := by rw [h'.written, h.written, List.flatMap_append, List.append_assoc]
  fits item hitem := (List.mem_append.mp hitem).elim (h.fits item) (h'.fits item)
  clientId := h'.clientId.trans h.clientId

end

/-! ### What the broker commits -/

section
variable (json : JsonReader) (cfg : SessionConfig)

/-- The writes for one capture: the object with its own image, then its row, as one batch makes
    them. -/
def filing (f : SyntheticFrame) (a : Arrival) : List Event :=
  [putFrame cfg (a.nonces 0) f.record ⟨rdpgfxCodecidJpeg, f.jpeg⟩, .insertCapture f.record]

/-- The arrivals on the metadata channel. -/
def records (arrivals : List Arrival) : List Arrival :=
  arrivals.filter fun a => a.frame.channel = .pcMeta

/-- The writes for these captures, one batch each, as many as there are records among the
    arrivals. -/
def filed (captures : List SyntheticFrame) (arrivals : List Arrival) : List Event :=
  (List.zipWith (filing cfg) captures (records arrivals)).flatten

variable [TextTables]

variable [UuidText] (print : Value → Bytes)

/-- What `turns_commit` says of the arrivals of these captures. -/
structure Stored (captures : List SyntheticFrame) (arrivals : List Arrival) (st : SessionState)
    (s : ClientDir) (st' : SessionState) : Prop where
  commits : (Prog.forEach (dispatch json cfg) arrivals st).Commits Event.apply s
    (filed cfg captures arrivals) st'
  live : st'.live.map LiveEvent.imageToken =
    st.live.map LiveEvent.imageToken ++ captures.map fun f => some f.record.imageToken
  records : (records arrivals).length = captures.length

end

/-! ### From call to store -/

section
variable [TextTables] (cfg : SessionConfig)

variable [UuidText]

end

/-! ### One capture -/

section

attribute [local instance] TextTables.ascii UuidText.crate

end

end Precall.Client.Mock
