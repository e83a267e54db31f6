import Precall.Proto.Codec

namespace Precall.Broker

open ByteLib Precall.Proto

/-!
# Frame assembly and the pending queue

The graphics half of `precall-broker/src/ingest.rs`:

* `FrameAssembler` — START/W2S*/END state; `finish` turns the regions of the open frame into
  one `PendingFrame`;
* `pushPending` — the bounded queue of finished frames, which drops its oldest entry at 64;
* `handleGfx` — the dispatch loop over one `GfxRdp` payload.

`handleGfx_ok` is the specification the rest of the broker uses: a payload without a decoding
error feeds its PDUs to the assembler and pushes, in order, the frames that come out.
-/

/-- One finished frame awaiting its metadata record: the codec of the frame and its bytes. -/
structure PendingFrame where
  codecId : UInt16
  data : Bytes
  deriving DecidableEq, Repr

/-- Accumulates START/W2S*/END state: the frame that is open, if any, and the regions it has so
    far. -/
structure FrameAssembler where
  currentId : Option UInt32
  timestamp : UInt32
  regions : List (UInt16 × Rect × Bytes)
  deriving DecidableEq, Repr

namespace FrameAssembler

/-- `FrameAssembler::default`: no frame is open. -/
def new : FrameAssembler := { currentId := none, timestamp := 0, regions := [] }

/-- `START_FRAME`: a frame is open from here on, and the regions of one that was not ended are
    dropped. -/
def begin (frames : FrameAssembler) (frameId timestamp : UInt32) : FrameAssembler :=
  { frames with currentId := some frameId, timestamp := timestamp, regions := [] }

/-- `WIRE_TO_SURFACE_1`: a region counts if a frame is open, and is lost otherwise. -/
def region (frames : FrameAssembler) (codecId : UInt16) (rect : Rect) (data : Bytes) :
    FrameAssembler :=
  if frames.currentId.isSome then
    { frames with regions := frames.regions ++ [(codecId, rect, data)] }
  else frames

/-- The bytes a multi-region frame keeps of one region: rectangle, length and payload. -/
def regionBytes (r : UInt16 × Rect × Bytes) : Bytes :=
  i16ToLe r.2.1.left ++ i16ToLe r.2.1.top ++ i16ToLe r.2.1.right ++ i16ToLe r.2.1.bottom ++
    toLe 4 r.2.2.length ++ r.2.2

/-- Single-region frames yield the region's bytes verbatim; any other number of regions yields
    the concatenated region payloads under the last region's codec. -/
def assemble : List (UInt16 × Rect × Bytes) → PendingFrame
  | [(codecId, _, data)] => ⟨codecId, data⟩
  | regions =>
      ⟨regions.foldl (fun _ r => r.1) rdpgfxCodecidUncompressed, regions.flatMap regionBytes⟩

/-- Close frame `frameId`, which then comes out with the regions it has; nothing happens unless
    it is the open one. -/
def finish (frames : FrameAssembler) (frameId : UInt32) : FrameAssembler × Option PendingFrame :=
  if frames.currentId ≠ some frameId then (frames, none)
  else ({ frames with currentId := none, regions := [] }, some (assemble frames.regions))

/-- The dispatch of one PDU in `handle_gfx`; acknowledgements are ignored, and at most one frame
    comes out. -/
def feed (frames : FrameAssembler) : GfxPdu → FrameAssembler × Option PendingFrame
  | .startFrame frameId timestamp => (frames.begin frameId timestamp, none)
  | .wireToSurface1 _ codecId _ destRect bitmapData =>
      (frames.region codecId destRect bitmapData, none)
  | .endFrame frameId => frames.finish frameId
  | .frameAcknowledge .. => (frames, none)

/-- Feed a list of PDUs and collect the frames that come out, in order. -/
def feedAll (frames : FrameAssembler) : List GfxPdu → FrameAssembler × List PendingFrame
  | [] => (frames, [])
  | pdu :: pdus =>
      let (frames', done) := frames.feed pdu
      let (frames'', rest) := frames'.feedAll pdus
      (frames'', done.toList ++ rest)

end FrameAssembler

/-! ### The pending queue -/

/-- Capacity of the queue of finished frames: what waits longer than for 64 frames is lost. -/
def pendingCap : Nat := 64

/-- Append a finished frame, dropping the oldest entry of a full queue. -/
def pushPending {α : Type} (pending : List α) (done : α) : List α :=
  (if pending.length ≥ pendingCap then pending.tail else pending) ++ [done]

/-- Where there is room a frame joins the queue. -/
theorem pushPending_of_lt {α : Type} {pending : List α} (done : α)
    (h : pending.length < pendingCap) : pushPending pending done = pending ++ [done] := by
  rw [pushPending, if_neg (by omega)]

/-- How long the queue is after a push: where it is full the oldest makes room, so it is never
    longer than its cap. -/
theorem length_pushPending {α : Type} (pending : List α) (done : α) :
    (pushPending pending done).length
      = (if pending.length ≥ pendingCap then pending.length - 1 else pending.length) + 1 := by
  unfold pushPending
  split <;> simp

/-- A queue that is the tail end of a history stays one when both grow by the same entry. -/
theorem pushPending_suffix {α : Type} {pending history : List α} (done : α)
    (h : pending <:+ history) : pushPending pending done <:+ history ++ [done] := by
  have htail : (if pending.length ≥ pendingCap then pending.tail else pending) <:+ history := by
    split
    · exact (List.tail_suffix pending).trans h
    · exact h
  obtain ⟨front, hfront⟩ := htail
  exact ⟨front, by rw [pushPending, ← List.append_assoc, hfront]⟩

/-- Nothing is dropped while the queue has room. -/
theorem foldl_pushPending_of_le {α : Type} {pending dones : List α}
    (h : pending.length + dones.length ≤ pendingCap) :
    dones.foldl pushPending pending = pending ++ dones := by
  induction dones generalizing pending with
  | nil => simp
  | cons d ds ih =>
    rw [List.length_cons] at h
    rw [List.foldl_cons, pushPending_of_lt d (by omega), ih (by simp; omega)]
    simp

/-- The suffix invariant survives any number of pushes. -/
theorem foldl_pushPending_suffix {α : Type} {pending history : List α} (dones : List α)
    (h : pending <:+ history) : dones.foldl pushPending pending <:+ history ++ dones := by
  induction dones generalizing pending history with
  | nil => simpa using h
  | cons d ds ih =>
    have hsplit : history ++ d :: ds = (history ++ [d]) ++ ds := by simp
    rw [List.foldl_cons, hsplit]
    exact ih (pushPending_suffix d h)

/-! ### `handle_gfx` -/

/-- Why a session ended. -/
inductive BrokerError where
  | proto (fault : Fault ProtoError)
  | json
  deriving DecidableEq, Repr

/-- One finished frame, if any, joins the queue. -/
def enqueue {α : Type} (pending : List α) : Option α → List α
  | none => pending
  | some done => pushPending pending done

/-- The loop of `handle_gfx` over the decoded items; the first error ends the session, with all
    that was pending. -/
def handleItems (frames : FrameAssembler) (pending : List PendingFrame) :
    List GfxItem → Except BrokerError (FrameAssembler × List PendingFrame)
  | [] => .ok (frames, pending)
  | .error e :: _ => .error (.proto e)
  | .ok pdu :: items =>
      let (frames', done) := frames.feed pdu
      handleItems frames' (enqueue pending done) items

/-- `Broker::handle_gfx` — parse one payload; completed frames join the pending queue in their
    order. -/
def handleGfx (payload : Bytes) (frames : FrameAssembler) (pending : List PendingFrame) :
    Except BrokerError (FrameAssembler × List PendingFrame) :=
  handleItems frames pending (gfxItems payload)

/-- The PDUs in front of the first decoding error, all that the session sees of a payload. -/
def okPdus : List GfxItem → List GfxPdu
  | .ok pdu :: items => pdu :: okPdus items
  | _ => []

/-- What one PDU puts out joins the queue before what the others do. -/
theorem foldl_enqueue {α : Type} (pending : List α) (done : Option α) (rest : List α) :
    (done.toList ++ rest).foldl pushPending pending
      = rest.foldl pushPending (enqueue pending done) := by
  cases done <;> rfl

/-- A payload that is handled to its end consists of PDUs: they are fed to the assembler in
    order, and what comes out joins the queue. -/
theorem handleItems_ok {frames frames' : FrameAssembler} {pending pending' : List PendingFrame}
    {items : List GfxItem} (h : handleItems frames pending items = .ok (frames', pending')) :
    frames' = (frames.feedAll (okPdus items)).1 ∧
      pending' = (frames.feedAll (okPdus items)).2.foldl pushPending pending := by
  induction items generalizing frames pending with
  | nil =>
    cases h
    exact ⟨rfl, rfl⟩
  | cons item items ih =>
    cases item with
    | error e => cases h
    | ok pdu =>
      have hrec := ih h
      simp only [okPdus, FrameAssembler.feedAll, foldl_enqueue]
      exact hrec

/-- **Specification of `handle_gfx`.**  A payload that ends without error feeds its PDUs to the
    assembler and pushes the frames that come out. -/
theorem handleGfx_ok {payload : Bytes} {frames frames' : FrameAssembler}
    {pending pending' : List PendingFrame}
    (h : handleGfx payload frames pending = .ok (frames', pending')) :
    frames' = (frames.feedAll (okPdus (gfxItems payload))).1 ∧
      pending' = (frames.feedAll (okPdus (gfxItems payload))).2.foldl pushPending pending :=
  handleItems_ok h

end Precall.Broker
