import Precall.Lib.Bytes

namespace Precall.Proto

open ByteLib

/-!
# RDPGFX-compatible graphics PDUs

The codec of `precall-proto/src/gfx.rs`: an 8-byte header `[cmdId u16][flags u16][pduLength u32]`
in front of a body per command.

* `GfxPdu.encode` — the shared encoder (the mock client's);
* `GfxPdu.decode` — one PDU off the front of a buffer and the number of bytes it took;
* `GfxPduIter.next` / `gfxItems` — the iterator the broker drives over one mux payload.

Slices are checked (`ByteLib.slice`), so a panic of the source is a value of the model.
-/

/-- `ProtoError` — the errors the wire codecs return.  The graphics channel and the mux layer
    share the type. -/
inductive ProtoError where
  | truncated (needed had : Nat)
  | unknownCmdId (cmdId : UInt16)
  | unknownChannel (raw : UInt8)
  | malformed (what : String)
  | payloadTooLarge (len : Nat)
  deriving DecidableEq, Repr

/-! ### Command, codec and pixel-format ids -/

/-- Command id of a PDU that carries the pixels of a region. -/
def rdpgfxCmdidWiretosurface1 : UInt16 := 0x0001

/-- Command id of the PDU that opens a frame. -/
def rdpgfxCmdidStartFrame : UInt16 := 0x000b

/-- Command id of the PDU that ends a frame. -/
def rdpgfxCmdidEndFrame : UInt16 := 0x000c

/-- Command id of the receiver's acknowledgement, the one PDU that goes the other way. -/
def rdpgfxCmdidFrameacknowledge : UInt16 := 0x000d

/-- Codec id of plain pixels. -/
def rdpgfxCodecidUncompressed : UInt16 := 0x0000

/-- Precall vendor extension: a self-contained JPEG still image. -/
def rdpgfxCodecidJpeg : UInt16 := 0x00f1

/-- The pixel format of a client: 32 bits, no transparency. -/
def rdpgfxPixelFormatXrgb8888 : UInt8 := 0x20

/-- Length of the RDPGFX header: the command id, the flags and the length of the whole PDU. -/
def headerLen : Nat := 8

/-! ### PDUs -/

/-- A rectangle in desktop coordinates (`RECT16`).  The corners are signed; a monitor may lie
    left of the origin. -/
structure Rect where
  left : Int16
  top : Int16
  right : Int16
  bottom : Int16
  deriving DecidableEq, Repr

/-- A decoded RDPGFX PDU. Four commands of the protocol are used; the decoder fails on any other. -/
inductive GfxPdu where
  | startFrame (frameId timestamp : UInt32)
  | endFrame (frameId : UInt32)
  | wireToSurface1 (surfaceId codecId : UInt16) (pixelFormat : UInt8) (destRect : Rect)
      (bitmapData : Bytes)
  | frameAcknowledge (queueDepth frameId totalFramesDecoded : UInt32)
  deriving DecidableEq, Repr

/-- `u16::from_le_bytes`. -/
def u16Le (bs : Bytes) : UInt16 := UInt16.ofNat (ofLe bs)

/-- `u32::from_le_bytes`. -/
def u32Le (bs : Bytes) : UInt32 := UInt32.ofNat (ofLe bs)

/-- `i16::from_le_bytes`. -/
def i16Le (bs : Bytes) : Int16 := (u16Le bs).toInt16

/-- `i16::to_le_bytes`. -/
def i16ToLe (x : Int16) : Bytes := toLe 2 x.toUInt16.toNat

namespace GfxPdu

/-- The command id of a PDU. -/
def cmdId : GfxPdu → UInt16
  | startFrame .. => rdpgfxCmdidStartFrame
  | endFrame .. => rdpgfxCmdidEndFrame
  | wireToSurface1 .. => rdpgfxCmdidWiretosurface1
  | frameAcknowledge .. => rdpgfxCmdidFrameacknowledge

/-- The body `encode` writes after the header, with its fields in little-endian order. -/
def encodeBody : GfxPdu → Bytes
  | startFrame frameId timestamp => toLe 4 frameId.toNat ++ toLe 4 timestamp.toNat
  | endFrame frameId => toLe 4 frameId.toNat
  | wireToSurface1 surfaceId codecId pixelFormat destRect bitmapData =>
      toLe 2 surfaceId.toNat ++ toLe 2 codecId.toNat ++ [pixelFormat] ++
        i16ToLe destRect.left ++ i16ToLe destRect.top ++ i16ToLe destRect.right ++
        i16ToLe destRect.bottom ++ toLe 4 bitmapData.length ++ bitmapData
  | frameAcknowledge queueDepth frameId totalFramesDecoded =>
      toLe 4 queueDepth.toNat ++ toLe 4 frameId.toNat ++ toLe 4 totalFramesDecoded.toNat

/-- Serialize to the wire (8-byte RDPGFX header + body).  The length field is cut to 32 bits, as
    the source's cast does. -/
def encode (pdu : GfxPdu) : Bytes :=
  toLe 2 pdu.cmdId.toNat ++ toLe 2 0 ++ toLe 4 (headerLen + pdu.encodeBody.length) ++
    pdu.encodeBody

/-- `GfxPdu::encoded_len` — the bytes `encode` writes.  The source computes it from the fields,
    without building the bytes. -/
def encodedLen (pdu : GfxPdu) : Nat :=
  headerLen + match pdu with
    | startFrame .. => 8
    | endFrame .. => 4
    | wireToSurface1 _ _ _ _ bitmapData => 17 + bitmapData.length
    | frameAcknowledge .. => 12

/-- The body of `decode` for command `cmdId`: the field reads behind each length check.  A body
    longer than its fields is accepted and the rest of it ignored. -/
def decodeBody (cmdId : UInt16) (body : Bytes) : Exec ProtoError GfxPdu :=
  if cmdId = rdpgfxCmdidStartFrame then
    if body.length < 8 then fail (.malformed "START_FRAME body too short") else do
      let frameId ← slice body 0 4
      let timestamp ← slice body 4 8
      pure (startFrame (u32Le frameId) (u32Le timestamp))
  else if cmdId = rdpgfxCmdidEndFrame then
    if body.length < 4 then fail (.malformed "END_FRAME body too short") else do
      let frameId ← slice body 0 4
      pure (endFrame (u32Le frameId))
  else if cmdId = rdpgfxCmdidWiretosurface1 then
    if body.length < 17 then fail (.malformed "WIRE_TO_SURFACE_1 body too short") else do
      let bitmapLen ← slice body 13 17
      let bitmapLen := ofLe bitmapLen
      if body.length < 17 + bitmapLen then
        fail (.malformed "WIRE_TO_SURFACE_1 bitmap truncated")
      else do
        let surfaceId ← slice body 0 2
        let codecId ← slice body 2 4
        let pixelFormat ← slice body 4 5
        let left ← slice body 5 7
        let top ← slice body 7 9
        let right ← slice body 9 11
        let bottom ← slice body 11 13
        let bitmapData ← slice body 17 (17 + bitmapLen)
        pure (wireToSurface1 (u16Le surfaceId) (u16Le codecId) (UInt8.ofNat (ofLe pixelFormat))
          ⟨i16Le left, i16Le top, i16Le right, i16Le bottom⟩ bitmapData)
  else if cmdId = rdpgfxCmdidFrameacknowledge then
    if body.length < 12 then fail (.malformed "FRAME_ACK body too short") else do
      let queueDepth ← slice body 0 4
      let frameId ← slice body 4 8
      let totalFramesDecoded ← slice body 8 12
      pure (frameAcknowledge (u32Le queueDepth) (u32Le frameId) (u32Le totalFramesDecoded))
  else
    fail (.unknownCmdId cmdId)

/-- Decode exactly one PDU from the front of `buf`; returns the PDU and the bytes consumed, or
    the first check that failed. -/
def decode (buf : Bytes) : Exec ProtoError (GfxPdu × Nat) :=
  if buf.length < headerLen then fail (.truncated headerLen buf.length) else do
    let cmdId ← slice buf 0 2
    let pduLen ← slice buf 4 8
    let pduLen := ofLe pduLen
    if pduLen < headerLen then fail (.malformed "pduLength shorter than header")
    else if buf.length < pduLen then fail (.truncated pduLen buf.length)
    else do
      let body ← slice buf headerLen pduLen
      let pdu ← decodeBody (u16Le cmdId) body
      pure (pdu, pduLen)

end GfxPdu

/-! ### The iterator -/

/-- One item of the iterator: a PDU, or the error that ends it. -/
abbrev GfxItem := Exec ProtoError GfxPdu

/-- `GfxPduIter::next` on the unread rest: `none` at the end, otherwise the item and the new
    rest (empty after an error). -/
def GfxPduIter.next (rest : Bytes) : Option (GfxItem × Bytes) :=
  if rest = [] then none
  else match GfxPdu.decode rest with
    | .ok (pdu, consumed) => some (.ok pdu, rest.drop consumed)
    | .error e => some (.error e, [])

/-- The items of at most `fuel` calls of `next`.  Each call that yields a PDU consumes at least a
    header, so the length of the buffer is fuel enough. -/
def GfxPduIter.drain : Nat → Bytes → List GfxItem
  | 0, _ => []
  | fuel + 1, rest =>
      match GfxPduIter.next rest with
      | none => []
      | some (item, rest') => item :: GfxPduIter.drain fuel rest'

/-- Everything a `GfxPduIter` over `buf` yields.  Each call consumes at least one byte or ends
    the iteration, so `buf.length` calls reach the end (`drain_of_length_le`). -/
def gfxItems (buf : Bytes) : List GfxItem := GfxPduIter.drain buf.length buf

/-- A decoded PDU is at least a header and at most the buffer.  The first half makes the iterator
    end, the second keeps its slices in range. -/
theorem GfxPdu.decode_consumed {buf : Bytes} {pdu : GfxPdu} {n : Nat}
    (h : GfxPdu.decode buf = .ok (pdu, n)) : headerLen ≤ n ∧ n ≤ buf.length := by
  unfold GfxPdu.decode at h
  split at h
  · cases h
  · rename_i hlen
    have hlen' : headerLen ≤ buf.length := not_lt.mp hlen
    rw [slice_eq (by omega) (by unfold headerLen at hlen'; omega), ok_bind,
      slice_eq (by omega) (by unfold headerLen at hlen'; omega), ok_bind] at h
    dsimp only at h
    split at h
    · cases h
    · split at h
      · cases h
      · rename_i hlo hhi
        rw [slice_eq (not_lt.mp hlo) (not_lt.mp hhi), ok_bind] at h
        cases hbody : GfxPdu.decodeBody (u16Le ((buf.take 2).drop 0))
            ((buf.take (ofLe ((buf.take 8).drop 4))).drop headerLen) with
        | error e => rw [hbody] at h; cases h
        | ok p =>
          rw [hbody] at h
          cases h
          exact ⟨not_lt.mp hlo, not_lt.mp hhi⟩

/-- Extra fuel changes nothing once it covers the buffer, by induction on the fuel; each PDU
    takes a header off the rest. -/
theorem GfxPduIter.drain_of_length_le {fuel : Nat} {rest : Bytes} (h : rest.length ≤ fuel) :
    GfxPduIter.drain fuel rest = gfxItems rest := by
  have key : ∀ n m, ∀ rest : Bytes, rest.length ≤ n → rest.length ≤ m →
      GfxPduIter.drain n rest = GfxPduIter.drain m rest := by
    intro n
    induction n with
    | zero =>
      intro m rest hn _
      obtain rfl : rest = [] := List.length_eq_zero_iff.mp (Nat.le_zero.mp hn)
      cases m <;> simp [GfxPduIter.drain, GfxPduIter.next]
    | succ n ih =>
      intro m rest hn hm
      cases m with
      | zero =>
        obtain rfl : rest = [] := List.length_eq_zero_iff.mp (Nat.le_zero.mp hm)
        simp [GfxPduIter.drain, GfxPduIter.next]
      | succ m =>
        unfold GfxPduIter.drain GfxPduIter.next
        by_cases hnil : rest = []
        · simp [hnil]
        · rw [if_neg hnil]
          cases hdec : GfxPdu.decode rest with
          | error e => simp only [ih m [] (Nat.zero_le _) (Nat.zero_le _)]
          | ok p =>
            -- a decoded PDU consumes at least its header, so the rest fits the smaller fuel
            obtain ⟨pdu, consumed⟩ := p
            have hc := GfxPdu.decode_consumed hdec
            unfold headerLen at hc
            have hdrop : (rest.drop consumed).length = rest.length - consumed := List.length_drop
            simp only [ih m (rest.drop consumed) (by omega) (by omega)]
  exact key fuel rest.length rest h le_rfl

/-- The first item of a non-empty buffer is the decoding of its front.  The items behind it are
    those of the bytes it leaves. -/
theorem gfxItems_head {buf : Bytes} (hne : buf ≠ []) :
    (gfxItems buf).head? = some ((GfxPdu.decode buf).map Prod.fst) := by
  obtain ⟨b, bs, rfl⟩ := List.exists_cons_of_ne_nil hne
  unfold gfxItems
  rw [List.length_cons, GfxPduIter.drain, GfxPduIter.next, if_neg (List.cons_ne_nil b bs)]
  cases hdec : GfxPdu.decode (b :: bs) with
  | error e => rfl
  | ok p => rfl

end Precall.Proto
