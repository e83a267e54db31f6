import Precall.Broker.Frames

namespace Precall.Client

open ByteLib Precall.Proto Precall.Broker

/-!
# The client's graphics encoder

`Connection::send_frame` of `precall-client/src/session.rs` lays its four PDUs out by hand.  The
header it writes is `[cmdId u16][flags u32][pduLength u32]` in front of START, END and ACK, two
bytes wider than the `[cmdId u16][flags u16][pduLength u32]` that `GfxPdu.decode` slices, and
the body of START carries a 64-bit timestamp behind a length of 12.

* `decode_startBytes` — what the decoder makes of the front of the payload, for every input;
* `sendFrame_never_agrees` — hence no frame the client sends decodes to what it meant.
-/

/-- The per-connection counters of `Connection`; a new connection starts them anew. -/
structure Connection where
  seq : UInt64
  frameId : UInt32
  surfaceId : UInt16
  deriving DecidableEq, Repr

/-- The counters `Connection::connect` starts with. -/
def Connection.initial : Connection := { seq := 0, frameId := 0, surfaceId := 1 }

/-- START as `send_frame` writes it. -/
def startBytes (fid : UInt32) (timestamp100ns : UInt64) : Bytes :=
  toLe 2 rdpgfxCmdidStartFrame.toNat ++ toLe 4 0 ++ toLe 4 12 ++ toLe 4 fid.toNat ++
    toLe 8 timestamp100ns.toNat

/-- WIRE_TO_SURFACE_1 as `send_frame` writes it. -/
def surfaceBytes (surfaceId : UInt16) (jpeg : Bytes) (width height : UInt32) : Bytes :=
  let bl : UInt32 := UInt32.ofNat jpeg.length
  let pduLen : UInt32 := 8 + 2 + 2 + 1 + 8 + 4 + bl
  toLe 2 rdpgfxCmdidWiretosurface1.toNat ++ toLe 2 0 ++ toLe 4 pduLen.toNat ++
    (toLe 4 surfaceId.toNat).take 2 ++ toLe 2 rdpgfxCodecidJpeg.toNat ++
    [rdpgfxPixelFormatXrgb8888] ++ toLe 4 0 ++ toLe 4 0 ++ toLe 4 width.toNat ++
    toLe 4 height.toNat ++ toLe 4 bl.toNat ++ jpeg

/-- END as `send_frame` writes it. -/
def endBytes (fid : UInt32) : Bytes :=
  toLe 2 rdpgfxCmdidEndFrame.toNat ++ toLe 4 0 ++ toLe 4 8 ++ toLe 4 fid.toNat

/-- FRAME_ACKNOWLEDGE as `send_frame` writes it. -/
def ackBytes (fid : UInt32) : Bytes :=
  toLe 2 rdpgfxCmdidFrameacknowledge.toNat ++ toLe 4 0 ++ toLe 4 20 ++ toLe 4 0 ++
    toLe 4 fid.toNat ++ toLe 4 1

/-- The `GfxRdp` payload of one frame: START → W2S_1(JPEG) → END → ACK, as the client lays them
    out. -/
def framePayload (surfaceId : UInt16) (fid : UInt32) (jpeg : Bytes) (width height : UInt32)
    (timestamp100ns : UInt64) : Bytes :=
  startBytes fid timestamp100ns ++ surfaceBytes surfaceId jpeg width height ++ endBytes fid ++
    ackBytes fid

/-- `Connection::send_frame` — advances the frame counter and hands one mux frame to the
    transport. -/
def Connection.sendFrame (conn : Connection) (jpeg : Bytes) (width height : UInt32)
    (timestamp100ns : UInt64) : Connection × MuxFrame :=
  let fid := conn.frameId + 1
  ({ conn with frameId := fid },
    ⟨.gfxRdp, framePayload conn.surfaceId fid jpeg width height timestamp100ns⟩)

/-! ### What the decoder makes of the payload -/

/-- The `pduLength` the decoder reads off START: bytes 4..8 are the last two bytes of the wide
    flags field and the first two of the intended length. -/
def misreadLen : Nat := 786432

/-- The frame id the decoder reads off START: two bytes of the intended length, then the low
    half of the intended id. -/
def misreadId (fid : UInt32) : UInt32 := UInt32.ofNat (65536 * (fid.toNat % 65536))

/-- A misread id is never the intended one: it has an empty low half, and is zero when the
    intended id has one too. -/
theorem misreadId_ne {fid : UInt32} (h : fid ≠ 0) : misreadId fid ≠ fid := by
  intro heq
  have hnat : (65536 * (fid.toNat % 65536)) % 2 ^ 32 = fid.toNat := by
    rw [← UInt32.toNat_ofNat', ← misreadId, heq]
  have hpos : fid.toNat ≠ 0 := fun h0 => h (UInt32.toNat_inj.mp h0)
  omega

/-- The bytes of a start marker. -/
theorem length_startBytes (fid : UInt32) (timestamp100ns : UInt64) :
    (startBytes fid timestamp100ns).length = 22 := by
  simp [startBytes]

/-- The first twelve bytes of START. -/
theorem take_startBytes (fid : UInt32) (timestamp100ns : UInt64) (rest : Bytes) :
    (startBytes fid timestamp100ns ++ rest).take 12
      = [0x0b, 0, 0, 0, 0, 0, 12, 0, 0, 0, UInt8.ofNat fid.toNat, UInt8.ofNat (fid.toNat / 256)] :=
  rfl

/-- The four bytes in the place of the frame id spell the misread id, for the client's header is
    two bytes longer than the decoder's. -/
theorem u32Le_misread (fid : UInt32) :
    u32Le [0, 0, UInt8.ofNat fid.toNat, UInt8.ofNat (fid.toNat / 256)] = misreadId fid := by
  have hread : ofLe [0, 0, UInt8.ofNat fid.toNat, UInt8.ofNat (fid.toNat / 256)]
      = 65536 * (fid.toNat % 65536) := by
    simp only [ofLe_cons, ofLe_nil, UInt8.toNat_ofNat', UInt8.toNat_zero]
    omega
  rw [u32Le, hread, misreadId]

/-- **What the decoder makes of the payload.**  The first PDU claims `misreadLen` bytes: a
    shorter payload is reported as truncated, a longer one starts with a frame of the wrong id. -/
theorem decode_startBytes (fid : UInt32) (timestamp100ns : UInt64) (rest : Bytes) :
    let buf := startBytes fid timestamp100ns ++ rest
    if buf.length < misreadLen then GfxPdu.decode buf = fail (.truncated misreadLen buf.length)
    else ∃ t, GfxPdu.decode buf = .ok (.startFrame (misreadId fid) t, misreadLen) := by
  intro buf
  have hlen : buf.length = 22 + rest.length := by simp [buf, length_startBytes]
  have htake : buf.take 12 = _ := take_startBytes fid timestamp100ns rest
  -- the three header slices, read off the first twelve bytes
  have hsub : ∀ {a b : Nat}, b ≤ 12 → (buf.take b).drop a = ((buf.take 12).take b).drop a := by
    intro a b hb
    rw [List.take_take, Nat.min_eq_left hb]
  have hcmd : u16Le ((buf.take 2).drop 0) = rdpgfxCmdidStartFrame := by
    rw [hsub (by omega), htake]; rfl
  have hplen : ofLe ((buf.take 8).drop 4) = misreadLen := by
    rw [hsub (by omega), htake]
    show ofLe [0, 0, 12, 0] = 786432
    decide
  have hdec : GfxPdu.decode buf =
      if buf.length < misreadLen then fail (.truncated misreadLen buf.length)
      else (slice buf headerLen misreadLen >>= fun body =>
        GfxPdu.decodeBody rdpgfxCmdidStartFrame body >>= fun pdu => pure (pdu, misreadLen)) := by
    rw [GfxPdu.decode, if_neg (by unfold headerLen; omega), slice_eq (by omega) (by omega),
      ok_bind, slice_eq (by omega) (by omega), ok_bind]
    simp only [hcmd, hplen]
    rw [if_neg (by decide)]
  split
  · rename_i hshort
    rw [hdec, if_pos hshort]
  · -- long enough: the body of START is cut two bytes early, so its id is the misread one
    rename_i hlong
    rw [hdec, if_neg hlong, slice_eq (by decide) (not_lt.mp hlong), ok_bind]
    generalize hbody : (buf.take misreadLen).drop headerLen = body
    have hblen : body.length = misreadLen - headerLen := by
      rw [← hbody, List.length_drop, List.length_take, Nat.min_eq_left (not_lt.mp hlong)]
    have hid : u32Le ((body.take 4).drop 0) = misreadId fid := by
      rw [← u32Le_misread, List.drop_zero, ← hbody, List.take_drop, List.take_take,
        Nat.min_eq_left (by decide), show headerLen + 4 = 12 from rfl, htake]
      rfl
    have hbig : 8 ≤ body.length := by rw [hblen]; decide
    rw [GfxPdu.decodeBody, if_pos rfl, if_neg (by omega), slice_eq (by omega) (by omega), ok_bind,
      slice_eq (by omega) hbig, ok_bind, pure_bind', hid]
    exact ⟨_, rfl⟩

/-! ### Agreement of the two ends -/

/-- What a frame of the client means to the broker: the payload decodes, with nothing left over,
    to START, WIRE_TO_SURFACE_1, END and ACK of frame `fid`, and the assembler emits the JPEG. -/
def FrameAgrees (fid : UInt32) (jpeg : Bytes) (width height : UInt32) (payload : Bytes) : Prop :=
  (∃ timestamp queueDepth total,
    gfxItems payload =
      [.ok (.startFrame fid timestamp),
        .ok (.wireToSurface1 1 rdpgfxCodecidJpeg rdpgfxPixelFormatXrgb8888
          ⟨0, 0, width.toUInt16.toInt16, height.toUInt16.toInt16⟩ jpeg),
        .ok (.endFrame fid),
        .ok (.frameAcknowledge queueDepth fid total)]) ∧
  (FrameAssembler.new.feedAll (okPdus (gfxItems payload))).2 = [⟨rdpgfxCodecidJpeg, jpeg⟩]

/-- **No frame the client sends decodes to what it meant**: the first item is an error or a
    START of another frame. -/
theorem sendFrame_never_agrees (conn : Connection) (jpeg : Bytes) (width height : UInt32)
    (timestamp100ns : UInt64) (hctr : conn.frameId.toNat < 2 ^ 32 - 1) :
    ¬ FrameAgrees (conn.frameId + 1) jpeg width height
        (conn.sendFrame jpeg width height timestamp100ns).2.payload := by
  rintro ⟨⟨t, q, n, hitems⟩, -⟩
  have hne : conn.frameId + 1 ≠ 0 := by
    intro h
    have hnat := congrArg UInt32.toNat h
    rw [UInt32.toNat_add] at hnat
    simp only [UInt32.toNat_one, UInt32.toNat_zero] at hnat
    omega
  have hpay : ∃ rest, (conn.sendFrame jpeg width height timestamp100ns).2.payload
      = startBytes (conn.frameId + 1) timestamp100ns ++ rest :=
    ⟨surfaceBytes conn.surfaceId jpeg width height ++
      (endBytes (conn.frameId + 1) ++ ackBytes (conn.frameId + 1)), by
        simp only [Connection.sendFrame, framePayload, List.append_assoc]⟩
  obtain ⟨rest, hpay⟩ := hpay
  rw [hpay] at hitems
  have hnonempty : startBytes (conn.frameId + 1) timestamp100ns ++ rest ≠ [] := by
    intro h
    have hlen := congrArg List.length h
    simp [length_startBytes] at hlen
  -- whatever the first item is, it is not START of the frame that was sent
  have hhead := gfxItems_head hnonempty
  rw [hitems, List.head?_cons, Option.some.injEq] at hhead
  have hdec := decode_startBytes (conn.frameId + 1) timestamp100ns rest
  dsimp only at hdec
  split at hdec
  · rw [hdec] at hhead
    cases hhead
  · obtain ⟨t', hdec⟩ := hdec
    rw [hdec] at hhead
    exact misreadId_ne hne (GfxPdu.startFrame.inj (Except.ok.inj hhead)).1.symm

/-- A four-byte JPEG sent as the first frame of a 1×1 desktop. -/
theorem sendFrame_never_agrees_tiny :
    ¬ FrameAgrees 1 [0xff, 0xd8, 0xff, 0xd9] 1 1
        (Connection.initial.sendFrame [0xff, 0xd8, 0xff, 0xd9] 1 1 0).2.payload :=
  sendFrame_never_agrees Connection.initial [0xff, 0xd8, 0xff, 0xd9] 1 1 0 (by decide)

/-- The same frame, run through the decoder: one item, an error. -/
theorem sendFrame_tiny_truncated :
    (Connection.initial.sendFrame [0xff, 0xd8, 0xff, 0xd9] 1 1 0).2.payload.length ≤ maxMuxPayload ∧
    gfxItems (Connection.initial.sendFrame [0xff, 0xd8, 0xff, 0xd9] 1 1 0).2.payload
      = [fail (.truncated 786432 95)] ∧
    ¬ FrameAgrees 1 [0xff, 0xd8, 0xff, 0xd9] 1 1
        (Connection.initial.sendFrame [0xff, 0xd8, 0xff, 0xd9] 1 1 0).2.payload := by
  have hitems : gfxItems (Connection.initial.sendFrame [0xff, 0xd8, 0xff, 0xd9] 1 1 0).2.payload
      = [fail (.truncated 786432 95)] := by decide
  refine ⟨by decide, hitems, ?_⟩
  rintro ⟨⟨t, q, n, hagree⟩, -⟩
  rw [hitems] at hagree
  cases hagree

end Precall.Client
