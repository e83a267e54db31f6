import Precall.Lib.Incremental
import Precall.Proto.Gfx

namespace Precall.Proto

open ByteLib Incremental

/-!
# Multiplexed virtual channels

The channel ids of `precall-proto/src/channel.rs` and the mux frame of `codec.rs`:
`[channel u8][length u32][payload]`, payloads capped at `maxMuxPayload`.

* `MuxCodec.encode` / `MuxCodec.decode` — one frame onto the wire, and one off the front of the
  receive buffer;
* `MuxCodec.decode_lawful` — what `decode` finds in a buffer it finds in every longer one, and it
  consumes nothing else, so the incremental reader of `Lib.Incremental` applies to it;
* `MuxCodec.framing_of_any_cut` — frames, errors and leftover bytes are the same however a stream
  arrives, and the frames that were encoded come back.
-/

/-- `MAX_MUX_PAYLOAD` — cap on a single muxed channel payload (16 MiB).  Both directions check
    it: the encoder on the payload, the decoder on the length field. -/
def maxMuxPayload : Nat := 16 * 1024 * 1024

/-- Virtual channel identifiers on the multiplexed TLS stream.  One TCP connection carries them
    all, in frames that name their channel. -/
inductive ChannelId where
  | gfxRdp
  | pcMeta
  | pcAudio
  | pcCtrl
  | pcQuery
  deriving DecidableEq, Repr

/-- The one-byte identifier of a channel. -/
def ChannelId.toU8 : ChannelId → UInt8
  | .gfxRdp => 0x01
  | .pcMeta => 0x02
  | .pcAudio => 0x03
  | .pcCtrl => 0x04
  | .pcQuery => 0x05

/-- `ChannelId::from_u8` — `none` on a byte that no channel has, which the decoder reports as an
    unknown channel. -/
def ChannelId.fromU8 (v : UInt8) : Option ChannelId :=
  if v = 0x01 then some .gfxRdp
  else if v = 0x02 then some .pcMeta
  else if v = 0x03 then some .pcAudio
  else if v = 0x04 then some .pcCtrl
  else if v = 0x05 then some .pcQuery
  else none

/-- A channel is read back from its number, so the decoder finds every frame that was encoded on
    the channel it was written for. -/
@[simp] theorem ChannelId.fromU8_toU8 (c : ChannelId) : fromU8 c.toU8 = some c := by
  cases c <;> decide

/-- One channel PDU on the multiplexed stream.  The payload is opaque here; each channel has its
    own codec for it. -/
structure MuxFrame where
  channel : ChannelId
  payload : Bytes
  deriving DecidableEq, Repr

/-- `MuxCodec::encode` — one frame onto the wire; refuses a payload over the cap and then writes
    nothing. -/
def MuxCodec.encode (item : MuxFrame) : Except ProtoError Bytes :=
  if item.payload.length > maxMuxPayload then .error (.payloadTooLarge item.payload.length)
  else .ok (item.channel.toU8 :: toLe 4 item.payload.length ++ item.payload)

/-! ### Decoding -/

/-- Length of the mux header. -/
def muxHeaderLen : Nat := 5

/-- The length field of a mux header: `u32::from_le_bytes([src[1], .., src[4]])`.  It is looked
    at only once the five bytes of the header are there. -/
def muxLen (src : Bytes) : Nat := ofLe ((src.take 5).drop 1)

/-- `MuxCodec::decode` — `none` asks for more bytes; the second component is the receive buffer
    afterwards. -/
def MuxCodec.decode (src : Bytes) : Except ProtoError (Option MuxFrame) × Bytes :=
  if src.length < muxHeaderLen then (.ok none, src)
  else
    let channelRaw := src.headD 0
    let len := muxLen src
    if len > maxMuxPayload then (.error (.payloadTooLarge len), src)
    else if src.length < muxHeaderLen + len then (.ok none, src)
    else match ChannelId.fromU8 channelRaw with
      | none => (.error (.unknownChannel channelRaw), src)
      | some channel =>
          let src := src.drop muxHeaderLen
          (.ok (some ⟨channel, src.take len⟩), src.drop len)

namespace MuxCodec

/-- **When a frame comes off the buffer**, and which: header and payload are there, the length is
    within the cap and the channel is known. -/
theorem decode_eq_frame {src rest : Bytes} {frame : MuxFrame} :
    decode src = (.ok (some frame), rest) ↔
      muxHeaderLen + muxLen src ≤ src.length ∧ muxLen src ≤ maxMuxPayload ∧
      ChannelId.fromU8 (src.headD 0) = some frame.channel ∧
      frame.payload = (src.drop muxHeaderLen).take (muxLen src) ∧
      rest = (src.drop muxHeaderLen).drop (muxLen src) := by
  obtain ⟨channel, payload⟩ := frame
  unfold decode
  by_cases hhead : src.length < muxHeaderLen
  · rw [if_pos hhead]
    simp only [Prod.mk.injEq, Except.ok.injEq, reduceCtorEq, false_and, false_iff]
    omega
  by_cases hcap : muxLen src > maxMuxPayload
  · simp only [if_neg hhead, if_pos hcap, Prod.mk.injEq, reduceCtorEq, false_and, false_iff]
    omega
  by_cases hbody : src.length < muxHeaderLen + muxLen src
  · simp only [if_neg hhead, if_neg hcap, if_pos hbody, Prod.mk.injEq, Except.ok.injEq,
      reduceCtorEq, false_and, false_iff]
    omega
  simp only [if_neg hhead, if_neg hcap, if_neg hbody, not_lt.mp hcap, not_lt.mp hbody, true_and]
  cases ChannelId.fromU8 (src.headD 0) with
  | none => simp
  | some c => simp [eq_comm, and_assoc]

/-- **When `decode` fails**: on a length over the cap as soon as the header is there, on an unknown
    channel once the payload is.  The buffer stays as it was. -/
theorem decode_eq_error {src rest : Bytes} {e : ProtoError} :
    decode src = (.error e, rest) ↔ rest = src ∧
      ((muxHeaderLen ≤ src.length ∧ maxMuxPayload < muxLen src ∧
          e = .payloadTooLarge (muxLen src)) ∨
       (muxHeaderLen + muxLen src ≤ src.length ∧ muxLen src ≤ maxMuxPayload ∧
          ChannelId.fromU8 (src.headD 0) = none ∧ e = .unknownChannel (src.headD 0))) := by
  unfold decode
  by_cases hhead : src.length < muxHeaderLen
  · rw [if_pos hhead]
    simp only [Prod.mk.injEq, reduceCtorEq, false_and, false_iff]
    omega
  by_cases hcap : muxLen src > maxMuxPayload
  · have hcap' : ¬ muxLen src ≤ maxMuxPayload := not_le.mpr hcap
    rw [if_neg hhead]
    dsimp only
    rw [if_pos hcap]
    simp only [Prod.mk.injEq, Except.error.injEq, not_lt.mp hhead, hcap', gt_iff_lt.mp hcap,
      true_and, false_and, and_false, or_false]
    rw [and_comm, eq_comm (a := src), eq_comm (b := e)]
  by_cases hbody : src.length < muxHeaderLen + muxLen src
  · simp only [if_neg hhead, if_neg hcap, if_pos hbody, Prod.mk.injEq, reduceCtorEq, false_and,
      false_iff]
    omega
  have hcap' : ¬ maxMuxPayload < muxLen src := hcap
  simp only [if_neg hhead, if_neg hbody, not_lt.mp hcap, not_lt.mp hbody, true_and,
    hcap', false_and, and_false, false_or]
  cases ChannelId.fromU8 (src.headD 0) with
  | none => simp [eq_comm, and_comm]
  | some c => simp

/-- A request for more leaves the buffer as it was, so that the next read only appends to what
    has arrived. -/
theorem decode_eq_none {src rest : Bytes} (h : decode src = (.ok none, rest)) : rest = src := by
  unfold decode at h
  by_cases hhead : src.length < muxHeaderLen
  · rw [if_pos hhead] at h
    exact (Prod.mk.inj h).2.symm
  by_cases hcap : muxLen src > maxMuxPayload
  · simp [if_neg hhead, if_pos hcap] at h
  by_cases hbody : src.length < muxHeaderLen + muxLen src
  · simp only [if_neg hhead, if_neg hcap, if_pos hbody] at h
    exact (Prod.mk.inj h).2.symm
  simp only [if_neg hhead, if_neg hcap, if_neg hbody] at h
  cases hraw : ChannelId.fromU8 (src.headD 0) with
  | none => rw [hraw] at h; cases h
  | some channel => rw [hraw] at h; cases h

/-- Bytes that arrive later change neither the channel byte nor the length field of a header.
    Every step of the decoder on a longer buffer starts from this. -/
theorem header_append {src : Bytes} (hhead : muxHeaderLen ≤ src.length) (more : Bytes) :
    (src ++ more).headD 0 = src.headD 0 ∧ muxLen (src ++ more) = muxLen src := by
  unfold muxHeaderLen at hhead
  constructor
  · cases src with
    | nil => simp at hhead
    | cons b bs => rfl
  · unfold muxLen
    rw [List.take_append_of_le_length hhead]

/-- **What `decode` finds in a buffer it finds in every longer one**, a frame takes at least its
    header, and neither a request for more nor an error consumes anything. -/
theorem decode_lawful : Lawful decode where
  nil := rfl
  item_append := by
    intro src rest frame more hdec
    obtain ⟨hbody, hcap, hchan, hpay, rfl⟩ := decode_eq_frame.mp hdec
    have hhead : muxHeaderLen ≤ src.length := le_trans (Nat.le_add_right _ _) hbody
    obtain ⟨hbyte, hlen⟩ := header_append hhead more
    have hdrop : (src ++ more).drop muxHeaderLen = src.drop muxHeaderLen ++ more :=
      List.drop_append_of_le_length hhead
    have hfits : muxLen src ≤ (src.drop muxHeaderLen).length := by
      rw [List.length_drop]
      omega
    rw [decode_eq_frame, hbyte, hlen, hdrop, List.take_append_of_le_length hfits,
      List.drop_append_of_le_length hfits, List.length_append]
    exact ⟨by omega, hcap, hchan, hpay, rfl⟩
  item_shorter := by
    intro src rest frame hdec
    obtain ⟨hbody, -, -, -, rfl⟩ := decode_eq_frame.mp hdec
    have hpos : 0 < muxHeaderLen := by decide
    rw [List.length_drop, List.length_drop]
    omega
  none_keeps := decode_eq_none
  error_append := by
    intro src rest e more hdec
    obtain ⟨rfl, hwhy⟩ := decode_eq_error.mp hdec
    have hhead : muxHeaderLen ≤ rest.length := by omega
    obtain ⟨hbyte, hlen⟩ := header_append hhead more
    refine ⟨rfl, decode_eq_error.mpr ⟨rfl, ?_⟩⟩
    rw [hbyte, hlen, List.length_append]
    rcases hwhy with ⟨-, hcap, he⟩ | ⟨hbody, hcap, hchan, he⟩
    · exact .inl ⟨by omega, hcap, he⟩
    · exact .inr ⟨by omega, hcap, hchan, he⟩

/-! ### A stream of frames -/

/-- The bytes of one frame, as `encode` writes them when the payload is within the cap.  A stream
    is the concatenation of these. -/
def wire (item : MuxFrame) : Bytes :=
  item.channel.toU8 :: toLe 4 item.payload.length ++ item.payload

/-- Encode frames in order onto one buffer. -/
def encodeAll : List MuxFrame → Except ProtoError Bytes
  | [] => .ok []
  | item :: items => do
      let dst ← encode item
      let rest ← encodeAll items
      pure (dst ++ rest)

/-- Frames whose payloads are not too large are all written, one after the other, and nothing
    stands between them. -/
theorem encodeAll_of_le {items : List MuxFrame}
    (h : ∀ item ∈ items, item.payload.length ≤ maxMuxPayload) :
    encodeAll items = .ok (items.flatMap wire) := by
  induction items with
  | nil => rfl
  | cons item items ih =>
    have hitem : encode item = .ok (wire item) :=
      if_neg (not_lt.mpr (h item List.mem_cons_self))
    rw [encodeAll, hitem, ih fun f hf => h f (List.mem_cons_of_mem item hf), List.flatMap_cons]
    rfl

/-- `decode` takes an encoded frame off the front of whatever follows, and leaves exactly that. -/
theorem decode_wire {item : MuxFrame} (h : item.payload.length ≤ maxMuxPayload) (rest : Bytes) :
    decode (wire item ++ rest) = (.ok (some item), rest) := by
  have hword : item.payload.length < 256 ^ 4 := by
    unfold maxMuxPayload at h
    omega
  have hhead : (wire item).length = muxHeaderLen + item.payload.length := by
    simp only [wire, List.length_cons, List.length_append, length_toLe, List.cons_append]
    unfold muxHeaderLen
    omega
  have hlen : muxLen (wire item ++ rest) = item.payload.length := by
    have htake : ((wire item ++ rest).take 5).drop 1 = toLe 4 item.payload.length := by
      simp [wire, List.append_assoc]
    rw [muxLen, htake, ofLe_toLe_of_lt hword]
  have hdrop : (wire item ++ rest).drop muxHeaderLen = item.payload ++ rest := by
    simp [wire, muxHeaderLen, List.append_assoc]
  rw [decode_eq_frame, hlen, hdrop, List.length_append, hhead]
  refine ⟨by omega, h, ChannelId.fromU8_toU8 item.channel, ?_, ?_⟩
  · exact (List.take_left' rfl).symm
  · exact (List.drop_left' rfl).symm

/-- **Mux framing does not depend on how bytes arrive.**  Frames within the cap, encoded in order
    and received in any chunks, come back; any two cuts of any stream, well formed or not, give the
    same frames, the same first error and the same leftover; and `decode` consumes nothing when it
    asks for more or fails. -/
theorem framing_of_any_cut :
    (∀ items : List MuxFrame, (∀ item ∈ items, item.payload.length ≤ maxMuxPayload) →
      ∃ stream, encodeAll items = .ok stream ∧ ∀ chunks : List Bytes, chunks.flatten = stream →
        recvAll decode chunks = ⟨items, none, []⟩) ∧
    (∀ chunks chunks' : List Bytes, chunks.flatten = chunks'.flatten →
      recvAll decode chunks = recvAll decode chunks') ∧
    (∀ src rest : Bytes, decode src = (.ok none, rest) → rest = src) ∧
    (∀ (src rest : Bytes) (e : ProtoError), decode src = (.error e, rest) → rest = src) := by
  refine ⟨fun items h => ?_, fun chunks chunks' hcut => ?_, fun src rest => decode_eq_none, ?_⟩
  · refine ⟨items.flatMap wire, encodeAll_of_le h, fun chunks hcut => ?_⟩
    exact recvAll_encoded decode_lawful (fun item hitem => decode_wire (h item hitem)) hcut
  · rw [recvAll_flatten decode_lawful, recvAll_flatten decode_lawful, hcut]
  · intro src rest e hdec
    exact (decode_eq_error.mp hdec).1

/-- Two frames whose bytes arrive in four pieces, one of them cut inside a header. -/
theorem framing_of_any_cut_four :
    (∃ stream, encodeAll [⟨.pcMeta, [7, 8]⟩, ⟨.pcCtrl, [9]⟩] = .ok stream ∧
      ∀ chunks : List Bytes, chunks.flatten = stream →
        recvAll decode chunks = ⟨[⟨.pcMeta, [7, 8]⟩, ⟨.pcCtrl, [9]⟩], none, []⟩) ∧
    recvAll decode [[2], [2, 0, 0, 0, 7], [8, 4, 1], [0, 0, 0, 9]] =
      recvAll decode [[2, 2, 0, 0, 0, 7, 8, 4, 1, 0, 0, 0, 9]] ∧
    decode [2, 2] = (.ok none, [2, 2]) :=
  have hall := framing_of_any_cut
  ⟨hall.1 _ (by decide), hall.2.1 _ _ (by decide), by decide⟩

end MuxCodec

end Precall.Proto
