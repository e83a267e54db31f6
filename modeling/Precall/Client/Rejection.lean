import Precall.Api.UuidForms
import Precall.Broker.Admission
import Precall.Lib.Json

/-!
# The answer to a hello

What the broker writes in answer to a hello, `write_limited_json` of a `ServerHello` or
`write_reject` of a reason, against what `Connection::connect` makes of it.  Both ends frame a
JSON document as `[u32 length][body]`; the client tells the two answers apart by which struct the
document fits.

`write_reject` serialises a struct of its own with a field `error`, and the shared `ServerReject`
has a field `reason`.

* `connectReply_sendHello` — a hello that is sent is read as that hello;
* `connectReply_writeReject` — a rejection is read as one, but its reason is lost: it is always
  reported as `unknown`;
* `rejection_survives_iff` — so a reason survives exactly if it is `unknown`.

The JSON crate is a parameter (`JsonCrate`), like the parser of ids (`UuidText`).  What the derived
readers and writers do with a document follows from the structs; the forms they accept but never
write (an array for a struct, an object for a channel) are left out.
-/

namespace Precall.Proto

open JsonLib Precall.Api

/-! ### Documents -/

/-- The name of a variant, which is how a channel is written in a document. -/
def ChannelId.variant : ChannelId → String
  | .gfxRdp => "GfxRdp"
  | .pcMeta => "PcMeta"
  | .pcAudio => "PcAudio"
  | .pcCtrl => "PcCtrl"
  | .pcQuery => "PcQuery"

/-- The channel of a variant name. -/
def ChannelId.ofVariant? (name : String) : Option ChannelId :=
  [ChannelId.gfxRdp, .pcMeta, .pcAudio, .pcCtrl, .pcQuery].find? fun c => c.variant = name

/-- A text. -/
def stringOf? : Json → Option String
  | .string s => some s
  | _ => none

/-- A `u64`. -/
def u64Of? : Json → Option UInt64
  | .number n => some n
  | _ => none

/-- A `u32`: a number that fits. -/
def u32Of? (v : Json) : Option UInt32 :=
  (u64Of? v).bind fun n => if n.toNat < 2 ^ 32 then some (UInt32.ofNat n.toNat) else none

/-- A list of channels. -/
def channelsOf? : Json → Option (List ChannelId)
  | .array items => items.mapM fun v => (stringOf? v).bind ChannelId.ofVariant?
  | _ => none

/-- `ServerHello` as a document, field by field as the derived writer has them. -/
def ServerHello.toJson (hello : ServerHello) : Json :=
  .object [
    ("session_id", .string hello.sessionId.text),
    ("accepted_channels", .array (hello.acceptedChannels.map fun c => .string c.variant)),
    ("server_time_100ns", .number hello.serverTime100ns),
    ("heartbeat_interval_ms", .number (UInt64.ofNat hello.heartbeatIntervalMs.toNat)),
    ("max_frame_bytes", .number (UInt64.ofNat hello.maxFrameBytes.toNat))]

/-- The derived reader of `ServerHello`: every field is required, members it does not know are
    passed over. -/
def ServerHello.ofJson? [UuidText] (v : Json) : Option ServerHello := do
  let sessionId ← ((v.get? "session_id").bind stringOf?).bind UuidText.parseStr
  let acceptedChannels ← (v.get? "accepted_channels").bind channelsOf?
  let serverTime100ns ← (v.get? "server_time_100ns").bind u64Of?
  let heartbeatIntervalMs ← (v.get? "heartbeat_interval_ms").bind u32Of?
  let maxFrameBytes ← (v.get? "max_frame_bytes").bind u32Of?
  return { sessionId, acceptedChannels, serverTime100ns, heartbeatIntervalMs, maxFrameBytes }

/-- Rejection reply, as the client reads it: a reason. -/
structure ServerReject where
  reason : String
  deriving DecidableEq, Repr

/-- The derived reader of `ServerReject`, which looks for a member `reason`. -/
def ServerReject.ofJson? (v : Json) : Option ServerReject :=
  ((v.get? "reason").bind stringOf?).map ServerReject.mk

/-- The struct of `write_reject` as a document: its one member is called `error`. -/
def rejectJson (reason : String) : Json := .object [("error", .string reason)]

/-! ### Documents read back -/

/-- A channel is read back from its name. -/
theorem ChannelId.ofVariant?_variant (c : ChannelId) : ofVariant? c.variant = some c := by
  cases c <;> decide

/-- So is a list of channels. -/
theorem channelsOf?_map (channels : List ChannelId) :
    channelsOf? (.array (channels.map fun c => .string c.variant)) = some channels := by
  show (channels.map _).mapM _ = _
  rw [List.mapM_map]
  induction channels with
  | nil => rfl
  | cons c channels ih =>
    rw [List.mapM_cons, ih]
    show ((ChannelId.ofVariant? c.variant).bind fun _ => _) = _
    rw [ChannelId.ofVariant?_variant]
    rfl

/-- And a number of 32 bits. -/
theorem u32Of?_number (n : UInt32) : u32Of? (.number (UInt64.ofNat n.toNat)) = some n := by
  have hn : n.toNat < 2 ^ 32 := n.toNat_lt
  have hword : (UInt64.ofNat n.toNat).toNat = n.toNat := by
    rw [UInt64.toNat_ofNat']
    omega
  show (if (UInt64.ofNat n.toNat).toNat < 2 ^ 32 then _ else none) = some n
  rw [hword, if_pos hn, UInt32.ofNat_toNat]

/-- **A `ServerHello` reads back.** -/
theorem ServerHello.ofJson?_toJson [UuidText] (hello : ServerHello) :
    ofJson? hello.toJson = some hello := by
  have hid : ((hello.toJson.get? "session_id").bind stringOf?).bind UuidText.parseStr
      = some hello.sessionId := UuidText.parseStr_text hello.sessionId
  have hchannels : (hello.toJson.get? "accepted_channels").bind channelsOf?
      = some hello.acceptedChannels := channelsOf?_map hello.acceptedChannels
  have htime : (hello.toJson.get? "server_time_100ns").bind u64Of?
      = some hello.serverTime100ns := rfl
  have hinterval : (hello.toJson.get? "heartbeat_interval_ms").bind u32Of?
      = some hello.heartbeatIntervalMs := u32Of?_number hello.heartbeatIntervalMs
  have hmax : (hello.toJson.get? "max_frame_bytes").bind u32Of?
      = some hello.maxFrameBytes := u32Of?_number hello.maxFrameBytes
  simp [ofJson?, hid, hchannels, htime, hinterval, hmax]

/-- The documents of the handshake are flat enough for any reader. -/
theorem ServerHello.depth_toJson (hello : ServerHello) : hello.toJson.depth < 128 := by
  have hitems : ∀ channels : List ChannelId,
      depthItems (channels.map fun c => .string c.variant) = 0 := by
    intro channels
    induction channels with
    | nil => rfl
    | cons c channels ih => simp [depthItems, Json.depth, ih]
  simp [toJson, Json.depth, depthMembers, hitems]

/-- A rejection is no `ServerHello`, and no `ServerReject` either, since the two sides name its
    member differently. -/
theorem ofJson?_rejectJson [UuidText] (reason : String) :
    ServerHello.ofJson? (rejectJson reason) = none ∧
      ServerReject.ofJson? (rejectJson reason) = none := ⟨rfl, rfl⟩

end Precall.Proto

namespace Precall.Client

open ByteLib JsonLib Precall.Proto Precall.Broker Precall.Api

/-! ### The wire -/

/-- `MAX_HANDSHAKE_PAYLOAD`. -/
def maxHandshakePayload : Nat := 1024 * 1024

/-- Why a document could not be read off or put on the wire. -/
inductive HandshakeError where
  | io
  | payloadTooLarge (len : Nat)
  | json
  deriving DecidableEq, Repr

/-- The errors of the client, as far as the handshake raises them. -/
inductive ClientError where
  | proto (e : HandshakeError)
  | config (message : String)
  deriving DecidableEq, Repr

section
variable [JsonCrate]

/-- `write_limited_json` — the length and the document, if that is within the limit. -/
def writeLimitedJson (v : Json) : Except HandshakeError Bytes :=
  let body := JsonCrate.toVec v
  if body.length > maxHandshakePayload then .error (.payloadTooLarge body.length)
  else .ok (toLe 4 body.length ++ body)

/-- `read_limited_json` on the bytes that arrive: the document, and the bytes after it; a length
    beyond the limit is refused unread. -/
def readLimitedJson (wire : Bytes) : Except HandshakeError (Json × Bytes) :=
  if wire.length < 4 then .error .io
  else
    -- the length is checked before the body is read
    let len := ofLe (wire.take 4)
    if len > maxHandshakePayload then .error (.payloadTooLarge len)
    else if (wire.drop 4).length < len then .error .io
    else match JsonCrate.fromSlice ((wire.drop 4).take len) with
      | none => .error .json
      | some v => .ok (v, (wire.drop 4).drop len)

/-- The body of a rejection. -/
def rejectBody (reason : String) : Bytes := JsonCrate.toVec (rejectJson reason)

/-- `write_reject` — without the limit of `write_limited_json`, which the client's reader still
    applies. -/
def writeReject (reason : String) : Bytes :=
  toLe 4 (rejectBody reason).length ++ rejectBody reason

/-- The broker's answer to an admitted client. -/
def sendHello (hello : ServerHello) : Except HandshakeError Bytes :=
  writeLimitedJson (ServerHello.toJson hello)

/-- `Connection::connect` from the reply on: the hello and the bytes of the session, or the error
    it fails with. -/
def connectReply [UuidText] (wire : Bytes) : Except ClientError (ServerHello × Bytes) :=
  match readLimitedJson wire with
  | .error e => .error (.proto e)
  | .ok (resp, session) => match ServerHello.ofJson? resp with
    | some hello => .ok (hello, session)
    | none =>
      -- a document of neither struct is a rejection without a reason
      let rej := (ServerReject.ofJson? resp).getD ⟨"unknown"⟩
      .error (.config ("rejected: " ++ rej.reason))

/-! ### What arrives -/

/-- What is framed within the limit arrives. -/
theorem readLimitedJson_framed {v : Json} (hdepth : v.depth < 128)
    (hfits : (JsonCrate.toVec v).length ≤ maxHandshakePayload) (session : Bytes) :
    readLimitedJson (toLe 4 (JsonCrate.toVec v).length ++ JsonCrate.toVec v ++ session)
      = .ok (v, session) := by
  -- the limit is far below what the four bytes of the length can say
  generalize hbody : JsonCrate.toVec v = body at hfits ⊢
  have hword : body.length < 256 ^ 4 := lt_of_le_of_lt hfits (by decide)
  have htake : (toLe 4 body.length ++ body ++ session).take 4 = toLe 4 body.length := by
    rw [List.append_assoc, List.take_left' (length_toLe 4 _)]
  have hdrop : (toLe 4 body.length ++ body ++ session).drop 4 = body ++ session := by
    rw [List.append_assoc, List.drop_left' (length_toLe 4 _)]
  have hlength : ¬ (toLe 4 body.length ++ body ++ session).length < 4 := by
    rw [List.length_append, List.length_append, length_toLe]
    omega
  have hrest : ¬ (body ++ session).length < body.length := by
    rw [List.length_append]
    omega
  have hread : JsonCrate.fromSlice body = some v := hbody ▸ JsonCrate.fromSlice_toVec v hdepth
  unfold readLimitedJson
  simp only [if_neg hlength, htake, hdrop, ofLe_toLe_of_lt hword, if_neg (not_lt.mpr hfits),
    if_neg hrest, List.take_left' rfl, List.drop_left' rfl, hread]

/-- **A `ServerHello` that is sent is read as that hello**, and the session follows it. -/
theorem connectReply_sendHello [UuidText] {hello : ServerHello} {wire : Bytes}
    (hsent : sendHello hello = .ok wire) (session : Bytes) :
    connectReply (wire ++ session) = .ok (hello, session) := by
  unfold sendHello writeLimitedJson at hsent
  by_cases hlimit : (JsonCrate.toVec hello.toJson).length > maxHandshakePayload
  · rw [if_pos hlimit] at hsent
    cases hsent
  · rw [if_neg hlimit] at hsent
    obtain rfl := Except.ok.inj hsent
    unfold connectReply
    rw [readLimitedJson_framed hello.depth_toJson (not_lt.mp hlimit)]
    dsimp only
    rw [ServerHello.ofJson?_toJson]

/-- **A rejection is read as one, but not with its reason**: the client reports it as unknown. -/
theorem connectReply_writeReject [UuidText] {reason : String}
    (hfits : (rejectBody reason).length ≤ maxHandshakePayload) (session : Bytes) :
    connectReply (writeReject reason ++ session) = .error (.config "rejected: unknown") := by
  have hdepth : (rejectJson reason).depth < 128 := by
    simp [rejectJson, Json.depth, depthMembers]
  obtain ⟨hhello, hreject⟩ := ofJson?_rejectJson reason
  unfold connectReply writeReject rejectBody
  rw [readLimitedJson_framed hdepth hfits]
  dsimp only
  -- the field is named `error`, so neither struct fits
  rw [hhello, hreject]
  rfl

/-- **A rejection reason survives the wire exactly if it is `unknown`**: whatever the broker's
    reason, the client does not mistake the answer for a `ServerHello`, but the error it fails
    with says `unknown`.  And no `ServerHello` the broker can send is taken for a rejection. -/
theorem rejection_survives_iff [UuidText] (reason : String)
    (hfits : (rejectBody reason).length ≤ maxHandshakePayload) :
    ((∀ session, connectReply (writeReject reason ++ session)
          = .error (.config ("rejected: " ++ reason))) ∧
        ∀ (v : Visit) (hello : ClientHello) (wire session : Bytes),
          sendHello (v.serverHello hello) = .ok wire →
            connectReply (wire ++ session) = .ok (v.serverHello hello, session)) ↔
      reason = "unknown" := by
  have hhellos : ∀ (v : Visit) (hello : ClientHello) (wire session : Bytes),
      sendHello (v.serverHello hello) = .ok wire →
        connectReply (wire ++ session) = .ok (v.serverHello hello, session) :=
    fun v hello wire session hsent => connectReply_sendHello hsent session
  rw [and_iff_left hhellos]
  refine ⟨fun h => ?_, fun h session => ?_⟩
  · -- what the client reports does not depend on the reason
    have hreported := (connectReply_writeReject hfits []).symm.trans (h [])
    have htext : "rejected: " ++ "unknown" = "rejected: " ++ reason :=
      ClientError.config.inj (Except.error.inj hreported)
    exact ((String.append_right_inj _).mp htext).symm
  · rw [h] at hfits ⊢
    exact connectReply_writeReject hfits session

end

section

attribute [local instance] JsonCrate.compact UuidText.crate

/-- The one reason that survives. -/
theorem rejection_survives_iff_unknown :
    (rejectBody "unknown").length ≤ maxHandshakePayload ∧
      connectReply (writeReject "unknown" ++ [7]) =
        .error (.config ("rejected: " ++ "unknown")) := by
  have hfits : (rejectBody "unknown").length ≤ maxHandshakePayload := by decide +kernel
  exact ⟨hfits, ((rejection_survives_iff "unknown" hfits).mpr rfl).1 [7]⟩

/-- **The reason of a rejection is lost.**  The broker refuses the version of a hello and says so;
    the client reports another reason. -/
theorem rejection_reason_lost :
    ¬ ∀ reason, (rejectBody reason).length ≤ maxHandshakePayload →
      ∀ session, connectReply (writeReject reason ++ session)
        = .error (.config ("rejected: " ++ reason)) := by
  intro h
  have hfits : (rejectBody "protocol version mismatch").length ≤ maxHandshakePayload := by
    decide +kernel
  have hreported := h "protocol version mismatch" hfits []
  rw [connectReply_writeReject hfits] at hreported
  exact absurd hreported (by decide)

end

end Precall.Client
