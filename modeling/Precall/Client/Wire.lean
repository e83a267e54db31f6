import Precall.Lib.Serde
import Precall.Api.UuidForms
import Precall.Client.Rejection

namespace Precall.Client

open Serde Precall.Proto Precall.Api

/-!
# The JSON messages

The documents of `precall-proto/src/metadata.rs` and `handshake.rs`, field by field as their
derived serializers write them and their derived deserializers read them.  The text of a document
is the business of the JSON crate; ids are read by the uuid crate.

* `captureBatch`, `controlMessage`, `queryPush`, `clientHello` — the formats;
* `messages_readable` — a peer that orders members differently, adds members, or leaves out
  optional ones that hold nothing, is understood.
-/

section
variable {α β : Type}

/-! ### Values -/

/-- A number of 64 bits, as `serde` reads and writes it. -/
def u64 : Format UInt64 :=
  .natural UInt64.toNat UInt64.ofNat (2 ^ 64) (fun _ h => UInt64.toNat_ofNat_of_lt h)
    fun _ => UInt64.ofNat_toNat

/-- A number of 32 bits. -/
def u32 : Format UInt32 :=
  .natural UInt32.toNat UInt32.ofNat (2 ^ 32) (fun _ h => UInt32.toNat_ofNat_of_lt h)
    fun _ => UInt32.ofNat_toNat

/-- A number of 16 bits. -/
def u16 : Format UInt16 :=
  .natural UInt16.toNat UInt16.ofNat (2 ^ 16) (fun _ h => UInt16.toNat_ofNat_of_lt h)
    fun _ => UInt16.ofNat_toNat

/-- A signed number of 64 bits; the model has an integer, so a range to keep to. -/
def i64 : Format Int := .integer id id (-2 ^ 63) (2 ^ 63) (fun _ _ _ => rfl) fun _ => rfl

/-- A signed number of 32 bits. -/
def i32 : Format Int := .integer id id (-2 ^ 31) (2 ^ 31) (fun _ _ _ => rfl) fun _ => rfl

/-- A `u64` keeps to its range by its type. -/
theorem u64_fits (w : UInt64) : u64.Fits w := Format.natural_fits UInt64.toNat_lt w

/-- So does a `u32`. -/
theorem u32_fits (w : UInt32) : u32.Fits w := Format.natural_fits UInt32.toNat_lt w

/-- So does a `u16`. -/
theorem u16_fits (w : UInt16) : u16.Fits w := Format.natural_fits UInt16.toNat_lt w

/-- A `u32` is never written as `null`. -/
theorem u32_solid : u32.Solid := by
  unfold u32 Format.natural
  exact Format.integer_solid

/-- `Option<String>`. -/
def optString : Format (Option String) := .option .string rfl

/-- Every text fits. -/
theorem optString_fits (s : Option String) : optString.Fits s := fun _ _ => trivial

/-- `#[serde(default)]` on an `Option<String>`: a member that is missing, or `null`, is none. -/
def optText (name : String) (rest : Fields β) : Fields (Option String × β) :=
  .defaulted name none optString rest (optString_fits none)
    (Format.option_blank Format.string_solid)

/-- `#[serde(default)]` on a `Vec`: a member that is missing is the empty list, and an empty list
    is written. -/
def optList (name : String) (f : Format α) (rest : Fields β) : Fields (List α × β) :=
  .defaulted name [] f.list rest (fun _ ha => absurd ha List.not_mem_nil) Format.list_blank

/-- A `String` field. -/
def reqText (name : String) (rest : Fields β) : Fields (String × β) :=
  .required name .string rest

/-- Ids are written in their canonical form and read in any that the crate accepts. -/
def uuid [UuidText] : Format Uuid := .text Uuid.text UuidText.parseStr UuidText.parseStr_text

end

/-! ### Metadata -/

/-- `AppRecord`: of an application only the name must be there. -/
def appRecord : Format AppRecord :=
  (Format.record
    (optText "windows_app_id" <|
      optText "icon_uri" <|
      reqText "name" <|
      optText "path" <|
      optText "properties" .none)
    (by decide)).map
    (fun a => (a.windowsAppId, a.iconUri, a.name, a.path, a.properties, ()))
    (fun (windowsAppId, iconUri, name, path, properties, _) =>
      { windowsAppId, iconUri, name, path, properties })
    (fun _ => rfl) fun _ => rfl

/-- `FileRecord`: path and name must be there. -/
def fileRecord : Format FileRecord :=
  (Format.record
    (reqText "path" <|
      reqText "name" <|
      optText "extension" <|
      optText "kind" <|
      optText "type" <|
      optText "properties" <|
      optText "object_id" <|
      optText "volume_id" .none)
    (by decide)).map
    (fun f => (f.path, f.name, f.extension, f.kind, f.type, f.properties, f.objectId, f.volumeId,
      ()))
    (fun (path, name, extension, kind, type, properties, objectId, volumeId, _) =>
      { path, name, extension, kind, type, properties, objectId, volumeId })
    (fun _ => rfl) fun _ => rfl

/-- `WebRecord`: domain and address must be there. -/
def webRecord : Format WebRecord :=
  (Format.record
    (reqText "domain" <|
      reqText "uri" <|
      optText "icon_uri" <|
      optText "properties" .none)
    (by decide)).map
    (fun w => (w.domain, w.uri, w.iconUri, w.properties, ()))
    (fun (domain, uri, iconUri, properties, _) => { domain, uri, iconUri, properties })
    (fun _ => rfl) fun _ => rfl

/-- `ScreenRegionRecord`: the text recognized in a region may be missing. -/
def screenRegionRecord : Format ScreenRegionRecord :=
  (Format.record
    (reqText "region_kind" <|
      optText "ocr_text" <|
      reqText "bounds" .none)
    (by decide)).map
    (fun r => (r.regionKind, r.ocrText, r.bounds, ()))
    (fun (regionKind, ocrText, bounds, _) => { regionKind, ocrText, bounds })
    (fun _ => rfl) fun _ => rfl

/-- `WindowCaptureRecord`: the lists of what a window shows may be missing, and are then empty;
    all else must be there. -/
def windowCaptureRecord : Format WindowCaptureRecord :=
  (Format.record
    (reqText "name" <|
      reqText "image_token" <|
      .required "is_foreground" .bool <|
      .required "window_id" i64 <|
      reqText "window_bounds" <|
      reqText "window_title" <|
      optText "properties" <|
      .required "timestamp_100ns" u64 <|
      optText "activation_uri" <|
      optText "activity_id" <|
      optText "fallback_uri" <|
      optList "apps" appRecord <|
      optList "files" fileRecord <|
      optList "webs" webRecord <|
      optList "regions" screenRegionRecord .none)
    (by decide)).map
    (fun c => (c.name, c.imageToken, c.isForeground, c.windowId, c.windowBounds, c.windowTitle,
      c.properties, c.timestamp100ns, c.activationUri, c.activityId, c.fallbackUri, c.apps, c.files,
      c.webs, c.regions, ()))
    (fun (name, imageToken, isForeground, windowId, windowBounds, windowTitle, properties,
        timestamp100ns, activationUri, activityId, fallbackUri, apps, files, webs, regions, _) =>
      { name, imageToken, isForeground, windowId, windowBounds, windowTitle, properties,
        timestamp100ns, activationUri, activityId, fallbackUri, apps, files, webs, regions })
    (fun _ => rfl) fun _ => rfl

/-- `CaptureBatch`, whose client id is a UUID in one of the spellings the crate reads. -/
def captureBatch [UuidText] : Format CaptureBatch :=
  (Format.record
    (.required "client_id" uuid <|
      .required "seq" u64 <|
      .required "captures" windowCaptureRecord.list .none)
    (show ["client_id", "seq", "captures"].Nodup by decide)).map
    (fun b => (b.clientId, b.seq, b.captures, ()))
    (fun (clientId, seq, captures, _) => { clientId, seq, captures })
    (fun _ => rfl) fun _ => rfl

/-- A query result for the client's own display. -/
structure QueryPush where
  query : String
  windowCaptureIds : List Int
  deriving DecidableEq, Repr

/-- `QueryPush`: the captures a query found. -/
def queryPush : Format QueryPush :=
  (Format.record
    (reqText "query" <|
      .required "window_capture_ids" i64.list .none)
    (by decide)).map
    (fun q => (q.query, q.windowCaptureIds, ()))
    (fun (query, windowCaptureIds, _) => { query, windowCaptureIds })
    (fun _ => rfl) fun _ => rfl

/-! ### Control messages -/

namespace ControlMessage

/-- `Pause`, which has no members of its own. -/
def pauseVariant : Variant ControlMessage where
  name := "pause"
  Content := Unit
  fields := .none
  nodup := by decide
  make _ := .pause
  content
    | .pause => some ()
    | _ => none
  content_iff a b := by cases a <;> simp

/-- `Resume`; its interval may be missing, though it has no `#[serde(default)]`, for it is an
    option. -/
def resumeVariant : Variant ControlMessage where
  name := "resume"
  Content := Option UInt32 × Unit
  fields := .optional "capture_interval_ms" u32 rfl u32_solid .none
  nodup := by decide
  make b := .resume b.1
  content
    | .resume interval => some (interval, ())
    | _ => none
  content_iff a b := by cases a <;> simp [Prod.ext_iff, eq_comm]

/-- `SetExclusions`, with both lists. -/
def setExclusionsVariant : Variant ControlMessage where
  name := "set_exclusions"
  Content := List String × List String × Unit
  fields := .required "apps" Format.string.list <| .required "domains" Format.string.list .none
  nodup := by decide
  make b := .setExclusions b.1 b.2.1
  content
    | .setExclusions apps domains => some (apps, domains, ())
    | _ => none
  content_iff a b := by cases a <;> simp [Prod.ext_iff, eq_comm]

/-- `Heartbeat`, with the client's counters. -/
def heartbeatVariant : Variant ControlMessage where
  name := "heartbeat"
  Content := UInt64 × UInt64 × UInt32 × Unit
  fields := .required "frames_sent" u64 <| .required "frames_skipped_unchanged" u64 <|
    .required "queue_depth" u32 .none
  nodup := by decide
  make b := .heartbeat b.1 b.2.1 b.2.2.1
  content
    | .heartbeat sent skipped depth => some (sent, skipped, depth, ())
    | _ => none
  content_iff a b := by cases a <;> simp [Prod.ext_iff, eq_comm]

/-- `PanicWipe`, which has no members of its own. -/
def panicWipeVariant : Variant ControlMessage where
  name := "panic_wipe"
  Content := Unit
  fields := .none
  nodup := by decide
  make _ := .panicWipe
  content
    | .panicWipe => some ()
    | _ => none
  content_iff a b := by cases a <;> simp

/-- `Goodbye`, with a reason. -/
def goodbyeVariant : Variant ControlMessage where
  name := "goodbye"
  Content := String × Unit
  fields := reqText "reason" .none
  nodup := by decide
  make b := .goodbye b.1
  content
    | .goodbye reason => some (reason, ())
    | _ => none
  content_iff a b := by cases a <;> simp [Prod.ext_iff, eq_comm]

end ControlMessage

open ControlMessage in
/-- `ControlMessage` is tagged by its member `cmd`, beside the members of the variant. -/
def controlEnum : Enumeration ControlMessage where
  tag := "cmd"
  variants := [pauseVariant, resumeVariant, setExclusionsVariant, heartbeatVariant,
    panicWipeVariant, goodbyeVariant]
  which
    | .pause => pauseVariant
    | .resume _ => resumeVariant
    | .setExclusions .. => setExclusionsVariant
    | .heartbeat .. => heartbeatVariant
    | .panicWipe => panicWipeVariant
    | .goodbye _ => goodbyeVariant
  names := by decide
  tag_notMem := by
    intro w hw
    simp only [List.mem_cons, List.not_mem_nil, or_false] at hw
    rcases hw with rfl | rfl | rfl | rfl | rfl | rfl <;> decide
  which_mem a := by cases a <;> simp
  which_content a := by cases a <;> rfl
  which_make := by
    intro w hw b
    simp only [List.mem_cons, List.not_mem_nil, or_false] at hw
    rcases hw with rfl | rfl | rfl | rfl | rfl | rfl <;> rfl

/-- `ControlMessage`, as the broker reads it. -/
def controlMessage : Format ControlMessage := .tagged controlEnum

/-! ### The handshake -/

/-- A connected display. -/
structure DisplayInfo where
  surfaceId : UInt16
  width : UInt32
  height : UInt32
  originX : Int
  originY : Int
  deriving DecidableEq, Repr

/-- What the client can send and wants to use. -/
structure Capabilities where
  displays : List DisplayInfo
  channels : List ChannelId
  codecIds : List UInt16
  captureIntervalMs : UInt32
  clientBuild : String
  deriving DecidableEq, Repr

/-- `ClientHello` with all it carries, also what the broker's session makes no use of. -/
structure HelloMessage where
  protocolVersion : UInt16
  clientId : Uuid
  hostname : String
  auth : AuthMethod
  capabilities : Capabilities
  deriving DecidableEq, Repr

namespace AuthMethod

/-- `Psk`, with the key in plain text. -/
def pskVariant : Variant AuthMethod where
  name := "psk"
  Content := String × Unit
  fields := reqText "token" .none
  nodup := by decide
  make b := .psk b.1
  content
    | .psk token => some (token, ())
    | _ => none
  content_iff a b := by cases a <;> simp [Prod.ext_iff, eq_comm]

/-- `Certificate`, with the fingerprint. -/
def certificateVariant : Variant AuthMethod where
  name := "certificate"
  Content := String × Unit
  fields := reqText "fingerprint" .none
  nodup := by decide
  make b := .certificate b.1
  content
    | .certificate fingerprint => some (fingerprint, ())
    | _ => none
  content_iff a b := by cases a <;> simp [Prod.ext_iff, eq_comm]

/-- `Ntlm`, with a user and the response to the challenge. -/
def ntlmVariant : Variant AuthMethod where
  name := "ntlm"
  Content := String × String × Unit
  fields := reqText "user" <| reqText "response_b64" .none
  nodup := by decide
  make b := .ntlm b.1 b.2.1
  content
    | .ntlm user response => some (user, response, ())
    | _ => none
  content_iff a b := by cases a <;> simp [Prod.ext_iff, eq_comm]

end AuthMethod

open AuthMethod in
/-- `AuthMethod` is tagged by its member `kind`. -/
def authEnum : Enumeration AuthMethod where
  tag := "kind"
  variants := [pskVariant, certificateVariant, ntlmVariant]
  which
    | .psk _ => pskVariant
    | .certificate _ => certificateVariant
    | .ntlm .. => ntlmVariant
  names := by decide
  tag_notMem := by
    intro w hw
    simp only [List.mem_cons, List.not_mem_nil, or_false] at hw
    rcases hw with rfl | rfl | rfl <;> decide
  which_mem a := by cases a <;> simp
  which_content a := by cases a <;> rfl
  which_make := by
    intro w hw b
    simp only [List.mem_cons, List.not_mem_nil, or_false] at hw
    rcases hw with rfl | rfl | rfl <;> rfl

/-- `DisplayInfo`: where a display lies and how large it is. -/
def displayInfo : Format DisplayInfo :=
  (Format.record
    (.required "surface_id" u16 <|
      .required "width" u32 <|
      .required "height" u32 <|
      .required "origin_x" i32 <|
      .required "origin_y" i32 .none)
    (by decide)).map
    (fun d => (d.surfaceId, d.width, d.height, d.originX, d.originY, ()))
    (fun (surfaceId, width, height, originX, originY, _) =>
      { surfaceId, width, height, originX, originY })
    (fun _ => rfl) fun _ => rfl

/-- A channel, by the name of its variant. -/
def channelId : Format ChannelId :=
  .unitEnum ChannelId.variant ChannelId.ofVariant? ChannelId.ofVariant?_variant

/-- `Capabilities` of a client. -/
def capabilities : Format Capabilities :=
  (Format.record
    (.required "displays" displayInfo.list <|
      .required "channels" channelId.list <|
      .required "codec_ids" u16.list <|
      .required "capture_interval_ms" u32 <|
      reqText "client_build" .none)
    (by decide)).map
    (fun c => (c.displays, c.channels, c.codecIds, c.captureIntervalMs, c.clientBuild, ()))
    (fun (displays, channels, codecIds, captureIntervalMs, clientBuild, _) =>
      { displays, channels, codecIds, captureIntervalMs, clientBuild })
    (fun _ => rfl) fun _ => rfl

/-- `ClientHello`, the first message of a session, with all that the client says about itself. -/
def clientHello [UuidText] : Format HelloMessage :=
  (Format.record
    (.required "protocol_version" u16 <|
      .required "client_id" uuid <|
      reqText "hostname" <|
      .required "auth" (.tagged authEnum) <|
      .required "capabilities" capabilities .none)
    (show ["protocol_version", "client_id", "hostname", "auth", "capabilities"].Nodup by
      decide)).map
    (fun h => (h.protocolVersion, h.clientId, h.hostname, h.auth, h.capabilities, ()))
    (fun (protocolVersion, clientId, hostname, auth, capabilities, _) =>
      { protocolVersion, clientId, hostname, auth, capabilities })
    (fun _ => rfl) fun _ => rfl

/-! ### What fits -/

/-- The window ids of a batch are 64-bit integers, as in the source their type says. -/
def IdsFit (b : CaptureBatch) : Prop :=
  ∀ c ∈ b.captures, -2 ^ 63 ≤ c.windowId ∧ c.windowId < 2 ^ 63

/-- The display origins of a client are 32-bit integers, as in the source their type says. -/
def OriginsFit (m : HelloMessage) : Prop :=
  ∀ d ∈ m.capabilities.displays,
    (-2 ^ 31 ≤ d.originX ∧ d.originX < 2 ^ 31) ∧ (-2 ^ 31 ≤ d.originY ∧ d.originY < 2 ^ 31)

/-- Every application can be written. -/
theorem appRecord_fits (a : AppRecord) : appRecord.Fits a :=
  ⟨optString_fits _, optString_fits _, trivial, optString_fits _, optString_fits _, trivial⟩

/-- So can every file. -/
theorem fileRecord_fits (f : FileRecord) : fileRecord.Fits f :=
  ⟨trivial, trivial, optString_fits _, optString_fits _, optString_fits _, optString_fits _,
    optString_fits _, optString_fits _, trivial⟩

/-- So can every page. -/
theorem webRecord_fits (w : WebRecord) : webRecord.Fits w :=
  ⟨trivial, trivial, optString_fits _, optString_fits _, trivial⟩

/-- So can every region. -/
theorem screenRegionRecord_fits (r : ScreenRegionRecord) : screenRegionRecord.Fits r :=
  ⟨trivial, optString_fits _, trivial, trivial⟩

/-- A record can be written exactly if its window id is an `i64`, which the source's type says
    and the model's integer does not. -/
theorem windowCaptureRecord_fits (c : WindowCaptureRecord) :
    windowCaptureRecord.Fits c ↔ -2 ^ 63 ≤ c.windowId ∧ c.windowId < 2 ^ 63 := by
  constructor
  · rintro ⟨-, -, -, hid, -⟩
    exact hid
  · intro hid
    exact ⟨trivial, trivial, trivial, hid, trivial, trivial, optString_fits _, u64_fits _,
      optString_fits _, optString_fits _, optString_fits _, fun a _ => appRecord_fits a,
      fun f _ => fileRecord_fits f, fun w _ => webRecord_fits w,
      fun r _ => screenRegionRecord_fits r, trivial⟩

/-- So a batch can be written exactly if the window ids of its captures are such numbers. -/
theorem captureBatch_fits [UuidText] (b : CaptureBatch) : captureBatch.Fits b ↔ IdsFit b := by
  constructor
  · rintro ⟨-, -, hcaptures, -⟩ c hc
    exact (windowCaptureRecord_fits c).mp (hcaptures c hc)
  · intro hids
    exact ⟨trivial, u64_fits _, fun c hc => (windowCaptureRecord_fits c).mpr (hids c hc), trivial⟩

/-- Every control message can be written. -/
theorem controlMessage_fits (m : ControlMessage) : controlMessage.Fits m := by
  intro b _
  cases m with
  | pause => trivial
  | resume interval => exact ⟨fun n _ => u32_fits n, trivial⟩
  | setExclusions apps domains => exact ⟨fun _ _ => trivial, fun _ _ => trivial, trivial⟩
  | heartbeat sent skipped depth => exact ⟨u64_fits _, u64_fits _, u32_fits _, trivial⟩
  | panicWipe => trivial
  | goodbye reason => exact ⟨trivial, trivial⟩

/-- A hello can be written exactly if the corners of its displays are 32-bit numbers. -/
theorem clientHello_fits [UuidText] (m : HelloMessage) : clientHello.Fits m ↔ OriginsFit m := by
  constructor
  · rintro ⟨-, -, -, -, ⟨hdisplays, -⟩, -⟩ d hd
    obtain ⟨-, -, -, hx, hy, -⟩ := hdisplays d hd
    exact ⟨hx, hy⟩
  · intro horigins
    have hauth : (Format.tagged authEnum).Fits m.auth := by
      generalize m.auth = auth
      intro b _
      cases auth with
      | psk token => exact ⟨trivial, trivial⟩
      | certificate fingerprint => exact ⟨trivial, trivial⟩
      | ntlm user response => exact ⟨trivial, trivial, trivial⟩
    have hdisplays : displayInfo.list.Fits m.capabilities.displays := fun d hd =>
      ⟨u16_fits _, u32_fits _, u32_fits _, (horigins d hd).1, (horigins d hd).2, trivial⟩
    exact ⟨u16_fits _, trivial, trivial, hauth,
      ⟨hdisplays, fun _ _ => trivial, fun c _ => u16_fits c, u32_fits _, trivial, trivial⟩,
      trivial⟩

/-- A query push can be written exactly if its capture ids are 64-bit numbers. -/
theorem queryPush_fits (q : QueryPush) :
    queryPush.Fits q ↔ ∀ id ∈ q.windowCaptureIds, -2 ^ 63 ≤ id ∧ id < 2 ^ 63 := by
  constructor
  · rintro ⟨-, hids, -⟩
    exact hids
  · intro hids
    exact ⟨trivial, hids, trivial⟩

/-! ### Messages between versions -/

/-- **Messages between versions.**  A batch whose window ids are 64-bit integers, any control
    message, a query result with such ids and a `ClientHello` whose display origins are 32-bit
    integers are read back from the document that is written for them, and from each document in
    which another version orders the members of a record differently, adds members that are no
    fields of that record, or leaves out fields that have a default and hold nothing, in every
    record of the message at once.  What a reader accepts can be written again and read again.  A
    `ClientHello` reads back exactly if its origins fit. -/
theorem messages_readable [UuidText] :
    (captureBatch.Tolerant ∧ ∀ b, captureBatch.Fits b ↔ IdsFit b) ∧
      (controlMessage.Tolerant ∧ ∀ m, controlMessage.Fits m) ∧
      (queryPush.Tolerant ∧
        ∀ q, queryPush.Fits q ↔ ∀ id ∈ q.windowCaptureIds, -2 ^ 63 ≤ id ∧ id < 2 ^ 63) ∧
      (clientHello.Tolerant ∧ ∀ m, clientHello.Fits m ↔ OriginsFit m) ∧
      ∀ m, clientHello.de (clientHello.ser m) = some m ↔ OriginsFit m := by
  refine ⟨⟨captureBatch.tolerant, captureBatch_fits⟩,
    ⟨controlMessage.tolerant, controlMessage_fits⟩, ⟨queryPush.tolerant, queryPush_fits⟩,
    ⟨clientHello.tolerant, clientHello_fits⟩, fun m => ?_⟩
  rw [← clientHello_fits]
  constructor
  · intro hde
    exact clientHello.fits m _ ((clientHello.de_iff m _).mp hde)
  · intro hfits
    exact clientHello.de_ser hfits

/-- A member `name` is one of a file record and none of a web record: a version may add it
    there. -/
example (domain uri : String) (added : Value) :
    webRecord.schema.Revised (.object [("domain", .string domain), ("uri", .string uri)])
      (.object [("name", added), ("uri", .string uri), ("domain", .string domain)]) := by
  refine Or.inr (Or.inl ⟨_, _, rfl, rfl, Shape.revisedMembers_of_same fun key hkey => ?_⟩)
  have hfields : key ∈ ["domain", "uri", "icon_uri", "properties"] := hkey
  simp only [List.mem_cons, List.not_mem_nil, or_false] at hfields
  rcases hfields with rfl | rfl | rfl | rfl <;> rfl

/-- The interval of `resume` may be left out, and other members may stand beside the tag. -/
example : controlMessage.de (.object [("sent_at", .int 5), ("cmd", .string "resume")]) =
    some (.resume none) := by rfl

end Precall.Client
