import Precall.Api.Bookkeeping
import Precall.Api.UuidForms
import Precall.Broker.Written

namespace Precall.Api

open ByteLib TextLib Durable TableLib Precall.Proto Precall.Store Precall.Broker

/-!
# Reading screenshots back

The broker seals objects if its configuration says so (`Broker::open_store`).  The two readers,
the route `snapshot` of `precall-api/src/routes.rs` and the image leg of enrichment, always open
them.  The processes share the key; the readers' accesses to the disk succeed.

* `rounds_filed` — after any sessions and passes with distinct image tokens the files are the
  objects the broker wrote;
* `snapshot_serves` — with sealed objects the route answers with the frame that was stored;
* `stored_readable_iff` — a stored frame reads back, by both readers, exactly if the broker seals.
-/

/-! ### The broker's side -/

/-- The part of the broker's configuration `open_store` reads: whether objects are sealed, and
    how wide the vectors are. -/
structure BrokerConfig where
  encryptAtRest : Bool
  embeddingDim : Nat
  deriving DecidableEq, Repr

/-- `Broker::open_store` — the stores of a client's session.  Only the object store depends on
    whether encryption at rest is on. -/
def openStore (config : BrokerConfig) (key : Aead) (clientId : Uuid) (hostname : String) :
    SessionConfig where
  clientId := clientId
  hostname := hostname
  dim := config.embeddingDim
  objects := if config.encryptAtRest then ObjectStore.encrypted key else ObjectStore.plain

/-! ### The route -/

/-- A client's directory by the id in a request: `client_dir` and `client_db`, whose database is
    there when the directory is. -/
def clientDir [UuidText] (root : DataRoot) (client : String) : Except ApiError ClientDir :=
  match UuidText.parseStr client with
  | none => .error (.badRequest "client must be a uuid")
  | some id => match root id with
    | none => .error (.notFound ("unknown client " ++ client))
    | some dir => .ok dir

/-- A client that is there is found under every spelling of its id, for the spelling is parsed
    first. -/
theorem clientDir_known [UuidText] {root : DataRoot} {client : String} {id : Uuid}
    {dir : ClientDir} (hparse : UuidText.parseStr client = some id) (hdir : root id = some dir) :
    clientDir root client = .ok dir := by
  unfold clientDir
  rw [hparse]
  dsimp only
  rw [hdir]

/-- A client that is not there is a 404, whose text repeats the spelling of the request. -/
theorem clientDir_unknown [UuidText] {root : DataRoot} {client : String} {id : Uuid}
    (hparse : UuidText.parseStr client = some id) (hdir : root id = none) :
    clientDir root client = .error (.notFound ("unknown client " ++ client)) := by
  unfold clientDir
  rw [hparse]
  dsimp only
  rw [hdir]

/-- A screenshot as the route serves it. -/
structure Snapshot where
  contentType : String
  body : Bytes
  deriving DecidableEq, Repr

/-- The media type of an extension; a frame that is no JPEG goes out as bytes. -/
def mime (ext : String) : String := if ext = "jpg" then "image/jpeg" else "application/octet-stream"

section
variable [TextTables]

/-- The loop of `snapshot` over the extensions: the first that has a file decides, even if that
    file cannot be opened. -/
def serveObject (objects : ObjectStore) (files : Files) (client : String) (ts : Int)
    (token : String) : List String → Except ApiError Snapshot
  | [] => .error (.notFound "image object missing")
  | ext :: exts =>
    let rel := keyPath client (ymdFromFiletime ts) token ext
    if ObjectStore.exists files rel then
      match objects.get files false client rel token with
      | .ok bytes => .ok ⟨mime ext, bytes⟩
      | .error e => .error (.objects e)
    else serveObject objects files client ts token exts

/-- The route `snapshot`; `ok` is the answer 200.  Objects are always opened with the key,
    however the broker wrote them. -/
def snapshot [UuidText] (root : DataRoot) (key : Aead) (client : String) (wcId : Int) :
    Except ApiError Snapshot :=
  match clientDir root client with
  | .error e => .error e
  | .ok dir => match dir.ukg.imageToken wcId, dir.ukg.captureTimestamp wcId with
    | .error e, _ => .error (.store e)
    | .ok (some token), some ts =>
        serveObject (.encrypted key) dir.files client ts token ["jpg", "raw"]
    | .ok _, _ => .error (.notFound "no such capture")

/-! ### Deployments -/

/-- One client of a broker and an API that share a key, each with a configuration of its own. -/
structure Deployment where
  json : JsonReader
  config : BrokerConfig
  key : Aead
  clientId : Uuid
  hostname : String
  apiDim : Nat

/-- One round: the client is connected until its session ends, or a pass runs until its budget of
    writes is used up. -/
inductive Round where
  | session (now : Int) (arrivals : List Arrival) (budget : Nat)
  | pass (env : PassEnv) (budget : Nat)

namespace Deployment

variable (d : Deployment)

/-- The sessions of the one client. -/
def sessionConfig : SessionConfig := openStore d.config d.key d.clientId d.hostname

/-- And its enricher. -/
def enrichConfig : EnrichConfig := clientConfig d.clientId d.apiDim (.encrypted d.key)

/-- The log after one more round. -/
def extend (log : List Event) : Round → List Event
  | .session now arrivals budget => (runSession d.json d.sessionConfig now arrivals budget log).log
  | .pass env budget => (runPass d.enrichConfig env budget log).log

/-- The log after some rounds. -/
def log (rounds : List Round) : List Event := rounds.foldl d.extend []

/-- The records a round brings. -/
def records : Round → List WindowCaptureRecord
  | .session _ arrivals _ => arrivals.flatMap fun a => captured d.json d.clientId a.frame
  | .pass .. => []

/-- The image tokens of all records are distinct, and each is the text of a UUID. -/
structure DistinctTokens (rounds : List Round) : Prop where
  nodup : (tokens (rounds.flatMap d.records)).Nodup
  canonical : ∀ t ∈ tokens (rounds.flatMap d.records), ∃ u : Uuid, t = u.text

variable {d}

omit [TextTables] in
/-- Bookkeeping names no token. -/
theorem tokenOf_of_bookkeeping {e : Event} (h : bookkeeping e = true) : tokenOf e = none := by
  cases e <;> first | rfl | cases h

omit [TextTables] in
/-- Bookkeeping is orderly. -/
theorem orderly_of_bookkeeping {all : List String} {e : Event} (h : bookkeeping e = true)
    (log : List Event) : Orderly d.sessionConfig all e log := by
  cases e <;> trivial

/-- A session is orderly whatever records the client sent before, as long as all are distinct. -/
theorem extend_orderly {all seen : List String} {log : List Event} (round : Round)
    (hdistinct : (seen ++ tokens (d.records round)).Nodup)
    (hall : tokens (d.records round) ⊆ all)
    (hlog : Guarded Event.apply (fun e _ log => Orderly d.sessionConfig all e log) ClientDir.new
      log)
    (hnamed : Named seen log) :
    Guarded Event.apply (fun e _ log => Orderly d.sessionConfig all e log) ClientDir.new
        (d.extend log round) ∧
      Named (seen ++ tokens (d.records round)) (d.extend log round) := by
  have hseen := hnamed.mono (List.subset_append_left seen (tokens (d.records round)))
  cases round with
  | session now arrivals budget =>
    have hkeeps : ∀ all', tokens (d.records (.session now arrivals budget)) ⊆ all' →
        Keeps d.sessionConfig all' (session d.json d.sessionConfig now arrivals)
          (seen ++ tokens (d.records (.session now arrivals budget))) (ClientDir.after log) log :=
      fun all' hall' => session_orderly d.json now arrivals hdistinct hall' hnamed
    have hwp := hkeeps all hall
    refine ⟨(Prog.run_guarded budget hlog hwp).1, ?_⟩
    -- however far it got, it named only what was sent
    have hsent : (session d.json d.sessionConfig now arrivals).wp Event.apply
        (fun e _ _ => ∀ t, tokenOf e = some t →
          t ∈ seen ++ tokens (d.records (.session now arrivals budget)))
        (fun _ _ _ => True) (ClientDir.after log) log :=
      Prog.wp_mono (hkeeps _ (List.subset_append_right seen _))
        (fun _ _ _ he _ ht => Orderly.mem he ht) fun _ _ _ _ => trivial
    obtain ⟨ws, hws, htokens⟩ := Prog.run_appends budget hsent
    intro e he t ht
    rw [extend, runSession, hws] at he
    rcases List.mem_append.mp he with he | he
    · exact hseen e he t ht
    · exact htokens e he t ht
  | pass env budget =>
    have hspares := (spares_enrichClient d.enrichConfig env).wp Event.apply (ClientDir.after log)
      log
    refine ⟨(Prog.run_guarded budget hlog
      (Prog.wp_mono hspares (fun e _ log he => orderly_of_bookkeeping he log)
        fun _ _ _ h => h)).1, ?_⟩
    obtain ⟨ws, hws, hbooks⟩ := Prog.run_appends budget hspares
    intro e he t ht
    rw [extend, runPass, hws] at he
    rcases List.mem_append.mp he with he | he
    · exact hseen e he t ht
    · rw [tokenOf_of_bookkeeping (hbooks e he)] at ht
      cases ht

/-- A whole run is orderly, by induction on its rounds: where no token occurs twice, no session
    writes over what another has written. -/
theorem log_orderly {all : List String} (rounds : List Round)
    (hdistinct : (tokens (rounds.flatMap d.records)).Nodup)
    (hall : tokens (rounds.flatMap d.records) ⊆ all) :
    Guarded Event.apply (fun e _ log => Orderly d.sessionConfig all e log) ClientDir.new
        (d.log rounds) ∧
      Named (tokens (rounds.flatMap d.records)) (d.log rounds) := by
  induction rounds using List.reverseRecOn with
  | nil => exact ⟨.nil, fun e he => by cases he⟩
  | append_singleton rounds round ih =>
    simp only [List.flatMap_append, List.flatMap_singleton, tokens, List.map_append]
      at hdistinct hall ⊢
    obtain ⟨hbefore, hround⟩ := List.append_subset.mp hall
    obtain ⟨hguarded, hnamed⟩ := ih (List.nodup_append.mp hdistinct).1 hbefore
    rw [log, List.foldl_append, List.foldl_cons, List.foldl_nil]
    exact extend_orderly round hdistinct hround hguarded hnamed

/-- **The files of a deployment.**  After any rounds with distinct tokens the files are the objects
    the sessions wrote. -/
theorem rounds_filed {rounds : List Round} (h : d.DistinctTokens rounds) :
    Filed d.sessionConfig (tokens (rounds.flatMap d.records)) (ClientDir.after (d.log rounds))
      (d.log rounds) :=
  (log_orderly rounds h.nodup (List.Subset.refl _)).1.invariant (stable_filed h.canonical) filed_new

/-- The directory after some rounds. -/
def dir (rounds : List Round) : ClientDir := ClientDir.after (d.log rounds)

end Deployment

/-! ### The readers -/

/-- The image of the capture is neither embedded nor refused so far, so the next pass that
    selects it reads it. -/
def Unsettled (dir : ClientDir) (wcId : Int) : Prop :=
  dir.image.hasItem (itemIdForCapture wcId) = false ∧
    (dir.ukg.imageEmbeddingState wcId).map Prod.fst ≠ some .skipped

/-- Every access to a file succeeds during the pass. -/
def DiskWorks (env : PassEnv) : Prop :=
  ∀ path, env.statFails path = false ∧ env.readFails path = false

section
variable {dir : ClientDir} {client : Uuid} {key : Aead} {token : String} {raw : Bytes}

/-- What a reader makes of a file under a canonical client id: the path is the client's own, so
    only the seal decides. -/
theorem get_keyPath (key : Aead) {date : Int × Nat × Nat} {ext : String}
    (hread : dir.files.read? (keyPath client.text date token ext) = some raw) :
    (ObjectStore.encrypted key).get dir.files false client.text
        (keyPath client.text date token ext) token
      = (key.open (ObjectStore.utf8 token) raw).mapError ObjectError.crypto := by
  unfold ObjectStore.get
  rw [if_neg (not_not_intro (keyPath_client client date token ext)), if_neg (by simp)]
  simp only [hread, ObjectStore.encrypted]
  cases key.open (ObjectStore.utf8 token) raw <;> rfl

/-- The route finds the object of a frame when no other screenshot is filed under its token.  A
    raw frame is looked for second, so a JPEG under its token would hide it. -/
theorem serveObject_frame {ts : Int} (f : PendingFrame)
    (hread : dir.files.read? (keyPath client.text (ymdFromFiletime ts) token f.ext) = some raw)
    (honly : f.ext ≠ "jpg" →
      dir.files.read? (keyPath client.text (ymdFromFiletime ts) token "jpg") = none) :
    serveObject (.encrypted key) dir.files client.text ts token ["jpg", "raw"]
      = ((key.open (ObjectStore.utf8 token) raw).map (Snapshot.mk (mime f.ext))).mapError
          fun e => .objects (.crypto e) := by
  have hexists : ObjectStore.exists dir.files (keyPath client.text (ymdFromFiletime ts) token f.ext)
      = true := by
    rw [ObjectStore.exists, hread]
    rfl
  have hget := get_keyPath key hread
  rcases List.mem_pair.mp f.ext_mem with hext | hext
  · rw [hext] at hexists hget ⊢
    rw [serveObject, if_pos hexists, hget]
    cases key.open (ObjectStore.utf8 token) raw <;> rfl
  · have habsent : ObjectStore.exists dir.files
        (keyPath client.text (ymdFromFiletime ts) token "jpg") = false := by
      rw [ObjectStore.exists, honly (by rw [hext]; decide)]
      rfl
    rw [hext] at hexists hget ⊢
    rw [serveObject, if_neg (by rw [habsent]; decide), serveObject, if_pos hexists, hget]
    cases key.open (ObjectStore.utf8 token) raw <;> rfl

/-- The route on a capture that is there and has a token serves the object of its token and time. -/
theorem snapshot_of_row [UuidText] {root : DataRoot} (hroot : root client = some dir)
    {r : Int × WindowCaptureRow} (hr : r ∈ dir.ukg.windowCapture.rows)
    (htoken : r.2.imageToken = some token) :
    snapshot root key client.text r.1 = serveObject (.encrypted key) dir.files client.text
      r.2.timeStamp token ["jpg", "raw"] := by
  have hrow : dir.ukg.windowCapture.get? r.1 = some r.2 := Table.get?_eq_some.mpr hr
  simp only [snapshot, clientDir_known (UuidText.parseStr_text client) hroot, Ukg.imageToken,
    Ukg.captureTimestamp, hrow, htoken, Option.map_some]

/-- The image leg hands the embedder what it reads, which is what the route would serve. -/
theorem imageStep_reads (cfg : EnrichConfig) (env : PassEnv) {ts wcId : Int} {bytes : Bytes}
    (hclient : cfg.client = client.text) (hobjects : cfg.objects = .encrypted key)
    (hread : dir.files.read? (keyPath client.text (ymdFromFiletime ts) token "jpg") = some raw)
    (hopen : key.open (ObjectStore.utf8 token) raw = .ok bytes) (hfresh : Unsettled dir wcId)
    (hdisk : DiskWorks env) (stats : EnrichStats) (budget : Nat) (log : List Event) :
    ∃ attempts, (imageStep cfg env wcId (some ts) token stats).run Event.apply budget dir log
      = ⟨dir, log, some (.embed bytes attempts, stats)⟩ := by
  obtain ⟨habsent, hstate⟩ := hfresh
  have hvisible : visible env dir.files (keyPath client.text (ymdFromFiletime ts) token "jpg")
      = true := by
    rw [visible, (hdisk _).1, ObjectStore.exists, hread]
    rfl
  have hget := get_keyPath key hread
  rw [hopen] at hget
  refine ⟨((dir.ukg.imageEmbeddingState wcId).map fun p => p.2.1).getD 0, ?_⟩
  unfold imageStep readJpeg
  simp only [Prog.run_get_bind, habsent, hstate, hclient, hobjects, hvisible, (hdisk _).2, hget,
    Bool.false_eq_true, if_false, Bool.not_true, Except.mapError]
  rfl

end

/-! ### What is stored reads back -/

/-- `handle_meta` stored the frame for the record, in one of the rounds and under some nonce. -/
def StoredFrame (d : Deployment) (rounds : List Round) (c : WindowCaptureRecord)
    (f : PendingFrame) : Prop :=
  ∃ nonce, nonce.length = 12 ∧ putFrame d.sessionConfig nonce c f ∈ d.log rounds

/-- The route answers with the frame, and a pass that has yet to embed it gets the same bytes. -/
structure ReadsBack [UuidText] (d : Deployment) (rounds : List Round) (others : DataRoot)
    (r : Int × WindowCaptureRow) (token : String) (f : PendingFrame) : Prop where
  served : snapshot (Function.update others d.clientId (some (d.dir rounds))) d.key d.clientId.text
    r.1 = .ok ⟨mime f.ext, f.data⟩
  handed : f.codecId = rdpgfxCodecidJpeg → Unsettled (d.dir rounds) r.1 →
    ∀ env stats budget, DiskWorks env → ∃ attempts,
      (imageStep d.enrichConfig env r.1 (some r.2.timeStamp) token stats).run Event.apply budget
        (d.dir rounds) (d.log rounds)
      = ⟨d.dir rounds, d.log rounds, some (.embed f.data attempts, stats)⟩

/-- The route on a capture that was stored with a frame opens what the session sealed. -/
theorem snapshot_of_stored [UuidText] {d : Deployment} {rounds : List Round}
    (hdistinct : d.DistinctTokens rounds) (others : DataRoot) {c : WindowCaptureRecord}
    {f : PendingFrame} {nonce : Bytes} (hput : putFrame d.sessionConfig nonce c f ∈ d.log rounds)
    {r : Int × WindowCaptureRow} (hr : r ∈ (d.dir rounds).ukg.windowCapture.rows)
    (htoken : r.2.imageToken = some c.imageToken) :
    snapshot (Function.update others d.clientId (some (d.dir rounds))) d.key d.clientId.text r.1
      = ((d.key.open (ObjectStore.utf8 c.imageToken)
          (d.sessionConfig.objects.stored nonce c.imageToken f.data)).map
            (Snapshot.mk (mime f.ext))).mapError fun e => .objects (.crypto e) := by
  have hfiled := Deployment.rounds_filed hdistinct
  obtain ⟨hread, honly⟩ := hfiled.read_frame hdistinct.canonical hput
  rw [snapshot_of_row (Function.update_self ..) hr htoken]
  refine serveObject_frame f ?_ fun hne => ?_
  · rw [hfiled.row_date hput hr htoken]
    exact hread
  · exact honly _ "jpg" (by decide) (by decide) (Ne.symm hne)

/-- **When stored screenshots can be read.**  After any sessions and passes with distinct tokens,
    a capture that was stored with a frame is served and embedded with that frame exactly if the
    broker encrypts at rest. -/
theorem stored_readable_iff [UuidText] (d : Deployment) (hkey : d.key.Lawful) (rounds : List Round)
    (hdistinct : d.DistinctTokens rounds) (others : DataRoot) (c : WindowCaptureRecord)
    (f : PendingFrame) (hstored : StoredFrame d rounds c f) (r : Int × WindowCaptureRow)
    (hr : r ∈ (d.dir rounds).ukg.windowCapture.rows) (htoken : r.2.imageToken = some c.imageToken) :
    ReadsBack d rounds others r c.imageToken f ↔ d.config.encryptAtRest = true := by
  obtain ⟨nonce, hnonce, hput⟩ := hstored
  have hfiled := Deployment.rounds_filed hdistinct
  have hserve := snapshot_of_stored hdistinct others hput hr htoken
  constructor
  · rintro ⟨hserved, -⟩
    by_contra hplain
    -- a plain file is not the sealed form of its own content
    have hobjects : d.sessionConfig.objects = .plain := by
      simp [Deployment.sessionConfig, openStore, hplain]
    rw [hserve, hobjects] at hserved
    cases hopen : d.key.open (ObjectStore.utf8 c.imageToken)
        (ObjectStore.plain.stored nonce c.imageToken f.data) with
    | error e =>
      rw [hopen] at hserved
      cases hserved
    | ok bytes =>
      rw [hopen] at hserved
      obtain rfl : bytes = f.data := (Snapshot.mk.inj (Except.ok.inj hserved)).2
      exact absurd hopen hkey.open_ne_self
  · intro hsealed
    have hobjects : d.sessionConfig.objects = .encrypted d.key := by
      simp [Deployment.sessionConfig, openStore, hsealed]
    have hopen : d.key.open (ObjectStore.utf8 c.imageToken)
        (d.sessionConfig.objects.stored nonce c.imageToken f.data) = .ok f.data := by
      rw [hobjects]
      exact hkey.open_seal hnonce _ _
    refine ⟨by rw [hserve, hopen]; rfl, fun hjpeg hfresh env stats budget hdisk => ?_⟩
    have hext : f.ext = "jpg" := if_pos hjpeg
    obtain ⟨hread, -⟩ := hfiled.read_frame hdistinct.canonical hput
    rw [← hfiled.row_date hput hr htoken, hext] at hread
    exact imageStep_reads d.enrichConfig env rfl rfl hread hopen hfresh hdisk stats budget _

end

/-! ### One screenshot -/

section

attribute [local instance] TextTables.ascii UuidText.crate

/-- An AEAD whose tag is sixteen zeros: what it seals it opens, and what carries another tag, as
    plain bytes do, it refuses. -/
def tagAead : Aead where
  encrypt := fun _ _ msg => msg ++ List.replicate 16 0
  decrypt := fun _ _ ct =>
    if 16 ≤ ct.length ∧ ct.drop (ct.length - 16) = List.replicate 16 0
    then some (ct.take (ct.length - 16)) else none

/-- It opens what it sealed, under the same token. -/
theorem tagAead_lawful : tagAead.Lawful where
  decrypt_encrypt := by
    intro nonce aad msg _
    simp [tagAead]
  length_decrypt := by
    intro nonce aad ct msg h
    simp only [tagAead, Option.ite_none_right_eq_some] at h
    obtain ⟨⟨hlong, -⟩, hmsg⟩ := h
    obtain rfl := Option.some.inj hmsg
    rw [List.length_take]
    omega

/-- A record whose image token is a UUID. -/
def tokenCapture : WindowCaptureRecord := { smallCapture with imageToken := smallId.text }

/-- Every metadata payload is a batch with that record. -/
def tokenJson : JsonReader where
  captureBatch := fun _ => some ⟨smallId, 0, [tokenCapture]⟩
  audioHead := fun _ => none

/-- A deployment whose broker encrypts or does not; nothing else differs between the two. -/
def smallDeployment (encryptAtRest : Bool) : Deployment where
  json := tokenJson
  config := { encryptAtRest := encryptAtRest, embeddingDim := 1 }
  key := tagAead
  clientId := smallId
  hostname := "h"
  apiDim := 1

/-- The client sends one screenshot with its record, over one session. -/
def smallRounds : List Round :=
  [.session 0 ([smallFrame 1 smallJpeg, ⟨.pcMeta, []⟩].map
    fun m => ⟨m, fun _ => List.replicate 12 0, 0⟩) 100]

/-- No token of those rounds occurs twice. -/
theorem smallRounds_distinct (encryptAtRest : Bool) :
    (smallDeployment encryptAtRest).DistinctTokens smallRounds where
  nodup := by
    show (tokens [tokenCapture]).Nodup
    decide
  canonical := by
    intro t ht
    exact ⟨smallId, List.mem_singleton.mp ht⟩

/-- The frame is stored for its capture, whether it is encrypted or not. -/
theorem smallRounds_stored : ∀ encryptAtRest,
    StoredFrame (smallDeployment encryptAtRest) smallRounds tokenCapture
      ⟨rdpgfxCodecidJpeg, smallJpeg⟩ := by
  have hput : ∀ encryptAtRest, putFrame (smallDeployment encryptAtRest).sessionConfig
      (List.replicate 12 0) tokenCapture ⟨rdpgfxCodecidJpeg, smallJpeg⟩
        ∈ (smallDeployment encryptAtRest).log smallRounds := by
    decide +kernel
  exact fun encryptAtRest => ⟨List.replicate 12 0, by decide, hput encryptAtRest⟩

/-- So is the row of the capture. -/
theorem smallRounds_row : ∀ encryptAtRest, (1, Ukg.captureRow tokenCapture) ∈
    ((smallDeployment encryptAtRest).dir smallRounds).ukg.windowCapture.rows := by
  decide +kernel

/-- With sealed objects the screenshot reads back. -/
theorem stored_readable_sealed :
    ReadsBack (smallDeployment true) smallRounds (fun _ => none)
      (1, Ukg.captureRow tokenCapture) tokenCapture.imageToken ⟨rdpgfxCodecidJpeg, smallJpeg⟩ :=
  (stored_readable_iff (smallDeployment true) tagAead_lawful smallRounds
    (smallRounds_distinct true) (fun _ => none) tokenCapture _ (smallRounds_stored true)
    (1, Ukg.captureRow tokenCapture) (smallRounds_row true) rfl).mpr rfl

/-- A broker that stores plain objects: the frame is stored and its row is there, and yet the
    route answers with an error. -/
theorem plain_unreadable :
    tagAead.Lawful ∧ (smallDeployment false).DistinctTokens smallRounds ∧
    StoredFrame (smallDeployment false) smallRounds tokenCapture ⟨rdpgfxCodecidJpeg, smallJpeg⟩ ∧
    (1, Ukg.captureRow tokenCapture) ∈
      ((smallDeployment false).dir smallRounds).ukg.windowCapture.rows ∧
    snapshot (Function.update (fun _ => none) smallId
      (some ((smallDeployment false).dir smallRounds))) tagAead smallId.text 1
        = .error (.objects (.crypto .truncated)) ∧
    ¬ ReadsBack (smallDeployment false) smallRounds (fun _ => none)
      (1, Ukg.captureRow tokenCapture) tokenCapture.imageToken
        ⟨rdpgfxCodecidJpeg, smallJpeg⟩ := by
  have hanswer : snapshot (Function.update (fun _ => none) smallId
      (some ((smallDeployment false).dir smallRounds))) tagAead smallId.text 1
        = .error (.objects (.crypto .truncated)) := by
    rw [snapshot_of_row (Function.update_self ..) (smallRounds_row false) rfl]
    decide +kernel
  refine ⟨tagAead_lawful, smallRounds_distinct false, smallRounds_stored false,
    smallRounds_row false, hanswer, fun hreads => ?_⟩
  have hserved := hreads.served
  rw [show (smallDeployment false).clientId = smallId from rfl,
    show (smallDeployment false).key = tagAead from rfl, hanswer] at hserved
  cases hserved

end

end Precall.Api
