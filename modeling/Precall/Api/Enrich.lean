import Precall.Store.Client

namespace Precall.Api

open ByteLib TextLib Durable Precall.Proto Precall.Store

/-!
# The enrichment pass

`enrich_client` of `precall-api/src/enrich.rs` as a program over one client's directory: a
sequence of reads and of committed writes.  What the environment decides during a pass (the
clock, what the embedder answers, which file accesses fail) is a `PassEnv`.

* `alignSpace` — a store that holds another space is rebuilt (`clear`, requeue) before its label
  moves; the health check at the start of a pass and both legs in the middle of one use it;
* `requeueUnavailable` — a leg whose route was absent is requeued once the service answers;
* `textLeg`, `imageStep`, `imageRecord` — the two legs of one capture;
* `enrichClient` — the pass: space check, flags, backfill queue, fresh queue.

An I/O error that ends a pass is a run that stops early; the errors the code swallows (a flag
that cannot be read, an object that cannot be read) are in the environment.
-/

/-- What one pass accomplished, as it is logged: what was embedded, given up and left for later. -/
structure EnrichStats where
  textEmbeddings : Nat := 0
  imageEmbeddings : Nat := 0
  backfilled : Nat := 0
  imagesSkipped : Nat := 0
  imagesPending : Nat := 0
  textsPending : Nat := 0
  deriving DecidableEq, Repr

/-- How one capture's image leg ended: embedded, given up, to be tried again, or without an image
    route to try. -/
inductive ImageLeg where
  | done
  | terminal
  | retry
  | unavailable
  deriving DecidableEq, Repr

/-- What to do with one capture's image leg: nothing, for it has ended, or hand this object to
    the embedder. -/
inductive ImageStep where
  | embed (jpeg : Bytes) (attempts : Int)
  | settled (leg : ImageLeg)
  deriving DecidableEq, Repr

/-- What stays the same over all passes: the client, the width of the stores, and how objects are
    opened. -/
structure EnrichConfig where
  client : String
  dim : Nat
  objects : ObjectStore

/-- What the environment decides during one pass.  A capture's legs run at most once in a pass,
    so answers are given per capture. -/
structure PassEnv where
  now : Int
  spaces : Option (String × String)
  embedText : (wcId : Int) → (text : String) → EmbedOutcome
  embedImage : (wcId : Int) → (jpeg : Bytes) → EmbedOutcome
  topics : (wcId : Int) → (text : String) → List (String × F64)
  flagReadFails : (key : String) → Bool
  statFails : Path → Bool
  readFails : Path → Bool
  ioText : Path → String
  stepClock : (wcId : Int) → Int
  recordClock : (wcId : Int) → Int

/-- Captures handled per queue per pass. -/
def batch : Int := 64

/-- How long a failed attempt waits before it is retried: a minute, in units of 100 ns. -/
def retryBackoffTicks : Int := 60 * 10000000

/-- `TEXT_UNAVAILABLE`. -/
def textUnavailable : String := "enrich.text_unavailable"

/-- `IMAGE_UNAVAILABLE`. -/
def imageUnavailable : String := "enrich.image_unavailable"

/-- The `PrecallConfig` key that records a leg's route was absent. -/
def flagKey : Leg → String
  | .text => textUnavailable
  | .image => imageUnavailable

/-- `flag_set` — a flag that cannot be read counts as unset. -/
def flagSet (env : PassEnv) (ukg : Ukg) (key : String) : Bool :=
  !env.flagReadFails key && ukg.getConfig key == some "1"

/-- `usable` — is a vector of the store's width? Only such a vector is entered. -/
def usable (vec : List F32) (dim : Nat) : Bool := vec.length == dim

/-- `space_mismatch` — does the store hold vectors of a different space? A store that was only
    stamped, under the placeholder, does not. -/
def spaceMismatch (idx : SiDb) (space : String) : Bool :=
  match idx.spaceId with
  | some s => s != space && s != spaceUnknown
  | none => false

/-- Programs over a client's directory: reads of it, and the writes they commit one by one. -/
abbrev Enricher := Prog ClientDir Event

/-! ### Whole-store operations -/

/-- `SemanticIndex::open` — stamps a store that has never been stamped. -/
def openIndex (cfg : EnrichConfig) (leg : Leg) : Enricher Unit := do
  let dir ← Prog.get
  if (dir.index leg).info.isNone then Prog.commit (.ensureInfo leg cfg.dim spaceUnknown)
  else pure ()

/-- `SemanticIndex::clear` — three statements, each committed on its own. -/
def clear (leg : Leg) : Enricher Unit := do
  Prog.commit (.clearMetadata leg)
  Prog.commit (.clearGraph leg)
  Prog.commit (.clearItems leg)

/-- The write that puts every capture of a leg back to work: all processed flags are taken back,
    or all embedding states forgotten. -/
def requeue : Leg → Event
  | .text => .markAllUnprocessed
  | .image => .resetImageEmbeddingStates

/-- Clear a store and put every capture of its leg back to work.  A pass that breaks off in
    between has put nothing back yet. -/
def rebuild (leg : Leg) : Enricher Unit := do
  clear leg
  Prog.commit (requeue leg)

/-- Rebuild a store that holds another space, then move its label.  Where the space is the same
    the label is written once more. -/
def alignSpace (cfg : EnrichConfig) (leg : Leg) (space : String) : Enricher Unit := do
  let dir ← Prog.get
  if spaceMismatch (dir.index leg) space then rebuild leg else pure ()
  Prog.commit (.setSpaceId leg cfg.dim space)

/-- The service answers again: put the captures of an unavailable leg back to work, after its
    flag is taken down. -/
def requeueUnavailable (env : PassEnv) (leg : Leg) : Enricher Unit := do
  let dir ← Prog.get
  if flagSet env dir.ukg (flagKey leg) then do
    Prog.commit (.setConfig (flagKey leg) "0")
    Prog.commit (requeue leg)
  else pure ()

/-! ### The image leg of one capture -/

/-- Record a state row: how the image leg of a capture stands, how often it was tried, and what
    went wrong. -/
def setState (wcId : Int) (state : ImageState) (attempts : Int) (lastError : Option String)
    (now : Int) : Enricher Unit :=
  Prog.commit (.setImageEmbeddingState wcId state attempts lastError now)

/-- One more screenshot was given up. -/
def EnrichStats.skip (stats : EnrichStats) : EnrichStats :=
  { stats with imagesSkipped := stats.imagesSkipped + 1 }

/-- One more screenshot is left for a later pass. -/
def EnrichStats.pend (stats : EnrichStats) : EnrichStats :=
  { stats with imagesPending := stats.imagesPending + 1 }

/-- Text of an `ObjectError`, as the state row records it; `ioText` is the operating system's. -/
def errorText (ioText : String) : ObjectError → String
  | .io => "I/O: " ++ ioText
  | .crypto .truncated => "crypto: ciphertext too short"
  | .crypto .decrypt => "crypto: decryption failed"
  | .notFound path => "not found: " ++ "/".intercalate path

section
variable [TextTables]

/-- Is there a file at a path, as far as the operating system tells? -/
def visible (env : PassEnv) (files : Files) (path : Path) : Bool :=
  !env.statFails path && ObjectStore.exists files path

/-- The tail of `image_step`: find and read the object of a capture that has a timestamp.  A raw
    frame or a bad ciphertext ends the leg, anything else is retried. -/
def readJpeg (cfg : EnrichConfig) (env : PassEnv) (wcId ts : Int) (token : String)
    (attempts : Int) (stats : EnrichStats) : Enricher (ImageStep × EnrichStats) := do
  let dir ← Prog.get
  let now := env.stepClock wcId
  let rel := keyPath cfg.client (ymdFromFiletime ts) token "jpg"
  if !visible env dir.files rel then
    if visible env dir.files (keyPath cfg.client (ymdFromFiletime ts) token "raw") then do
      setState wcId .skipped (attempts + 1) (some "non-JPEG frame") now
      pure (.settled .terminal, stats.skip)
    else do
      setState wcId .pending (attempts + 1) (some "object missing") now
      pure (.settled .retry, stats.pend)
  else match cfg.objects.get dir.files (env.readFails rel) cfg.client rel token with
    | .ok jpeg => pure (.embed jpeg attempts, stats)
    | .error (.crypto e) => do
        setState wcId .skipped (attempts + 1) (some (errorText (env.ioText rel) (.crypto e))) now
        pure (.settled .terminal, stats.skip)
    | .error e => do
        setState wcId .pending (attempts + 1) (some (errorText (env.ioText rel) e)) now
        pure (.settled .retry, stats.pend)

/-- `image_step` — everything before the embedder call.  It looks at the store before the state
    row, so a vector that is there settles the matter. -/
def imageStep (cfg : EnrichConfig) (env : PassEnv) (wcId : Int) (ts : Option Int) (token : String)
    (stats : EnrichStats) : Enricher (ImageStep × EnrichStats) := do
  let dir ← Prog.get
  let prior := dir.ukg.imageEmbeddingState wcId
  let attempts := (prior.map fun p => p.2.1).getD 0
  if dir.image.hasItem (itemIdForCapture wcId) then
    if prior.map Prod.fst = some .done then pure (.settled .done, stats)
    else do
      setState wcId .done attempts none (env.stepClock wcId)
      pure (.settled .done, stats)
  else if prior.map Prod.fst = some .skipped then pure (.settled .terminal, stats.skip)
  else match ts with
    | none => do
        setState wcId .skipped (attempts + 1) (some "no timestamp") (env.stepClock wcId)
        pure (.settled .terminal, stats.skip)
    | some ts => readJpeg cfg env wcId ts token attempts stats

/-- `image_record` — what the embedder's answer changes.  The label is moved, and the store
    rebuilt if need be, before a vector is entered. -/
def imageRecord (cfg : EnrichConfig) (env : PassEnv) (wcId attempts : Int)
    (outcome : EmbedOutcome) (stats : EnrichStats) : Enricher (ImageLeg × EnrichStats) :=
  let now := env.recordClock wcId
  match outcome with
  | .ok embedding space =>
      if !usable embedding cfg.dim then do
        setState wcId .skipped (attempts + 1) (some "embedder returned a wrong-width vector") now
        pure (.terminal, stats.skip)
      else do
        alignSpace cfg .image space
        Prog.commit (.insertVector .image (itemIdForCapture wcId) embedding)
        setState wcId .done (attempts + 1) none now
        pure (.done, { stats with imageEmbeddings := stats.imageEmbeddings + 1 })
  | .disabled => do
      Prog.commit (.setConfig imageUnavailable "1")
      pure (.unavailable, stats.skip)
  | .rejected => do
      setState wcId .skipped (attempts + 1) (some "embedder refused input") now
      pure (.terminal, stats.skip)
  | .retry => do
      setState wcId .pending (attempts + 1) (some "embedder unavailable") now
      pure (.retry, stats.pend)

/-- The image leg of one capture: step, embedder call, record.  The call is an event of the log,
    though it writes nothing. -/
def imageLeg (cfg : EnrichConfig) (env : PassEnv) (wcId : Int) (ts : Option Int) (token : String)
    (stats : EnrichStats) : Enricher (ImageLeg × EnrichStats) := do
  let (step, stats) ← imageStep cfg env wcId ts token stats
  match step with
  | .settled leg => pure (leg, stats)
  | .embed jpeg attempts => do
      Prog.commit (.embedded .image wcId (env.embedImage wcId jpeg))
      imageRecord cfg env wcId attempts (env.embedImage wcId jpeg) stats

end

/-! ### The text leg of one capture -/

/-- The OCR text of a capture: its regions' texts, joined by a space. -/
def ocrText (ukg : Ukg) (wcId : Int) : String :=
  " ".intercalate ((ukg.regions wcId).filterMap fun r => r.2.ocrText)

/-- What the embedder's answer for a text changes; the result says whether to retry.  A refusal
    leaves no trace, unlike one of an image. -/
def textRecord (cfg : EnrichConfig) (wcId : Int) (outcome : EmbedOutcome) (stats : EnrichStats) :
    Enricher (Bool × EnrichStats) :=
  match outcome with
  | .ok embedding space =>
      if !usable embedding cfg.dim then pure (false, stats)
      else do
        alignSpace cfg .text space
        Prog.commit (.insertVector .text (itemIdForCapture wcId) embedding)
        pure (false, { stats with textEmbeddings := stats.textEmbeddings + 1 })
  | .disabled => do
      Prog.commit (.setConfig textUnavailable "1")
      pure (false, stats)
  | .rejected => pure (false, stats)
  | .retry => pure (true, { stats with textsPending := stats.textsPending + 1 })

/-- Attach the topics of a text. -/
def attachTopics (wcId : Int) (topics : List (String × F64)) : Enricher Unit :=
  Prog.forEach (fun t (_ : Unit) => Prog.commit (.attachTopic wcId t.1 t.2)) topics ()

/-- The text leg of one capture; the result says whether to retry.  A capture without text, or
    with its text in the store, has nothing to do. -/
def textLeg (cfg : EnrichConfig) (env : PassEnv) (wcId : Int) (stats : EnrichStats) :
    Enricher (Bool × EnrichStats) := do
  let dir ← Prog.get
  let text := ocrText dir.ukg wcId
  if text = "" ∨ dir.text.hasItem (itemIdForCapture wcId) then pure (false, stats)
  else do
    Prog.commit (.embedded .text wcId (env.embedText wcId text))
    let (textRetry, stats) ← textRecord cfg wcId (env.embedText wcId text) stats
    if textRetry then pure (true, stats)
    else do
      attachTopics wcId (env.topics wcId text)
      pure (false, stats)

/-! ### The pass -/

/-- What the two loops carry along: whether the image route was found missing, and the numbers so
    far. -/
structure LoopState where
  stopImages : Bool := false
  stats : EnrichStats := {}
  deriving DecidableEq, Repr

section
variable [TextTables]

/-- One capture of the backfill queue; nothing happens once the leg has been found unavailable. -/
def backfillOne (cfg : EnrichConfig) (env : PassEnv) (entry : Int × Option Int × String)
    (acc : LoopState) : Enricher LoopState :=
  if acc.stopImages then pure acc
  else do
    Prog.commit (.touchEnrichAttempt entry.1 env.now)
    let (leg, stats) ← imageLeg cfg env entry.1 entry.2.1 entry.2.2 acc.stats
    match leg with
    | .done => pure { acc with stats := { stats with backfilled := stats.backfilled + 1 } }
    | .unavailable => pure { stopImages := true, stats := stats }
    | .terminal | .retry => pure { acc with stats := stats }

/-- The image leg of a fresh capture; one without an image token is given up at once. -/
def freshImage (cfg : EnrichConfig) (env : PassEnv) (wcId : Int) (ts : Option Int)
    (imageToken : Option String) (acc : LoopState) : Enricher (ImageLeg × EnrichStats) :=
  if acc.stopImages then pure (.unavailable, acc.stats)
  else match imageToken with
    | some token => imageLeg cfg env wcId ts token acc.stats
    | none => do
        setState wcId .skipped 1 (some "no image token") env.now
        pure (.terminal, acc.stats.skip)

/-- One capture of the fresh queue: both legs, and `mark_processed` when nothing is left to
    retry. -/
def freshOne (cfg : EnrichConfig) (env : PassEnv) (entry : Int × Option Int × Option String)
    (acc : LoopState) : Enricher LoopState := do
  Prog.commit (.touchEnrichAttempt entry.1 env.now)
  let (textRetry, stats) ← textLeg cfg env entry.1 acc.stats
  let (leg, stats) ← freshImage cfg env entry.1 entry.2.1 entry.2.2 { acc with stats := stats }
  let acc := { stopImages := acc.stopImages || leg == .unavailable, stats := stats }
  if !textRetry && leg != .retry then do
    Prog.commit (.markProcessed entry.1)
    pure acc
  else pure acc

/-- What a pass does once the service has reported its spaces; if it has not, the stores are left
    as they are. -/
def checkSpaces (cfg : EnrichConfig) (env : PassEnv) : Enricher Unit :=
  match env.spaces with
  | some (textSpace, imageSpace) => do
      alignSpace cfg .text textSpace
      alignSpace cfg .image imageSpace
      requeueUnavailable env .text
      requeueUnavailable env .image
  | none => pure ()

/-- `enrich_client` — one pass over one client: open the stores, bring them in line with the
    service, read both queues, work them off. -/
def enrichClient (cfg : EnrichConfig) (env : PassEnv) : Enricher EnrichStats := do
  openIndex cfg .text
  openIndex cfg .image
  checkSpaces cfg env
  let dir ← Prog.get
  let backfill := dir.ukg.capturesNeedingImageEmbedding batch env.now retryBackoffTicks
  let fresh := dir.ukg.capturesPendingEnrichment batch env.now retryBackoffTicks
  let acc ← Prog.forEach (backfillOne cfg env) backfill {}
  let acc ← Prog.forEach (freshOne cfg env) fresh acc
  pure acc.stats

/-! ### Histories -/

/-- One step of a client's history: the ingesting process commits some writes, or a pass runs
    until its budget of writes is used up. -/
inductive Step (cfg : EnrichConfig) where
  | ingest (events : List { e : Event // e.ingested cfg.client = true })
  | pass (env : PassEnv) (budget : Nat)

/-- What a pass leaves, started after the events of `log` and cut off when its budget of writes
    is used up. -/
def runPass (cfg : EnrichConfig) (env : PassEnv) (budget : Nat) (log : List Event) :
    Outcome ClientDir Event EnrichStats :=
  (enrichClient cfg env).run Event.apply budget (ClientDir.after log) log

/-- The log after one more step. -/
def Step.extend (cfg : EnrichConfig) (log : List Event) : Step cfg → List Event
  | .ingest events => log ++ events.map Subtype.val
  | .pass env budget => (runPass cfg env budget log).log

/-- The log of a history. -/
def history (cfg : EnrichConfig) (steps : List (Step cfg)) : List Event :=
  steps.foldl (Step.extend cfg) []

end

/-! ### A small deployment

One client `c` with stores of width 1, an AEAD whose tag is sixteen zeros, and one capture with
a four-byte screenshot: enough to run a history by evaluation. -/

/-- An AEAD that pads with zeros: enough to run a pass on. -/
def smallAead : Aead where
  encrypt := fun _ _ msg => msg ++ List.replicate 16 0
  decrypt := fun _ _ ct => some (ct.take (ct.length - 16))

/-- An enricher for vectors of one number. -/
def smallConfig : EnrichConfig := { client := "c", dim := 1, objects := ⟨some smallAead⟩ }

/-- The first and the last marker of a JPEG file. -/
def smallJpeg : Bytes := [0xff, 0xd8, 0xff, 0xd9]

/-- A capture of 1970-01-01 with one OCR region. -/
def smallRecord : WindowCaptureRecord :=
  { name := "notepad.exe (1)", imageToken := "t", isForeground := true, windowId := 1,
    windowBounds := "0,0,1,1", windowTitle := "notes", timestamp100ns := 116444736000000000,
    regions := [{ regionKind := "text_block", ocrText := some "hello", bounds := "0,0,1,1" }] }

/-- The capture and its screenshot arrive, in two writes. -/
def smallArrival : Step smallConfig :=
  .ingest
    [⟨.insertCapture smallRecord, rfl⟩,
      ⟨.putObject "c" (ymdFromFiletime 116444736000000000) "t" "jpg"
        (smallConfig.objects.stored (List.replicate 12 0) "t" smallJpeg), rfl⟩]

/-- A capture of a hundred seconds later, with a screenshot of its own. -/
def laterRecord : WindowCaptureRecord :=
  { smallRecord with imageToken := "u", timestamp100ns := 116444737000000000 }

/-- It arrives with its screenshot. -/
def laterArrival : Step smallConfig :=
  .ingest
    [⟨.insertCapture laterRecord, rfl⟩,
      ⟨.putObject "c" (ymdFromFiletime 116444737000000000) "u" "jpg"
        (smallConfig.objects.stored (List.replicate 12 0) "u" smallJpeg), rfl⟩]

/-- A pass at time `now` in which every file access works, the service reports `spaces`, and
    every call is answered by `text` or `image`. -/
def smallEnv (now : Int) (spaces : Option (String × String)) (text image : EmbedOutcome) :
    PassEnv where
  now := now
  spaces := spaces
  embedText := fun _ _ => text
  embedImage := fun _ _ => image
  topics := fun _ _ => []
  flagReadFails := fun _ => false
  statFails := fun _ => false
  readFails := fun _ => false
  ioText := fun _ => ""
  stepClock := fun _ => now
  recordClock := fun _ => now

end Precall.Api
