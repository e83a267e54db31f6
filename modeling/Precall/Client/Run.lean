import Precall.Client.Privacy
import Precall.Client.Session
import Precall.Lib.Runs

namespace Precall.Client

open ByteLib TextLib Precall.Proto

/-!
# The capture loop

`run` of `precall-client/src/run.rs` with the capture thread of `dxgi.rs` in front of it, as a
machine: every input is one event of the environment or one branch of the `select!` that is
taken.  An input that is not enabled changes nothing.

A frame travels from the capture thread's unbounded channel over the bridge (which may hold one)
into a channel of four, from there into `latest_frame`, and at the next tick to the server.  The
first three outlive a connection.

Four fields of the state and the stamp of a frame are bookkeeping that no step reads: the number
of the current input, when the desktop last changed, the exclusion list in force, and what has
been transmitted.

* `step_uploads` — what one input transmits on `GfxRdp` and `PcMeta`;
* `step_buffered` — what one input does to the frames on their way.
-/

/-! ### Frames -/

/-- A desktop frame straight off the GPU, with the number of regions that changed. -/
structure CaptureFrame where
  bgra : Bytes
  width : UInt32
  height : UInt32
  dirtyRegions : UInt32
  deriving DecidableEq, Repr

/-- The circumstances of a capture: the number of the input, the foreground window, the pause
    flag. -/
structure Stamp where
  time : Nat
  window : Window
  paused : Bool
  deriving DecidableEq, Repr

/-- A frame of the grabber with the stamp it was captured under; the stamp is for the statements,
    the client has none. -/
structure Captured where
  frame : CaptureFrame
  stamp : Stamp
  deriving DecidableEq, Repr

/-- `cheap_hash` — FNV over the first 16 bytes of every 4096, so most of a picture has no say in
    it. -/
def cheapHash (bgra : Bytes) : UInt64 :=
  let chunks := (List.range ((bgra.length + 4095) / 4096)).map fun i =>
    (bgra.drop (4096 * i)).take 4096
  (chunks.flatMap fun chunk => chunk.take 16).foldl
    (fun h b => (h ^^^ b.toUInt64) * 0x100000001b3) 0xcbf29ce484222325

/-! ### The state -/

/-- What the loop reads of the client's configuration. -/
structure ClientConfig where
  clientId : Uuid
  enableAudio : Bool
  enableOcr : Bool
  excludedProcesses : List String
  excludedDomains : List String

/-- Frames/skipped counters for the heartbeat. -/
structure Counters where
  framesSent : UInt64 := 0
  framesSkippedUnchanged : UInt64 := 0
  framesSkippedPrivacy : UInt64 := 0
  deriving DecidableEq, Repr

/-- `AudioChunk` — samples of the loopback device. -/
structure AudioChunk where
  pcm16 : List Int16
  channels : UInt16
  sampleRate : UInt32
  deriving DecidableEq, Repr

/-- One call of `send_frame` and, if it succeeded, of `send_meta`; with the frame it was about,
    the window its record was built from and the exclusion list in force. -/
structure Upload where
  captured : Captured
  window : Window
  inForce : Exclusions
  record : WindowCaptureRecord
  frame : MuxFrame
  batch : Option CaptureBatch
  deriving DecidableEq, Repr

/-- What the client hands to the transport, whether or not it gets through. -/
inductive Outgoing where
  | upload (u : Upload)
  | audio (chunk : AudioChunk)
  | control (msg : ControlMessage)
  deriving DecidableEq, Repr

/-- The variables of the inner loop: they live as long as the connection, and start anew with the
    next. -/
structure Live where
  conn : Connection
  latestFrame : Option Captured
  pending : List UInt64
  deriving DecidableEq, Repr

/-- The state of the client as its threads share it: the grabber's queue, the bridge to the
    asynchronous side with what it holds in its hand, the variables of the outer loop, and those
    of the inner loop while there is a connection (`live`). -/
structure ClientState where
  window : Window
  threadQueue : List (Option Captured)
  inHand : Option Captured
  bridgeAlive : Bool
  chan : List Captured
  paused : Bool
  lastHash : UInt64
  counters : Counters
  backoff : Nat
  stopped : Bool
  live : Option Live
  clock : Nat
  changedAt : Nat
  inForce : Exclusions
  sent : List Outgoing
  deriving DecidableEq, Repr

/-- What a tick reads besides the foreground window: the results of the encoders, the address
    bar, Explorer, the clock, and whether the two sends succeed. -/
structure TickReadings where
  jpeg : Option Bytes
  ocr : Option (List ScreenRegionRecord)
  edits : List EditControl
  locations : List String
  token : String
  now : UInt64
  frameSent : Bool
  metaSent : Bool

/-- What happens next: on the desktop, in the capture thread, in the bridge, or in the loop. -/
inductive Input where
  | foreground (w : Window)
  | capture (frame : CaptureFrame)
  | captureFails
  | bridgeTake
  | bridgePut
  | connect (ok : Bool)
  | recv
  | tick (r : TickReadings)
  | audio (chunk : AudioChunk) (sent : Bool)
  | heartbeat (sent : Bool)
  | control (msg : Except Unit (Option ControlMessage))
  | stop

section
variable [TextTables]

/-- The exclusion list the loop was started with. -/
def ClientConfig.exclusions (cfg : ClientConfig) : Exclusions :=
  Exclusions.new cfg.excludedProcesses cfg.excludedDomains

/-- The state `run` starts in, with `w` in the foreground. -/
def ClientState.initial (cfg : ClientConfig) (w : Window) : ClientState where
  window := w
  threadQueue := []
  inHand := none
  bridgeAlive := true
  chan := []
  paused := false
  lastHash := 0
  counters := {}
  backoff := 500
  stopped := false
  live := none
  clock := 1
  changedAt := 0
  inForce := cfg.exclusions
  sent := []

/-! ### The tick -/

/-- The `window_bounds` column. -/
def boundsText (b : WindowBounds) : String :=
  toString b.left ++ "," ++ toString b.top ++ "," ++ toString b.right ++ "," ++ toString b.bottom

/-- The record of a tick: the snapshot of the foreground window, and what is read of the desktop
    at the tick. -/
def captureRecord (cfg : ClientConfig) (m : WindowMeta) (r : TickReadings) :
    WindowCaptureRecord where
  name := m.captureName
  imageToken := r.token
  isForeground := true
  windowId := m.hwnd
  windowBounds := boundsText m.bounds
  windowTitle := m.title
  properties := none
  timestamp100ns := r.now
  activationUri := m.activationUri
  activityId := m.aumid
  fallbackUri := m.fallbackUri
  apps := m.appRecord.toList
  files := explorerPaths r.locations
  -- read after the gate, which has only seen the snapshot's empty `urls`
  webs := if m.pid ≠ 0 then browserUrl r.edits else []
  regions := if cfg.enableOcr then r.ocr.getD [] else []

/-- `Connection::send_meta` — a batch of one record. -/
def Connection.sendMeta (clientId : Uuid) (conn : Connection) (cap : WindowCaptureRecord) :
    Connection × CaptureBatch :=
  let seq := conn.seq + 1
  ({ conn with seq := seq }, { clientId := clientId, seq := seq, captures := [cap] })

/-- The two sends of a tick; the second is made only if the first succeeded. -/
def uploadOf (cfg : ClientConfig) (st : ClientState) (conn : Connection) (c : Captured)
    (jpeg : Bytes) (r : TickReadings) : Upload :=
  let record := captureRecord cfg (foregroundMeta st.window) r
  let sent := conn.sendFrame jpeg c.frame.width c.frame.height r.now
  { captured := c
    window := st.window
    inForce := st.inForce
    record := record
    frame := sent.2
    batch := if r.frameSent then some (sent.1.sendMeta cfg.clientId record).2 else none }

/-- A timestamp joins the queue the heartbeat counts. -/
def pushTimestamp (pending : List UInt64) (now : UInt64) : List UInt64 :=
  if pending.length + 1 > 64 then (pending ++ [now]).tail else pending ++ [now]

/-- The end of a tick: both sends, each of which may drop the connection, and the counters if
    neither does. -/
def transmit (cfg : ClientConfig) (st : ClientState) (live : Live) (c : Captured) (jpeg : Bytes)
    (r : TickReadings) : ClientState :=
  let u := uploadOf cfg st live.conn c jpeg r
  let conn := (live.conn.sendFrame jpeg c.frame.width c.frame.height r.now).1
  let st := { st with sent := st.sent ++ [Outgoing.upload u] }
  if !r.frameSent then { st with live := none }
  else if !r.metaSent then { st with live := none }
  else { st with
    live := some { live with
      conn := (conn.sendMeta cfg.clientId u.record).1
      pending := pushTimestamp live.pending r.now }
    counters := { st.counters with framesSent := st.counters.framesSent + 1 } }

/-- Is a frame unchanged since the last one that passed? Its hash is the same, and no region is
    dirty. -/
def isUnchanged (st : ClientState) (frame : CaptureFrame) : Bool :=
  cheapHash frame.bgra == st.lastHash && frame.dirtyRegions == 0

/-- What the gate says about the desktop as it is now, by the list the loop was started with. -/
def gate (cfg : ClientConfig) (st : ClientState) : Option DropReason :=
  check st.paused (some (foregroundMeta st.window)) cfg.exclusions (isProtectedWindow st.window)

/-- The tick branch: dedup, gate, encoder, sends, in this order; each may be the end of the
    frame. -/
def tick (cfg : ClientConfig) (st : ClientState) (live : Live) (r : TickReadings) : ClientState :=
  match live.latestFrame with
  | none => st
  | some c =>
    let live := { live with latestFrame := none }
    let counters := st.counters
    if isUnchanged st c.frame then { st with
      live := some live
      counters := { counters with framesSkippedUnchanged := counters.framesSkippedUnchanged + 1 } }
    else
      -- the hash is remembered even if the frame is dropped below
      let st := { st with live := some live, lastHash := cheapHash c.frame.bgra }
      -- the window is sampled here, not when the frame was captured
      match gate cfg st with
      | some reason =>
          if reason ≠ .noWindow then { st with
            counters :=
              { counters with framesSkippedPrivacy := counters.framesSkippedPrivacy + 1 } }
          else st
      | none => match r.jpeg with
        | none => st
        | some jpeg => transmit cfg st live c jpeg r

/-! ### The machine -/

/-- A message read by `next_ctrl`; an error or a goodbye ends the connection.  The exclusion list
    of the loop is never replaced. -/
def control (st : ClientState) (live : Live) : Except Unit (Option ControlMessage) → ClientState
  | .ok (some .pause) => { st with paused := true }
  | .ok (some (.resume _)) =>
      { st with paused := false, changedAt := if st.paused then st.clock else st.changedAt }
  | .ok (some .panicWipe) =>
      { st with live := some { live with pending := [] }, paused := true }
  | .ok (some (.goodbye _)) => { st with live := none }
  -- the loop ignores it; only the bookkeeping follows
  | .ok (some (.setExclusions apps domains)) => { st with inForce := Exclusions.new apps domains }
  | .ok (some (.heartbeat ..)) | .ok none => st
  | .error _ => { st with live := none }

/-- The heartbeat branch: the counters and the length of the queue, and the connection is lost if
    it cannot be sent. -/
def heartbeat (st : ClientState) (live : Live) (sent : Bool) : ClientState :=
  { st with
    sent := st.sent ++ [.control (.heartbeat st.counters.framesSent
      st.counters.framesSkippedUnchanged (UInt32.ofNat live.pending.length))]
    live := if sent then some live else none }

/-- The audio branch, which looks neither at the pause flag nor at the gate. -/
def audio (cfg : ClientConfig) (st : ClientState) (live : Live) (chunk : AudioChunk)
    (sent : Bool) : ClientState :=
  if cfg.enableAudio then
    { st with sent := st.sent ++ [.audio chunk], live := if sent then some live else none }
  else st

/-- The frame branch: the channel's front becomes `latest_frame`; a drained channel whose bridge
    has ended ends the connection. -/
def recv (st : ClientState) (live : Live) : ClientState :=
  match st.chan with
  | c :: chan => { st with chan := chan, live := some { live with latestFrame := some c } }
  | [] => if !st.bridgeAlive && st.inHand.isNone then { st with live := none } else st

/-- The bridge takes the next item of the capture thread; an error ends it. -/
def bridgeTake (st : ClientState) : ClientState :=
  if !st.bridgeAlive || st.inHand.isSome then st
  else match st.threadQueue with
    | [] => st
    | none :: queue => { st with threadQueue := queue, bridgeAlive := false }
    | some c :: queue => { st with threadQueue := queue, inHand := some c }

/-- The bridge hands its frame on when the channel has room. -/
def bridgePut (st : ClientState) : ClientState :=
  match st.inHand with
  | some c => if st.chan.length < 4 then { st with chan := st.chan ++ [c], inHand := none } else st
  | none => st

/-- A connection attempt of the outer loop, made only at its top; a failure doubles the backoff. -/
def connect (st : ClientState) (ok : Bool) : ClientState :=
  if st.stopped || st.live.isSome then st
  else if ok then
    -- `latest_frame` starts empty, the channels keep what they hold
    { st with
      backoff := 500
      live := some { conn := .initial, latestFrame := none, pending := [] } }
  else { st with backoff := min (st.backoff * 2) 30000 }

/-- The stamp of a frame captured now. -/
def ClientState.stamp (st : ClientState) : Stamp where
  time := st.clock
  window := st.window
  paused := st.paused

/-- A branch of the inner loop runs only while there is a connection; without one its input
    passes by. -/
def whileLive (st : ClientState) (branch : Live → ClientState) : ClientState :=
  match st.live with
  | some live => branch live
  | none => st

omit [TextTables] in
/-- A branch runs, or nothing happens. -/
theorem whileLive_eq (st : ClientState) (branch : Live → ClientState) : whileLive st branch = st ∨
    ∃ live, st.live = some live ∧ whileLive st branch = branch live := by
  unfold whileLive
  split
  · rename_i live hlive
    exact Or.inr ⟨live, hlive, rfl⟩
  · exact Or.inl rfl

omit [TextTables] in
/-- What every branch leaves alone, the loop leaves alone. -/
theorem whileLive_keeps {α : Type} (f : ClientState → α) {st : ClientState}
    {branch : Live → ClientState} (h : ∀ live, st.live = some live → f (branch live) = f st) :
    f (whileLive st branch) = f st := by
  rcases whileLive_eq st branch with hidle | ⟨live, hlive, hbranch⟩
  · rw [hidle]
  · rw [hbranch]
    exact h live hlive

/-- The effect of one input, on the part of the state that its thread or branch can reach. -/
def act (cfg : ClientConfig) (st : ClientState) : Input → ClientState
  | .foreground w =>
      { st with window := w, changedAt := if w ≠ st.window then st.clock else st.changedAt }
  | .capture frame => { st with threadQueue := st.threadQueue ++ [some ⟨frame, st.stamp⟩] }
  | .captureFails => { st with threadQueue := st.threadQueue ++ [none] }
  | .bridgeTake => bridgeTake st
  | .bridgePut => bridgePut st
  | .connect ok => connect st ok
  | .recv => whileLive st (recv st)
  | .tick r => whileLive st fun live => tick cfg st live r
  | .audio chunk sent => whileLive st fun live => audio cfg st live chunk sent
  | .heartbeat sent => whileLive st fun live => heartbeat st live sent
  | .control msg => whileLive st fun live => control st live msg
  | .stop => { st with stopped := true, live := none }

/-- One input, counted by the clock. -/
def step (cfg : ClientConfig) (st : ClientState) (i : Input) : ClientState :=
  { act cfg st i with clock := st.clock + 1 }

/-- The client's run on a desktop that first shows `w`, over any inputs in any order. -/
def runClient (cfg : ClientConfig) (w : Window) (inputs : List Input) : ClientState :=
  Runs.run (step cfg) (.initial cfg w) inputs

end

/-! ### The desktop and the loop -/

/-- Is an input one of the loop's own, and not of the desktop, the capture thread or the bridge? -/
def Input.isLoop : Input → Bool
  | .connect _ => true
  | .recv => true
  | .tick _ => true
  | .audio _ _ => true
  | .heartbeat _ => true
  | .control _ => true
  | .stop => true
  | _ => false

/-- What is not the loop's own touches the window, the channels and the bridge only; the pause
    flag and the connection are the loop's. -/
theorem act_desktop [TextTables] (cfg : ClientConfig) (st : ClientState) {i : Input}
    (hi : i.isLoop = false) :
    ∃ window queue hand alive chan changed, act cfg st i = { st with
      window := window, threadQueue := queue, inHand := hand, bridgeAlive := alive,
      chan := chan, changedAt := changed } := by
  cases i with
  | foreground w => exact ⟨_, _, _, _, _, _, rfl⟩
  | capture frame => exact ⟨_, _, _, _, _, _, rfl⟩
  | captureFails => exact ⟨_, _, _, _, _, _, rfl⟩
  | bridgeTake =>
    show ∃ window queue hand alive chan changed, bridgeTake st = _
    unfold bridgeTake
    split
    · exact ⟨_, _, _, _, _, _, rfl⟩
    · split <;> exact ⟨_, _, _, _, _, _, rfl⟩
  | bridgePut =>
    show ∃ window queue hand alive chan changed, bridgePut st = _
    unfold bridgePut
    split
    · split <;> exact ⟨_, _, _, _, _, _, rfl⟩
    · exact ⟨_, _, _, _, _, _, rfl⟩
  | _ => cases hi

/-! ### What each branch leaves alone -/

section
variable [TextTables] (cfg : ClientConfig) (st : ClientState)

/-- A tick touches the connection, the remembered hash, the counters and what was sent. -/
theorem act_tick (r : TickReadings) : ∃ live lastHash counters sent, act cfg st (.tick r) =
    { st with live := live, lastHash := lastHash, counters := counters, sent := sent } := by
  have hbranch (l : Live) : ∃ live lastHash counters sent, tick cfg st l r =
      { st with live := live, lastHash := lastHash, counters := counters, sent := sent } := by
    unfold tick transmit
    split
    · exact ⟨_, _, _, _, rfl⟩
    · dsimp only
      split
      · exact ⟨_, _, _, _, rfl⟩
      · split
        · split <;> exact ⟨_, _, _, _, rfl⟩
        · split
          · exact ⟨_, _, _, _, rfl⟩
          · split
            · exact ⟨_, _, _, _, rfl⟩
            · split <;> exact ⟨_, _, _, _, rfl⟩
  rcases whileLive_eq st fun l => tick cfg st l r with hidle | ⟨l, -, htick⟩
  · exact ⟨_, _, _, _, hidle⟩
  · obtain ⟨_, _, _, _, hshape⟩ := hbranch l
    exact ⟨_, _, _, _, htick.trans hshape⟩

/-- The frame branch touches the connection and the channel. -/
theorem act_recv : ∃ live chan, act cfg st .recv = { st with live := live, chan := chan } := by
  have hbranch (l : Live) : ∃ live chan, recv st l = { st with live := live, chan := chan } := by
    unfold recv
    split
    · exact ⟨_, _, rfl⟩
    · split <;> exact ⟨_, _, rfl⟩
  rcases whileLive_eq st (recv st) with hidle | ⟨l, -, hrecv⟩
  · exact ⟨_, _, hidle⟩
  · obtain ⟨_, _, hshape⟩ := hbranch l
    exact ⟨_, _, hrecv.trans hshape⟩

/-- The audio branch touches the connection and what was sent. -/
theorem act_audio (chunk : AudioChunk) (sent : Bool) : ∃ live out,
    act cfg st (.audio chunk sent) = { st with live := live, sent := out } := by
  have hbranch (l : Live) : ∃ live out,
      audio cfg st l chunk sent = { st with live := live, sent := out } := by
    unfold audio
    split <;> exact ⟨_, _, rfl⟩
  rcases whileLive_eq st fun l => audio cfg st l chunk sent with hidle | ⟨l, -, haudio⟩
  · exact ⟨_, _, hidle⟩
  · obtain ⟨_, _, hshape⟩ := hbranch l
    exact ⟨_, _, haudio.trans hshape⟩

/-- The heartbeat branch touches the connection and what was sent. -/
theorem act_heartbeat (sent : Bool) : ∃ live out,
    act cfg st (.heartbeat sent) = { st with live := live, sent := out } := by
  rcases whileLive_eq st fun l => heartbeat st l sent with hidle | ⟨l, -, hbeat⟩
  · exact ⟨_, _, hidle⟩
  · exact ⟨_, _, hbeat⟩

/-- A message touches the connection, the flag, the time of the last disturbance and the list in
    force. -/
theorem act_control (msg : Except Unit (Option ControlMessage)) :
    ∃ live paused changed inForce, act cfg st (.control msg) =
      { st with live := live, paused := paused, changedAt := changed, inForce := inForce } := by
  have hbranch (l : Live) : ∃ live paused changed inForce, control st l msg =
      { st with live := live, paused := paused, changedAt := changed, inForce := inForce } := by
    unfold control
    split <;> exact ⟨_, _, _, _, rfl⟩
  rcases whileLive_eq st fun l => control st l msg with hidle | ⟨l, -, hcontrol⟩
  · exact ⟨_, _, _, _, hidle⟩
  · obtain ⟨_, _, _, _, hshape⟩ := hbranch l
    exact ⟨_, _, _, _, hcontrol.trans hshape⟩

/-- An attempt touches the connection and the backoff. -/
theorem act_connect (ok : Bool) : ∃ live backoff,
    act cfg st (.connect ok) = { st with live := live, backoff := backoff } := by
  show ∃ live backoff, connect st ok = _
  unfold connect
  split
  · exact ⟨_, _, rfl⟩
  · split <;> exact ⟨_, _, rfl⟩

end

/-! ### What an input transmits -/

/-- The upload among the outgoing messages. -/
def Outgoing.upload? : Outgoing → Option Upload
  | .upload u => some u
  | _ => none

/-- The uploads so far, in order. -/
def ClientState.uploads (st : ClientState) : List Upload := st.sent.filterMap Outgoing.upload?

section
variable [TextTables]

/-- The upload an input starts: a tick with a frame that is no duplicate, an open gate and an
    encoder that succeeds. -/
def admitted (cfg : ClientConfig) (st : ClientState) : Input → Option Upload
  | .tick r =>
      st.live.bind fun live => live.latestFrame.bind fun c =>
        if isUnchanged st c.frame then none
        else if (gate cfg st).isSome then none
        else r.jpeg.map fun jpeg => uploadOf cfg st live.conn c jpeg r
  | _ => none

/-- Sending a frame is one upload. -/
private theorem uploads_transmit (cfg : ClientConfig) (st : ClientState) (live : Live)
    (c : Captured) (jpeg : Bytes) (r : TickReadings) :
    (transmit cfg st live c jpeg r).uploads
      = st.uploads ++ [uploadOf cfg st live.conn c jpeg r] := by
  unfold transmit ClientState.uploads
  dsimp only
  split
  · simp [Outgoing.upload?]
  · split <;> simp [Outgoing.upload?]

/-- A tick uploads the frame it admits, if it admits one. -/
private theorem uploads_tick (cfg : ClientConfig) (st : ClientState) (live : Live)
    (r : TickReadings) (hlive : st.live = some live) :
    (tick cfg st live r).uploads = st.uploads ++ (admitted cfg st (.tick r)).toList := by
  unfold tick admitted
  dsimp only
  rw [hlive, Option.bind_some]
  cases hframe : live.latestFrame with
  | none => simp
  | some c =>
    dsimp only
    rw [Option.bind_some]
    split
    · simp [ClientState.uploads]
    · -- the gate reads neither the connection nor the last hash
      have hgate : gate cfg { st with
          live := some { live with latestFrame := none }, lastHash := cheapHash c.frame.bgra }
          = gate cfg st := rfl
      rw [hgate]
      cases gate cfg st with
      | some reason =>
        dsimp only
        split <;> simp [ClientState.uploads]
      | none =>
        cases r.jpeg with
        | none => simp [ClientState.uploads]
        | some jpeg => exact uploads_transmit _ _ _ _ _ _

/-- **What one input transmits**: a tick the frame that it admits, and no other input any. -/
theorem step_uploads (cfg : ClientConfig) (st : ClientState) (i : Input) :
    (step cfg st i).uploads = st.uploads ++ (admitted cfg st i).toList := by
  show (act cfg st i).uploads = _
  cases hloop : i.isLoop with
  | false =>
    obtain ⟨_, _, _, _, _, _, hact⟩ := act_desktop cfg st hloop
    have hnone : admitted cfg st i = none := by cases i <;> simp_all [admitted, Input.isLoop]
    simp [hact, hnone, ClientState.uploads]
  | true =>
    cases i with
    | tick r =>
      unfold act whileLive
      dsimp only
      cases hlive : st.live with
      | none => simp [admitted, hlive]
      | some live => exact uploads_tick cfg st live r hlive
    -- every other input of the loop leaves the uploads alone
    | connect ok =>
      obtain ⟨_, _, hact⟩ := act_connect cfg st ok
      simp [hact, admitted, ClientState.uploads]
    | recv =>
      obtain ⟨_, _, hact⟩ := act_recv cfg st
      simp [hact, admitted, ClientState.uploads]
    | control msg =>
      obtain ⟨_, _, _, _, hact⟩ := act_control cfg st msg
      simp [hact, admitted, ClientState.uploads]
    | audio chunk sent =>
      simp only [admitted, Option.toList_none, List.append_nil]
      refine whileLive_keeps ClientState.uploads fun live _ => ?_
      unfold audio
      split
      · simp [ClientState.uploads, Outgoing.upload?]
      · rfl
    | heartbeat sent =>
      simp only [admitted, Option.toList_none, List.append_nil]
      refine whileLive_keeps ClientState.uploads fun live _ => ?_
      simp [heartbeat, ClientState.uploads, Outgoing.upload?]
    | stop => simp [act, admitted, ClientState.uploads]
    | _ => cases hloop

/-- What is known of an upload: its frame was the latest one, the gate was open, and its record
    describes the window in the foreground. -/
theorem admitted_spec {cfg : ClientConfig} {st : ClientState} {i : Input} {u : Upload}
    (h : admitted cfg st i = some u) :
    ∃ r live, i = .tick r ∧ st.live = some live ∧ live.latestFrame = some u.captured ∧
      gate cfg st = none ∧ u.window = st.window ∧ u.inForce = st.inForce ∧
      u.record = captureRecord cfg (foregroundMeta st.window) r := by
  cases i with
  | tick r =>
    obtain ⟨live, hlive, h⟩ := Option.bind_eq_some_iff.mp h
    obtain ⟨c, hframe, h⟩ := Option.bind_eq_some_iff.mp h
    split at h
    · cases h
    · split at h
      · cases h
      · rename_i hgate
        obtain ⟨jpeg, -, rfl⟩ := Option.map_eq_some_iff.mp h
        exact ⟨r, live, rfl, hlive, hframe, Option.not_isSome_iff_eq_none.mp hgate, rfl, rfl, rfl⟩
  | _ => cases h

end

/-! ### Frames on their way -/

/-- The captured frames that have not reached a tick yet, wherever on the way they are. -/
def ClientState.buffered (st : ClientState) : List Captured :=
  st.threadQueue.filterMap id ++ st.inHand.toList ++ st.chan ++
    (st.live.bind Live.latestFrame).toList

/-- Where a frame can be: in the grabber's queue, in the bridge's hand, in the channel, or in the
    inner loop. -/
theorem mem_buffered {st : ClientState} {c : Captured} :
    c ∈ st.buffered ↔ some c ∈ st.threadQueue ∨ st.inHand = some c ∨ c ∈ st.chan ∨
      ∃ live, st.live = some live ∧ live.latestFrame = some c := by
  simp [ClientState.buffered, Option.bind_eq_some_iff]

/-- The channels as they were, and the latest frame as it was or gone. -/
private theorem buffered_of_channels {st st' : ClientState} {c : Captured} (h : c ∈ st'.buffered)
    (hqueue : st'.threadQueue = st.threadQueue) (hhand : st'.inHand = st.inHand)
    (hchan : st'.chan = st.chan)
    (hlatest : st'.live.bind Live.latestFrame = none ∨
      st'.live.bind Live.latestFrame = st.live.bind Live.latestFrame) : c ∈ st.buffered := by
  unfold ClientState.buffered at h ⊢
  rw [hqueue, hhand, hchan] at h
  rcases hlatest with hlatest | hlatest <;> rw [hlatest] at h
  · -- the latest frame is gone
    exact List.mem_append_left _ (by simpa using h)
  · exact h

/-- A branch of the inner loop that brings no frame in; the lemmas below say it of each input. -/
private theorem buffered_whileLive {st : ClientState} {branch : Live → ClientState}
    (h : ∀ live, st.live = some live → (branch live).buffered ⊆ st.buffered) :
    (whileLive st branch).buffered ⊆ st.buffered := by
  rcases whileLive_eq st branch with hidle | ⟨live, hlive, hbranch⟩
  · rw [hidle]
    exact List.Subset.refl _
  · rw [hbranch]
    exact h live hlive

/-- The bridge takes a frame out of the grabber's queue. -/
private theorem buffered_bridgeTake (st : ClientState) :
    (bridgeTake st).buffered ⊆ st.buffered := by
  intro c h
  rw [mem_buffered] at h ⊢
  unfold bridgeTake at h
  split at h
  · exact h
  · split at h
    · exact h
    · rename_i queue hqueue
      rw [hqueue]
      exact h.imp (List.mem_cons_of_mem _) id
    · -- the front of the thread's channel is now in the bridge's hand
      rename_i c' queue hqueue
      rw [hqueue]
      rcases h with h | h | h
      · exact Or.inl (List.mem_cons_of_mem _ h)
      · exact Or.inl (h ▸ List.mem_cons_self)
      · exact Or.inr (Or.inr h)

/-- It puts into the channel what it holds. -/
private theorem buffered_bridgePut (st : ClientState) : (bridgePut st).buffered ⊆ st.buffered := by
  intro c h
  rw [mem_buffered] at h ⊢
  unfold bridgePut at h
  split at h
  · rename_i c' hhand
    split at h
    · rcases h with h | h | h | h
      · exact Or.inl h
      · cases h
      · rcases List.mem_append.mp h with h | h
        · exact Or.inr (Or.inr (Or.inl h))
        · exact Or.inr (Or.inl (List.mem_singleton.mp h ▸ hhand))
      · exact Or.inr (Or.inr (Or.inr h))
    · exact h
  · exact h

/-- A new connection has no frame yet. -/
private theorem buffered_connect (st : ClientState) (ok : Bool) :
    (connect st ok).buffered ⊆ st.buffered := by
  unfold connect
  split
  · exact List.Subset.refl _
  · split
    · exact fun _ h => buffered_of_channels h rfl rfl rfl (Or.inl rfl)
    · exact List.Subset.refl _

/-- The inner loop takes a frame out of the channel. -/
private theorem buffered_recv (st : ClientState) (live : Live) :
    (recv st live).buffered ⊆ st.buffered := by
  intro c h
  unfold recv at h
  split at h
  · rename_i c' chan hchan
    rw [mem_buffered] at h ⊢
    rw [hchan]
    rcases h with h | h | h | ⟨live', hlive', h⟩
    · exact Or.inl h
    · exact Or.inr (Or.inl h)
    · exact Or.inr (Or.inr (Or.inl (List.mem_cons_of_mem _ h)))
    · obtain rfl := Option.some.inj hlive'
      exact Or.inr (Or.inr (Or.inl (Option.some.inj h ▸ List.mem_cons_self)))
  · split at h
    · exact buffered_of_channels h rfl rfl rfl (Or.inl rfl)
    · exact h

/-- A send that fails loses the latest frame with the connection. -/
private theorem latest_kept {st : ClientState} {live : Live} (hlive : st.live = some live)
    (sent : Bool) :
    (if sent then some live else none).bind Live.latestFrame = none ∨
      (if sent then some live else none).bind Live.latestFrame
        = st.live.bind Live.latestFrame := by
  cases sent with
  | false => exact Or.inl rfl
  | true => exact Or.inr (by rw [hlive]; rfl)

/-- A heartbeat is about no frame. -/
private theorem buffered_heartbeat (st : ClientState) (live : Live) (hlive : st.live = some live)
    (sent : Bool) : (heartbeat st live sent).buffered ⊆ st.buffered := by
  unfold heartbeat
  exact fun _ h => buffered_of_channels h rfl rfl rfl (latest_kept hlive sent)

/-- Nor is audio. -/
private theorem buffered_audio (cfg : ClientConfig) (st : ClientState) (live : Live)
    (hlive : st.live = some live) (chunk : AudioChunk) (sent : Bool) :
    (audio cfg st live chunk sent).buffered ⊆ st.buffered := by
  unfold audio
  split
  · exact fun _ h => buffered_of_channels h rfl rfl rfl (latest_kept hlive sent)
  · exact List.Subset.refl _

section
variable [TextTables]

/-- A tick uses up the latest frame. -/
private theorem buffered_tick (cfg : ClientConfig) (st : ClientState) (live : Live)
    (r : TickReadings) : (tick cfg st live r).buffered ⊆ st.buffered := by
  unfold tick transmit
  split
  · exact List.Subset.refl _
  · dsimp only
    split
    · exact fun _ h => buffered_of_channels h rfl rfl rfl (Or.inl rfl)
    · split
      · split <;> exact fun _ h => buffered_of_channels h rfl rfl rfl (Or.inl rfl)
      · split
        · exact fun _ h => buffered_of_channels h rfl rfl rfl (Or.inl rfl)
        · split
          · exact fun _ h => buffered_of_channels h rfl rfl rfl (Or.inl rfl)
          · split <;> exact fun _ h => buffered_of_channels h rfl rfl rfl (Or.inl rfl)

/-- The branches that keep the connection or drop it. -/
private theorem buffered_control (st : ClientState) (live : Live) (hlive : st.live = some live)
    (msg : Except Unit (Option ControlMessage)) : (control st live msg).buffered ⊆ st.buffered := by
  unfold control
  split
  · exact List.Subset.refl _
  · exact List.Subset.refl _
  · exact fun _ h => buffered_of_channels h rfl rfl rfl (Or.inr (by rw [hlive]; rfl))
  · exact fun _ h => buffered_of_channels h rfl rfl rfl (Or.inl rfl)
  · exact List.Subset.refl _
  · exact List.Subset.refl _
  · exact List.Subset.refl _
  · exact fun _ h => buffered_of_channels h rfl rfl rfl (Or.inl rfl)

/-- **What one input does to the frames on their way**: nothing joins them but a new capture,
    under its stamp. -/
theorem step_buffered {cfg : ClientConfig} {st : ClientState} {i : Input} {c : Captured}
    (h : c ∈ (step cfg st i).buffered) :
    c ∈ st.buffered ∨ ∃ frame, i = .capture frame ∧ c = ⟨frame, st.stamp⟩ := by
  replace h : c ∈ (act cfg st i).buffered := h
  cases i with
  | capture frame =>
    rcases mem_buffered.mp h with h | h
    · rcases List.mem_append.mp h with h | h
      · exact Or.inl (mem_buffered.mpr (Or.inl h))
      · exact Or.inr ⟨frame, rfl, Option.some.inj (List.mem_singleton.mp h)⟩
    · exact Or.inl (mem_buffered.mpr (Or.inr h))
  | captureFails =>
    rw [mem_buffered] at h
    exact Or.inl (mem_buffered.mpr (by simpa [act] using h))
  | foreground w => exact Or.inl h
  | bridgeTake => exact Or.inl (buffered_bridgeTake st h)
  | bridgePut => exact Or.inl (buffered_bridgePut st h)
  | connect ok => exact Or.inl (buffered_connect st ok h)
  | recv => exact Or.inl (buffered_whileLive (fun live _ => buffered_recv st live) h)
  | tick r => exact Or.inl (buffered_whileLive (fun live _ => buffered_tick cfg st live r) h)
  | control msg =>
    exact Or.inl (buffered_whileLive (fun live hlive => buffered_control st live hlive msg) h)
  | heartbeat sent =>
    exact Or.inl (buffered_whileLive (fun live hlive => buffered_heartbeat st live hlive sent) h)
  | audio chunk sent =>
    exact Or.inl
      (buffered_whileLive (fun live hlive => buffered_audio cfg st live hlive chunk sent) h)
  | stop => exact Or.inl (buffered_of_channels h rfl rfl rfl (Or.inl rfl))

end

/-! ### The desktop -/

/-- Does an input change the desktop, or end a pause, so that what was captured before may show
    something else? -/
def disturbs (st : ClientState) : Input → Bool
  | .foreground w => w != st.window
  | .control (.ok (some (.resume _))) => st.live.isSome && st.paused
  | _ => false

/-- The window in the foreground and the time of the last disturbance are the same, and a pause
    goes on. -/
structure Undisturbed (st st' : ClientState) : Prop where
  window : st'.window = st.window
  changedAt : st'.changedAt = st.changedAt
  paused : st.paused = true → st'.paused = true

/-- Nothing has happened yet. -/
theorem Undisturbed.refl (st : ClientState) : Undisturbed st st := ⟨rfl, rfl, id⟩

section
variable [TextTables]

/-- Every other input leaves the desktop alone. -/
theorem step_undisturbed (cfg : ClientConfig) {st : ClientState} {i : Input}
    (h : disturbs st i = false) : Undisturbed st (step cfg st i) := by
  suffices hact : Undisturbed st (act cfg st i) from
    ⟨hact.window, hact.changedAt, hact.paused⟩
  cases i with
  | foreground w =>
    -- the foreground window is the one it was
    obtain rfl : w = st.window := by simpa [disturbs] using h
    exact ⟨rfl, by simp [act], id⟩
  | control msg =>
    cases hlive : st.live with
    | none =>
      have hidle : act cfg st (.control msg) = st := by simp [act, whileLive, hlive]
      rw [hidle]
      exact Undisturbed.refl st
    | some live =>
      -- only an order of the server can end a pause
      have hbranch : act cfg st (.control msg) = control st live msg := by
        simp [act, whileLive, hlive]
      rw [hbranch]
      unfold control
      split
      · exact ⟨rfl, rfl, fun _ => rfl⟩
      · -- a resume that disturbs nothing ends no pause
        have hpaused : st.paused = false := by simpa [disturbs, hlive] using h
        exact ⟨rfl, by simp [hpaused], fun hp => by simp [hpaused] at hp⟩
      · exact ⟨rfl, rfl, fun _ => rfl⟩
      all_goals exact ⟨rfl, rfl, id⟩
  | tick r =>
    obtain ⟨_, _, _, _, hact⟩ := act_tick cfg st r
    exact hact ▸ ⟨rfl, rfl, id⟩
  | recv =>
    obtain ⟨_, _, hact⟩ := act_recv cfg st
    exact hact ▸ ⟨rfl, rfl, id⟩
  | audio chunk sent =>
    obtain ⟨_, _, hact⟩ := act_audio cfg st chunk sent
    exact hact ▸ ⟨rfl, rfl, id⟩
  | heartbeat sent =>
    obtain ⟨_, _, hact⟩ := act_heartbeat cfg st sent
    exact hact ▸ ⟨rfl, rfl, id⟩
  | connect ok =>
    obtain ⟨_, _, hact⟩ := act_connect cfg st ok
    exact hact ▸ ⟨rfl, rfl, id⟩
  | bridgeTake =>
    show Undisturbed st (bridgeTake st)
    unfold bridgeTake
    split
    · exact Undisturbed.refl st
    · split <;> exact ⟨rfl, rfl, id⟩
  | bridgePut =>
    show Undisturbed st (bridgePut st)
    unfold bridgePut
    split
    · split <;> exact ⟨rfl, rfl, id⟩
    · exact Undisturbed.refl st
  | capture frame => exact ⟨rfl, rfl, id⟩
  | captureFails => exact ⟨rfl, rfl, id⟩
  | stop => exact ⟨rfl, rfl, id⟩

/-- A disturbance is recorded. -/
theorem step_disturbed {cfg : ClientConfig} {st : ClientState} {i : Input}
    (h : disturbs st i = true) : (step cfg st i).changedAt = st.clock := by
  show (act cfg st i).changedAt = st.clock
  unfold disturbs at h
  split at h
  · have hne := bne_iff_ne.mp h
    simp [act, hne]
  · obtain ⟨hlive, hpaused⟩ := Bool.and_eq_true_iff.mp h
    obtain ⟨live, hlive⟩ := Option.isSome_iff_exists.mp hlive
    simp [act, whileLive, hlive, control, hpaused]
  · cases h

end

end Precall.Client
