import Precall.Client.Run

namespace Precall.Client

open ByteLib TextLib Runs Precall.Proto

/-!
# Pause

A paused client goes on hold when it handles `Pause` or `PanicWipe` and leaves it when it handles
`Resume`; a message counts as handled only while there is a connection to read it from.

* `paused_eq_onHold` — the pause flag is what the messages handled so far say, across every
  reconnection;
* `step_streamed` — on hold the gate keeps frames and metadata back, but not audio: the audio
  branch of the loop does not ask for the flag;
* `pause_stops_iff` — a run transmits nothing while on hold exactly if no audio chunk comes up
  then.
-/

/-- Does a message travel on `GfxRdp`, `PcMeta` or `PcAudio`? -/
def Outgoing.isStreamed : Outgoing → Bool
  | .upload _ => true
  | .audio _ => true
  | .control _ => false

/-- What has been handed to the transport on the three streaming channels. -/
def ClientState.streamed (st : ClientState) : List Outgoing := st.sent.filter Outgoing.isStreamed

/-- Is the client on hold after an input? `Pause` and `PanicWipe` put it on hold, `Resume` ends
    it. -/
def holdAfter (st : ClientState) (hold : Bool) : Input → Bool
  | .control (.ok (some .pause)) => hold || st.live.isSome
  | .control (.ok (some .panicWipe)) => hold || st.live.isSome
  | .control (.ok (some (.resume _))) => hold && !st.live.isSome
  | _ => hold

/-- The audio chunk an input takes up: one that arrives while there is a connection, with audio
    enabled. -/
def audioTaken (cfg : ClientConfig) (st : ClientState) : Input → Option Outgoing
  | .audio chunk _ => if st.live.isSome && cfg.enableAudio then some (.audio chunk) else none
  | _ => none

section
variable [TextTables]

/-- Is the client on hold after a run, by the messages it handled? -/
def onHold (cfg : ClientConfig) (w : Window) (inputs : List Input) : Bool :=
  (run (fun (s : ClientState × Bool) i => (step cfg s.1 i, holdAfter s.1 s.2 i))
    (.initial cfg w, false) inputs).2

/-- No step that a run takes on hold transmits anything on the streaming channels, neither frames
    nor records nor audio. -/
def PauseStops (cfg : ClientConfig) (w : Window) (inputs : List Input) : Prop :=
  ∀ before i after, inputs = before ++ i :: after → onHold cfg w before = true →
    (runClient cfg w (before ++ [i])).streamed = (runClient cfg w before).streamed

/-! ### The flag -/

/-- Only the three messages move the flag, and only while there is a connection to read them
    from. -/
theorem step_paused (cfg : ClientConfig) (st : ClientState) (i : Input) :
    (step cfg st i).paused = holdAfter st st.paused i := by
  show (act cfg st i).paused = _
  cases i with
  | control msg =>
    unfold act whileLive
    cases hlive : st.live with
    | none =>
      rcases msg with e | _ | msg <;> try cases msg
      all_goals simp [holdAfter, hlive]
    | some live =>
      rcases msg with e | _ | msg <;> try cases msg
      all_goals simp [holdAfter, hlive, control]
  | tick r =>
    obtain ⟨_, _, _, _, hact⟩ := act_tick cfg st r
    rw [hact]
    rfl
  | recv =>
    obtain ⟨_, _, hact⟩ := act_recv cfg st
    rw [hact]
    rfl
  | audio chunk sent =>
    obtain ⟨_, _, hact⟩ := act_audio cfg st chunk sent
    rw [hact]
    rfl
  | heartbeat sent =>
    obtain ⟨_, _, hact⟩ := act_heartbeat cfg st sent
    rw [hact]
    rfl
  | connect ok =>
    obtain ⟨_, _, hact⟩ := act_connect cfg st ok
    rw [hact]
    rfl
  | bridgeTake =>
    obtain ⟨_, _, _, _, _, _, hact⟩ := act_desktop cfg st (i := .bridgeTake) rfl
    rw [hact]
    rfl
  | bridgePut =>
    obtain ⟨_, _, _, _, _, _, hact⟩ := act_desktop cfg st (i := .bridgePut) rfl
    rw [hact]
    rfl
  | foreground w => rfl
  | capture frame => rfl
  | captureFails => rfl
  | stop => rfl

/-- **The pause flag is what the messages handled so far say**, across every reconnection. -/
theorem paused_eq_onHold (cfg : ClientConfig) (w : Window) (inputs : List Input) :
    (runClient cfg w inputs).paused = onHold cfg w inputs := by
  have key : ∀ (st : ClientState),
      (run (fun (s : ClientState × Bool) i => (step cfg s.1 i, holdAfter s.1 s.2 i))
        (st, st.paused) inputs).2 = (run (step cfg) st inputs).paused := by
    induction inputs with
    | nil => exact fun st => rfl
    | cons i inputs ih =>
      intro st
      rw [run_cons, run_cons, ← ih, step_paused]
  exact (key (.initial cfg w)).symm

/-! ### What goes out on hold -/

/-- The gate keeps every frame and its record back while the flag is set, before the encoder sees
    them. -/
theorem streamed_tick_paused (cfg : ClientConfig) {st : ClientState} (live : Live)
    (r : TickReadings) (hpaused : st.paused = true) :
    (tick cfg st live r).streamed = st.streamed := by
  unfold tick
  split
  · rfl
  · dsimp only
    split
    · rfl
    · split
      · split <;> rfl
      · -- an open gate has seen the flag down
        rename_i hgate
        have hdown : st.paused = false := (check_eq_none.mp hgate).1
        rw [hpaused] at hdown
        cases hdown

/-- No branch but the audio branch sends on the streaming channels on hold. -/
theorem step_streamed_of_ne_audio (cfg : ClientConfig) {st : ClientState} {i : Input}
    (hpaused : st.paused = true) (hi : ∀ chunk sent, i ≠ .audio chunk sent) :
    (step cfg st i).streamed = st.streamed := by
  show (act cfg st i).streamed = _
  cases hloop : i.isLoop with
  | false =>
    obtain ⟨_, _, _, _, _, _, hact⟩ := act_desktop cfg st hloop
    rw [hact]
    rfl
  | true =>
    cases i with
    | audio chunk sent => exact absurd rfl (hi chunk sent)
    | tick r =>
      refine whileLive_keeps ClientState.streamed fun live _ => ?_
      exact streamed_tick_paused cfg live r hpaused
    | heartbeat sent =>
      refine whileLive_keeps ClientState.streamed fun live _ => ?_
      simp [heartbeat, ClientState.streamed, Outgoing.isStreamed]
    | control msg =>
      obtain ⟨_, _, _, _, hact⟩ := act_control cfg st msg
      rw [hact]
      rfl
    | recv =>
      obtain ⟨_, _, hact⟩ := act_recv cfg st
      rw [hact]
      rfl
    | connect ok =>
      obtain ⟨_, _, hact⟩ := act_connect cfg st ok
      rw [hact]
      rfl
    | stop => rfl
    | _ => cases hloop

/-- **On hold nothing but audio goes out on the streaming channels**, and every audio chunk that
    comes up does. -/
theorem step_streamed (cfg : ClientConfig) {st : ClientState} (i : Input)
    (hpaused : st.paused = true) :
    (step cfg st i).streamed = st.streamed ++ (audioTaken cfg st i).toList := by
  by_cases haudio : ∃ chunk sent, i = .audio chunk sent
  · obtain ⟨chunk, sent, rfl⟩ := haudio
    show (act cfg st (.audio chunk sent)).streamed = _
    unfold act whileLive audioTaken
    cases hlive : st.live with
    | none => simp
    | some live =>
      by_cases henabled : cfg.enableAudio = true
      · simp [audio, henabled, ClientState.streamed, Outgoing.isStreamed]
      · simp [audio, henabled]
  · have hi : ∀ chunk sent, i ≠ .audio chunk sent := fun chunk sent h => haudio ⟨chunk, sent, h⟩
    have hnone : audioTaken cfg st i = none := by
      unfold audioTaken
      split
      · exact absurd rfl (hi _ _)
      · rfl
    rw [step_streamed_of_ne_audio cfg hpaused hi, hnone, Option.toList_none, List.append_nil]

/-- **Pause stops the stream exactly when no audio comes up on hold**: between a `Pause` or
    `PanicWipe` and the next `Resume` a run transmits nothing on `GfxRdp`, `PcMeta` and `PcAudio`
    if and only if it takes no audio chunk while the pause flag is set, a connection is up and
    audio is enabled. -/
theorem pause_stops_iff (cfg : ClientConfig) (w : Window) (inputs : List Input) :
    PauseStops cfg w inputs ↔
      AtSteps (step cfg) (fun st i => st.paused = true → audioTaken cfg st i = none)
        (.initial cfg w) inputs := by
  rw [atSteps_iff, PauseStops]
  refine forall_congr' fun before => forall_congr' fun i => forall_congr' fun after =>
    imp_congr_right fun _ => ?_
  have hrun : runClient cfg w (before ++ [i]) = step cfg (runClient cfg w before) i :=
    run_append _ _ before [i]
  rw [← paused_eq_onHold, hrun]
  refine imp_congr_right fun hpaused => ?_
  rw [step_streamed cfg i hpaused, List.append_right_eq_self, Option.toList_eq_nil_iff]
  rfl

end

section

attribute [local instance] TextTables.ascii

/-- **Audio goes out on hold.**  A client with audio enabled connects, is paused, and takes up one
    chunk. -/
theorem pause_leaks_audio :
    ¬ ∀ (cfg : ClientConfig) (w : Window) (inputs : List Input), PauseStops cfg w inputs := by
  intro h
  let cfg : ClientConfig :=
    ⟨⟨Vector.replicate 16 0⟩, true, false, [], []⟩
  let w : Window := ⟨1, "Notes", {}, 7, none, none, none⟩
  let chunk : AudioChunk := ⟨[1, -1], 1, 48000⟩
  have hquiet := h cfg w [.connect true, .control (.ok (some .pause)), .audio chunk true]
    [.connect true, .control (.ok (some .pause))] (.audio chunk true) [] rfl (by decide +kernel)
  exact absurd hquiet (by decide +kernel)

end

end Precall.Client
