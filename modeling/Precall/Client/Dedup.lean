import Precall.Client.Run

namespace Precall.Client

open ByteLib TextLib Runs Precall.Proto

/-!
# Deduplication

A tick skips a frame without dirty regions whose hash is the one the loop remembers.  The hash is
remembered when a frame passes this test, before the gate, the encoder and the two sends, each of
which may still keep the frame from the server; and the memory survives every reconnection.

* `step_lastHash`, `step_counters` — what one input does to the memory and to the counters;
* `inSync_iff` — throughout a run the memory is the hash of the last delivered frame exactly if
  every frame that passes the test is delivered, or looks like the last delivered one;
* `skipsDelivered_of_accounted` — under that condition a skipped frame looks like the last
  delivered one, unless its hash is the 0 the memory starts with.
-/

/-! ### What becomes of a frame -/

/-- The frame a tick takes up: the latest one of the connection, if there is one. -/
def ticked (st : ClientState) : Input → Option Captured
  | .tick _ => st.live.bind Live.latestFrame
  | _ => none

/-- The frame an input skips as unchanged, which is told by its hash and its dirty regions. -/
def skipped (st : ClientState) (i : Input) : Option Captured :=
  (ticked st i).filter fun c => isUnchanged st c.frame

/-- The frame an input lets past the dedup, so that its hash is remembered whatever becomes of it
    afterwards. -/
def remembered (st : ClientState) (i : Input) : Option Captured :=
  (ticked st i).filter fun c => !isUnchanged st c.frame

/-- The hash a frame is compared by. -/
def Captured.hash (c : Captured) : UInt64 := cheapHash c.frame.bgra

section
variable [TextTables]

/-- The frame an input delivers: it passes dedup and gate, and `send_frame` and `send_meta` both
    succeed. -/
def delivered (cfg : ClientConfig) (st : ClientState) : Input → Option Captured
  | .tick r =>
      if r.frameSent && r.metaSent then (admitted cfg st (.tick r)).map Upload.captured else none
  | _ => none

/-- Only a tick touches the memory and the counters. -/
private theorem step_of_ne_tick (cfg : ClientConfig) (st : ClientState) {i : Input}
    (hi : ∀ r, i ≠ .tick r) :
    (step cfg st i).lastHash = st.lastHash ∧ (step cfg st i).counters = st.counters := by
  rw [← Prod.mk.injEq]
  let f : ClientState → UInt64 × Counters := fun st => (st.lastHash, st.counters)
  show f (act cfg st i) = f st
  cases hloop : i.isLoop with
  | false =>
    obtain ⟨_, _, _, _, _, _, hact⟩ := act_desktop cfg st hloop
    rw [hact]
  | true =>
    cases i with
    | tick r => exact absurd rfl (hi r)
    | heartbeat sent =>
      obtain ⟨_, _, hact⟩ := act_heartbeat cfg st sent
      rw [hact]
    | audio chunk sent =>
      obtain ⟨_, _, hact⟩ := act_audio cfg st chunk sent
      rw [hact]
    | control msg =>
      obtain ⟨_, _, _, _, hact⟩ := act_control cfg st msg
      rw [hact]
    | recv =>
      obtain ⟨_, _, hact⟩ := act_recv cfg st
      rw [hact]
    | connect ok =>
      obtain ⟨_, _, hact⟩ := act_connect cfg st ok
      rw [hact]
    | stop => rfl
    | _ => cases hloop

/-- An input that takes up no frame touches neither. -/
private theorem step_of_ticked_none (cfg : ClientConfig) (st : ClientState) {i : Input}
    (h : ticked st i = none) :
    (step cfg st i).lastHash = st.lastHash ∧ (step cfg st i).counters = st.counters := by
  by_cases hi : ∃ r, i = .tick r
  · obtain ⟨r, rfl⟩ := hi
    have hstep : act cfg st (.tick r) = st := by
      show whileLive st _ = st
      unfold whileLive
      cases hlive : st.live with
      | none => rfl
      | some live =>
        have hframe : live.latestFrame = none := by simpa [ticked, hlive] using h
        simp [tick, hframe]
    have hact : step cfg st (.tick r) = { st with clock := st.clock + 1 } :=
      congrArg (fun s : ClientState => { s with clock := st.clock + 1 }) hstep
    rw [hact]
    exact ⟨rfl, rfl⟩
  · exact step_of_ne_tick cfg st fun r hr => hi ⟨r, hr⟩

omit [TextTables] in
/-- A frame is taken up by a tick, and is the latest one of the connection. -/
private theorem ticked_eq_some {st : ClientState} {i : Input} {c : Captured}
    (h : ticked st i = some c) :
    ∃ r live, i = .tick r ∧ st.live = some live ∧ live.latestFrame = some c := by
  cases i with
  | tick r =>
    obtain ⟨live, hlive, hframe⟩ := Option.bind_eq_some_iff.mp h
    exact ⟨r, live, rfl, hlive, hframe⟩
  | _ => cases h

/-- A tick of a live client moves its clock by one. -/
private theorem step_tick (cfg : ClientConfig) {st : ClientState} {live : Live}
    (hlive : st.live = some live) (r : TickReadings) :
    step cfg st (.tick r) = { tick cfg st live r with clock := st.clock + 1 } := by
  show ({ act cfg st (.tick r) with clock := st.clock + 1 } : ClientState) = _
  unfold act whileLive
  rw [hlive]

/-- **What one input does to the memory**: it becomes the hash of the frame that passes the
    dedup, and stays where none does. -/
theorem step_lastHash (cfg : ClientConfig) (st : ClientState) (i : Input) :
    (step cfg st i).lastHash = ((remembered st i).map Captured.hash).getD st.lastHash := by
  cases hticked : ticked st i with
  | none =>
    rw [(step_of_ticked_none cfg st hticked).1, remembered, hticked]
    rfl
  | some c =>
    obtain ⟨r, live, rfl, hlive, hframe⟩ := ticked_eq_some hticked
    rw [step_tick cfg hlive, remembered, hticked]
    show (tick cfg st live r).lastHash = _
    unfold tick
    rw [hframe]
    by_cases hsame : isUnchanged st c.frame = true
    · simp [hsame, Option.filter]
    · -- the hash is set before any of the later exits
      simp only [hsame, Option.filter, Bool.false_eq_true, if_false, Bool.not_false, if_true,
        Option.map_some, Option.getD_some]
      split
      · split <;> rfl
      · split
        · rfl
        · unfold transmit
          dsimp only
          split
          · rfl
          · split <;> rfl

/-- What is delivered has passed the dedup. -/
theorem remembered_of_delivered {cfg : ClientConfig} {st : ClientState} {i : Input} {c : Captured}
    (h : delivered cfg st i = some c) : remembered st i = some c := by
  cases i with
  | tick r =>
    rw [delivered] at h
    split at h
    · obtain ⟨u, hu, rfl⟩ := Option.map_eq_some_iff.mp h
      obtain ⟨live, hlive, hu⟩ := Option.bind_eq_some_iff.mp hu
      obtain ⟨c, hframe, hu⟩ := Option.bind_eq_some_iff.mp hu
      have hticked : ticked st (.tick r) = some c := by simp [ticked, hlive, hframe]
      split at hu
      · cases hu
      · rename_i hsame
        split at hu
        · cases hu
        · obtain ⟨jpeg, -, rfl⟩ := Option.map_eq_some_iff.mp hu
          simp [remembered, hticked, hsame, Option.filter, uploadOf]
    · cases h
  | _ => cases h

/-- **What one input does to the counters** of skipped and of sent frames: each goes up by the
    frame it counts. -/
theorem step_counters (cfg : ClientConfig) (st : ClientState) (i : Input) :
    (step cfg st i).counters.framesSkippedUnchanged
        = st.counters.framesSkippedUnchanged + (if (skipped st i).isSome then 1 else 0) ∧
      (step cfg st i).counters.framesSent
        = st.counters.framesSent + (if (delivered cfg st i).isSome then 1 else 0) := by
  cases hticked : ticked st i with
  | none =>
    have hdelivered : delivered cfg st i = none := by
      by_contra hsome
      obtain ⟨c, hc⟩ := Option.ne_none_iff_exists'.mp hsome
      have hpassed := remembered_of_delivered hc
      rw [remembered, hticked] at hpassed
      cases hpassed
    rw [(step_of_ticked_none cfg st hticked).2, hdelivered, skipped, hticked]
    simp
  | some c =>
    obtain ⟨r, live, rfl, hlive, hframe⟩ := ticked_eq_some hticked
    rw [step_tick cfg hlive, skipped, hticked]
    show (tick cfg st live r).counters.framesSkippedUnchanged = _ ∧
      (tick cfg st live r).counters.framesSent = _
    have hgate : gate cfg { st with
        live := some { live with latestFrame := none }, lastHash := cheapHash c.frame.bgra }
        = gate cfg st := rfl
    unfold tick delivered admitted
    simp only [hlive, hframe, Option.bind_some, hgate]
    by_cases hsame : isUnchanged st c.frame = true
    · simp [hsame, Option.filter]
    · simp only [hsame, Option.filter]
      cases gate cfg st with
      | some reason => by_cases hreason : reason = .noWindow <;> simp [hreason]
      | none =>
        cases r.jpeg with
        | none => simp
        | some jpeg =>
          unfold transmit
          cases r.frameSent with
          | false => simp
          | true => cases r.metaSent <;> simp

/-! ### What the server has -/

/-- The client, and beside it the frame whose two sends were the last to both succeed: what the
    server has. -/
structure Ledger where
  state : ClientState
  last : Option Captured

/-- One input, with what it delivers entered. -/
def Ledger.step (cfg : ClientConfig) (s : Ledger) (i : Input) : Ledger where
  state := Client.step cfg s.state i
  last := (delivered cfg s.state i).or s.last

/-- The ledger `run` starts with. -/
def Ledger.initial (cfg : ClientConfig) (w : Window) : Ledger where
  state := .initial cfg w
  last := none

/-- The ledger after a run. -/
def ledger (cfg : ClientConfig) (w : Window) (inputs : List Input) : Ledger :=
  run (Ledger.step cfg) (.initial cfg w) inputs

/-- The ledger follows the client. -/
theorem ledger_state (cfg : ClientConfig) (w : Window) (inputs : List Input) :
    (ledger cfg w inputs).state = runClient cfg w inputs := by
  have hstep : ∀ (s : Ledger) (st : ClientState) (i : Input), s.state = st →
      (s.step cfg i).state = step cfg st i := fun s st i h => congrArg (step cfg · i) h
  exact run_related hstep rfl inputs

/-- Whenever a run skips a frame as unchanged, the last delivered frame has its hash, so nothing
    is lost by it. -/
def SkipsDelivered (cfg : ClientConfig) (w : Window) (inputs : List Input) : Prop :=
  ∀ before i after, inputs = before ++ i :: after →
    ∀ c ∈ skipped (runClient cfg w before) i,
      ∃ d ∈ (ledger cfg w before).last, d.hash = c.hash

/-- The hash of the last delivered frame, or the 0 that stands for none. -/
def Ledger.hash (s : Ledger) : UInt64 := (s.last.map Captured.hash).getD 0

/-- Does the client remember the frame the server has, by its hash? -/
def Ledger.InSync (s : Ledger) : Prop := s.state.lastHash = s.hash

/-- A frame that passes the dedup is delivered, or looks like the last delivered one; a frame
    that is dropped after it is not. -/
def Accounted (cfg : ClientConfig) (s : Ledger) (i : Input) : Prop :=
  ∀ c ∈ remembered s.state i, delivered cfg s.state i = some c ∨ c.hash = s.hash

/-- No frame without dirty regions has the hash 0 while nothing is delivered yet; it would be
    taken for a repetition. -/
def NoZeroHash (s : Ledger) (i : Input) : Prop :=
  s.last = none → ∀ c ∈ ticked s.state i, c.frame.dirtyRegions = 0 → c.hash ≠ 0

instance (cfg : ClientConfig) (s : Ledger) (i : Input) : Decidable (Accounted cfg s i) :=
  inferInstanceAs (Decidable (∀ c ∈ remembered s.state i, _ ∨ _))

instance (s : Ledger) (i : Input) : Decidable (NoZeroHash s i) :=
  inferInstanceAs (Decidable (_ → ∀ c ∈ ticked s.state i, _ → _))

/-- **One step keeps the memory true exactly if its frame is accounted for.** -/
theorem inSync_step_iff (cfg : ClientConfig) {s : Ledger} (h : s.InSync) (i : Input) :
    (s.step cfg i).InSync ↔ Accounted cfg s i := by
  show (step cfg s.state i).lastHash = (((delivered cfg s.state i).or s.last).map _).getD 0 ↔ _
  rw [step_lastHash, h, Accounted]
  cases hpassed : remembered s.state i with
  | none =>
    -- nothing is delivered either
    have hnone : delivered cfg s.state i = none := by
      by_contra hsome
      obtain ⟨c, hc⟩ := Option.ne_none_iff_exists'.mp hsome
      rw [remembered_of_delivered hc] at hpassed
      cases hpassed
    simp [hnone, Ledger.hash]
  | some c =>
    cases hdelivered : delivered cfg s.state i with
    | none => simp [Ledger.hash]
    | some d =>
      have hd : c = d := Option.some.inj (hpassed.symm.trans (remembered_of_delivered hdelivered))
      simp [hd]

/-- **The memory is true throughout a run exactly if every frame is accounted for**, by induction
    on the run. -/
theorem inSync_iff (cfg : ClientConfig) (w : Window) (inputs : List Input) :
    (∀ before after, inputs = before ++ after → (ledger cfg w before).InSync) ↔
      AtSteps (Ledger.step cfg) (Accounted cfg) (.initial cfg w) inputs := by
  have key : ∀ s : Ledger, s.InSync →
      ((∀ before after, inputs = before ++ after → (run (Ledger.step cfg) s before).InSync) ↔
        AtSteps (Ledger.step cfg) (Accounted cfg) s inputs) := by
    induction inputs with
    | nil =>
      intro s hs
      refine iff_of_true (fun before after h => ?_) trivial
      rw [(List.append_eq_nil_iff.mp h.symm).1]
      exact hs
    | cons i inputs ih =>
      intro s hs
      rw [AtSteps]
      refine ⟨fun h => ?_, fun h before after hsplit => ?_⟩
      · have hstep : (s.step cfg i).InSync := h [i] inputs rfl
        refine ⟨(inSync_step_iff cfg hs i).mp hstep, (ih _ hstep).mp fun before after hsplit => ?_⟩
        exact h (i :: before) after (congrArg (i :: ·) hsplit)
      · cases before with
        | nil => exact hs
        | cons b before =>
          obtain ⟨rfl, hrest⟩ := List.cons.inj hsplit
          have hstep : (s.step cfg i).InSync := (inSync_step_iff cfg hs i).mpr h.1
          exact (ih _ hstep).mpr h.2 before after hrest
  exact key (.initial cfg w) rfl

omit [TextTables] in
/-- In sync, a skipped frame looks like the last delivered one, or has the hash 0. -/
theorem skipped_inSync {s : Ledger} {i : Input} (h : s.InSync) (hzero : NoZeroHash s i) :
    ∀ c ∈ skipped s.state i, ∃ d ∈ s.last, d.hash = c.hash := by
  intro c hc
  obtain ⟨hticked, hsame⟩ := Option.filter_eq_some_iff.mp hc
  obtain ⟨hhash, hdirty⟩ : c.hash = s.state.lastHash ∧ c.frame.dirtyRegions = 0 := by
    simpa [isUnchanged, Captured.hash] using hsame
  rw [h] at hhash
  cases hlast : s.last with
  | none =>
    have hzero' : c.hash = 0 := by simpa [Ledger.hash, hlast] using hhash
    exact absurd hzero' (hzero hlast c hticked hdirty)
  | some d => exact ⟨d, rfl, by simpa [Ledger.hash, hlast] using hhash.symm⟩

/-- **The dedup only drops what the server already has, if every frame it lets past is
    delivered**, or looks like the last delivered one: then a frame that a run skips as unchanged
    has the hash of the last frame whose two sends both succeeded, provided that no frame without
    dirty regions has the hash 0 before the first delivery. -/
theorem skipsDelivered_of_accounted (cfg : ClientConfig) (w : Window) (inputs : List Input)
    (h : AtSteps (Ledger.step cfg) (fun s i => Accounted cfg s i ∧ NoZeroHash s i)
      (.initial cfg w) inputs) : SkipsDelivered cfg w inputs := by
  have hstart : (Ledger.initial cfg w).InSync := rfl
  have hskips : AtSteps (Ledger.step cfg)
      (fun s i => ∀ c ∈ skipped s.state i, ∃ d ∈ s.last, d.hash = c.hash)
      (.initial cfg w) inputs :=
    AtSteps.mono_of (I := Ledger.InSync)
      (fun s i hs hi => (inSync_step_iff cfg hs i).mpr hi.1)
      (fun s i hs hi => skipped_inSync hs hi.2) hstart h
  intro before i after hsplit
  rw [← ledger_state]
  exact atSteps_iff.mp hskips before i after hsplit

end

section

attribute [local instance] TextTables.ascii

/-- One frame reaches the server, and the next, with the same picture, is skipped. -/
theorem skipsDelivered_of_accounted_twice :
    SkipsDelivered ⟨⟨Vector.replicate 16 0⟩, false, false, [], []⟩
      ⟨1, "Notes", {}, 7, none, none, none⟩
      [.connect true, .capture ⟨[1, 2, 3, 4], 1, 1, 1⟩, .bridgeTake, .bridgePut, .recv,
        .tick ⟨some [0xff, 0xd8], none, [], [], "t", 5, true, true⟩,
        .capture ⟨[1, 2, 3, 4], 1, 1, 0⟩, .bridgeTake, .bridgePut, .recv,
        .tick ⟨some [0xff, 0xd8], none, [], [], "u", 6, true, true⟩] :=
  skipsDelivered_of_accounted _ _ _ (by decide +kernel)

/-- **A frame is skipped that the server never got.**  The privacy gate drops a frame while the
    client is paused; after the resume the unchanged picture is skipped, and nothing has been
    delivered. -/
theorem skips_undelivered :
    ¬ ∀ (cfg : ClientConfig) (w : Window) (inputs : List Input), SkipsDelivered cfg w inputs := by
  intro h
  let cfg : ClientConfig := ⟨⟨Vector.replicate 16 0⟩, false, false, [], []⟩
  let w : Window := ⟨1, "Notes", {}, 7, none, none, none⟩
  let reading : TickReadings := ⟨some [0xff, 0xd8], none, [], [], "t", 5, true, true⟩
  let before : List Input :=
    [.connect true, .control (.ok (some .pause)),
      .capture ⟨[1, 2, 3, 4], 1, 1, 1⟩, .bridgeTake, .bridgePut, .recv, .tick reading,
      .control (.ok (some (.resume none))),
      .capture ⟨[1, 2, 3, 4], 1, 1, 0⟩, .bridgeTake, .bridgePut, .recv]
  have hskips := h cfg w (before ++ [.tick reading]) before (.tick reading) [] rfl
  exact absurd hskips (by decide +kernel)

end

end Precall.Client
