import Precall.Client.Run

namespace Precall.Client

open ByteLib TextLib Runs Precall.Proto

/-!
# What the client uploads

Two promises of the capture loop, for every run.

* `uploads_clean_iff` — no upload shows a protected window, an excluded process or an excluded
  address, exactly if at every tick that gets as far as the sends the address bar is clean and
  the list in force excludes no process that the configured list admits: the gate sees neither
  the address bar nor a list received later;
* `uploads_truthful` — every upload was captured while the client was not paused, with the window
  of its record in the foreground, if no tick sends a frame that was on its way when the desktop
  changed or a pause ended;
* `fresh_of_quiet` — which holds if those events happen only while no frame is on its way.
-/

section
variable [TextTables]

/-! ### Excluded content -/

/-- The window of an upload is not protected, its process is not excluded, and no address in its
    record has an excluded domain, by the list in force. -/
def Clean (u : Upload) : Prop :=
  isProtectedWindow u.window = false ∧
    u.inForce.processExcluded (foregroundMeta u.window).processName = false ∧
    ∀ w ∈ u.record.webs, u.inForce.domainExcluded w.domain = false

instance (u : Upload) : Decidable (Clean u) := inferInstanceAs (Decidable (_ ∧ _ ∧ _))

/-- If the tick gets as far as the sends: a process the list in force excludes is excluded by the
    configured list as well, and nothing read from the address bar has an excluded domain. -/
def Screened (cfg : ClientConfig) (st : ClientState) (i : Input) : Prop :=
  ∀ r, i = .tick r → (admitted cfg st i).isSome = true →
    (st.inForce.processExcluded (foregroundMeta st.window).processName = true →
      cfg.exclusions.processExcluded (foregroundMeta st.window).processName = true) ∧
    (st.window.pid ≠ 0 → ∀ w ∈ browserUrl r.edits, st.inForce.domainExcluded w.domain = false)

/-- What the open gate says: the snapshot is clean by the configured list. -/
theorem gate_eq_none {cfg : ClientConfig} {st : ClientState} (h : gate cfg st = none) :
    st.paused = false ∧ isProtectedWindow st.window = false ∧
      cfg.exclusions.processExcluded (foregroundMeta st.window).processName = false := by
  obtain ⟨hpaused, hprotected, hprocess, -⟩ := check_eq_none.mp h
  exact ⟨hpaused, hprotected, hprocess⟩

/-- One input: the upload it starts is clean exactly if the input is screened.  Other inputs
    start none. -/
theorem clean_admitted (cfg : ClientConfig) (st : ClientState) (i : Input) :
    (∀ u ∈ (admitted cfg st i).toList, Clean u) ↔ Screened cfg st i := by
  cases hadmitted : admitted cfg st i with
  | none => simp [Screened, hadmitted]
  | some u =>
    obtain ⟨r, live, rfl, -, -, hgate, hwindow, hinForce, hrecord⟩ := admitted_spec hadmitted
    obtain ⟨-, hprotected, hprocess⟩ := gate_eq_none hgate
    -- the gate vouches for the window and, by the configured list, for the process
    have hwebs : u.record.webs = if st.window.pid ≠ 0 then browserUrl r.edits else [] := by
      rw [hrecord]
      rfl
    have hclean : Clean u ↔
        st.inForce.processExcluded (foregroundMeta st.window).processName = false ∧
        (st.window.pid ≠ 0 → ∀ w ∈ browserUrl r.edits, st.inForce.domainExcluded w.domain = false)
        := by
      unfold Clean
      rw [hwindow, hinForce, hwebs]
      simp only [hprotected, true_and]
      refine and_congr_right fun _ => ?_
      split
      · rename_i hpid
        exact ⟨fun h _ => h, fun h => h hpid⟩
      · rename_i hpid
        exact ⟨fun _ h => absurd h hpid, fun _ w hw => by cases hw⟩
    have hscreened : Screened cfg st (.tick r) ↔
        (st.inForce.processExcluded (foregroundMeta st.window).processName = true →
          cfg.exclusions.processExcluded (foregroundMeta st.window).processName = true) ∧
        (st.window.pid ≠ 0 → ∀ w ∈ browserUrl r.edits, st.inForce.domainExcluded w.domain = false)
        := by
      unfold Screened
      rw [hadmitted]
      constructor
      · exact fun h => h r rfl rfl
      · rintro h r' hr -
        exact Input.tick.inj hr ▸ h
    rw [hscreened, hprocess]
    simp [hclean]

/-- **Excluded content stays on the machine, exactly when ticks are screened**: by induction on
    the run, upload by upload. -/
theorem uploads_clean_iff (cfg : ClientConfig) (w : Window) (inputs : List Input) :
    (∀ u ∈ (runClient cfg w inputs).uploads, Clean u) ↔
      AtSteps (step cfg) (Screened cfg) (.initial cfg w) inputs := by
  have hkeep : ∀ st i, True → ((∀ u ∈ (step cfg st i).uploads, Clean u) ↔
      (∀ u ∈ st.uploads, Clean u) ∧ Screened cfg st i) := by
    intro st i _
    rw [step_uploads, ← clean_admitted]
    simp only [List.mem_append, or_imp, forall_and]
  have hrun := run_iff (I := fun _ => True) (Q := fun st => ∀ u ∈ st.uploads, Clean u)
    (fun _ _ _ => trivial) hkeep (s := ClientState.initial cfg w) trivial inputs
  exact hrun.trans (and_iff_right fun u hu => by cases hu)

/-! ### Stale frames -/

/-- The record describes the window: its name, handle, title, bounds, application and the ways
    to open it again. -/
def Describes (rec : WindowCaptureRecord) (w : Window) : Prop :=
  let m := foregroundMeta w
  rec.name = m.captureName ∧ rec.windowId = w.hwnd ∧ rec.windowTitle = w.title ∧
    rec.windowBounds = boundsText w.bounds ∧ rec.activationUri = m.activationUri ∧
    rec.activityId = m.aumid ∧ rec.fallbackUri = m.fallbackUri ∧ rec.apps = m.appRecord.toList

/-- The frame of an upload was captured while the client was not paused, with the window its
    record describes in the foreground; so the gate was open then. -/
def Truthful (cfg : ClientConfig) (u : Upload) : Prop :=
  u.captured.stamp.paused = false ∧ Describes u.record u.captured.stamp.window ∧
    check u.captured.stamp.paused (some (foregroundMeta u.captured.stamp.window)) cfg.exclusions
      (isProtectedWindow u.captured.stamp.window) = none

/-- If the tick gets as far as the sends, its frame was captured after the desktop last changed
    and after a pause last ended. -/
def Fresh (cfg : ClientConfig) (st : ClientState) (i : Input) : Prop :=
  ∀ u ∈ admitted cfg st i, st.changedAt < u.captured.stamp.time

instance (rec : WindowCaptureRecord) (w : Window) : Decidable (Describes rec w) :=
  inferInstanceAs (Decidable (_ ∧ _ ∧ _ ∧ _ ∧ _ ∧ _ ∧ _ ∧ _))

instance (cfg : ClientConfig) (u : Upload) : Decidable (Truthful cfg u) :=
  inferInstanceAs (Decidable (_ ∧ _ ∧ _))

instance (cfg : ClientConfig) (st : ClientState) (i : Input) : Decidable (Fresh cfg st i) :=
  inferInstanceAs (Decidable (∀ u ∈ admitted cfg st i, _))

/-- The frames on their way were captured before now; one captured after the last disturbance saw
    the window that is in the foreground, and a pause it was captured in still goes on. -/
structure Timely (st : ClientState) : Prop where
  past : ∀ c ∈ st.buffered, c.stamp.time < st.clock
  window : ∀ c ∈ st.buffered, st.changedAt < c.stamp.time → c.stamp.window = st.window
  paused : ∀ c ∈ st.buffered, st.changedAt < c.stamp.time → c.stamp.paused = true →
    st.paused = true

/-- A client that has just started has uploaded nothing. -/
theorem timely_initial (cfg : ClientConfig) (w : Window) : Timely (.initial cfg w) where
  past := fun c hc => by cases hc
  window := fun c hc => by cases hc
  paused := fun c hc => by cases hc

/-- Every input keeps the frames timely: those on their way carry the stamps they were captured
    under. -/
theorem timely_step {cfg : ClientConfig} {st : ClientState} (h : Timely st) (i : Input) :
    Timely (step cfg st i) := by
  have hpast : ∀ c ∈ (step cfg st i).buffered, c.stamp.time < st.clock + 1 := by
    intro c hc
    rcases step_buffered hc with hc | ⟨frame, -, rfl⟩
    · exact (h.past c hc).trans (Nat.lt_succ_self _)
    · exact Nat.lt_succ_self _
  cases hdisturbs : disturbs st i with
  | true =>
    -- a frame that was on its way is older than the disturbance
    have hstale : ∀ c ∈ (step cfg st i).buffered, ¬ (step cfg st i).changedAt < c.stamp.time := by
      intro c hc
      rw [step_disturbed hdisturbs]
      exact Nat.not_lt.mpr (Nat.lt_succ_iff.mp (hpast c hc))
    exact ⟨hpast, fun c hc hfresh => absurd hfresh (hstale c hc),
      fun c hc hfresh => absurd hfresh (hstale c hc)⟩
  | false =>
    obtain ⟨hwindow, hchanged, hpaused⟩ := step_undisturbed cfg hdisturbs
    refine ⟨hpast, fun c hc hfresh => ?_, fun c hc hfresh hp => ?_⟩
    · rw [hchanged] at hfresh
      rw [hwindow]
      rcases step_buffered hc with hc | ⟨frame, -, rfl⟩
      · exact h.window c hc hfresh
      · rfl
    · rw [hchanged] at hfresh
      rcases step_buffered hc with hc | ⟨frame, -, rfl⟩
      · exact hpaused (h.paused c hc hfresh hp)
      · exact hpaused hp

/-- The upload of a tick with a fresh frame is truthful: the window has not changed since the
    capture. -/
theorem truthful_admitted {cfg : ClientConfig} {st : ClientState} {i : Input} (h : Timely st)
    (hfresh : Fresh cfg st i) : ∀ u ∈ (admitted cfg st i).toList, Truthful cfg u := by
  intro u hu
  have hadmitted : admitted cfg st i = some u := Option.mem_toList.mp hu
  obtain ⟨r, live, -, hlive, hframe, hgate, -, -, hrecord⟩ := admitted_spec hadmitted
  have hmem : u.captured ∈ st.buffered :=
    mem_buffered.mpr (Or.inr (Or.inr (Or.inr ⟨live, hlive, hframe⟩)))
  -- a fresh frame saw the window of now, and the gate says no pause is on now
  have htime := hfresh u hadmitted
  have hwindow := h.window _ hmem htime
  have hpaused : u.captured.stamp.paused = false := by
    cases hp : u.captured.stamp.paused with
    | false => rfl
    | true =>
      have hnow := h.paused _ hmem htime hp
      rw [(gate_eq_none hgate).1] at hnow
      cases hnow
  refine ⟨hpaused, ?_, ?_⟩
  · rw [hwindow, hrecord]
    exact ⟨rfl, rfl, rfl, rfl, rfl, rfl, rfl, rfl⟩
  · rw [hpaused, hwindow, ← (gate_eq_none hgate).1]
    exact hgate

/-- **The record belongs to the frame.**  In every run in which no tick sends a frame that was on
    its way when the desktop changed or a pause ended, every upload is truthful. -/
theorem uploads_truthful (cfg : ClientConfig) (w : Window) (inputs : List Input)
    (hfresh : AtSteps (step cfg) (Fresh cfg) (.initial cfg w) inputs) :
    ∀ u ∈ (runClient cfg w inputs).uploads, Truthful cfg u := by
  have hstep : ∀ st i, (Timely st ∧ ∀ u ∈ st.uploads, Truthful cfg u) → Fresh cfg st i →
      Timely (step cfg st i) ∧ ∀ u ∈ (step cfg st i).uploads, Truthful cfg u := by
    rintro st i ⟨htimely, hsent⟩ hfresh
    refine ⟨timely_step htimely i, fun u hu => ?_⟩
    -- an old upload, or the one this input starts
    rw [step_uploads, List.mem_append] at hu
    exact hu.elim (hsent u) (truthful_admitted htimely hfresh u)
  exact (run_invariant_of hstep ⟨timely_initial cfg w, fun u hu => by cases hu⟩ hfresh).2

/-- **A quiet desktop.**  If the desktop changes and pauses end only while no frame is on its way,
    no tick sends a stale frame. -/
theorem fresh_of_quiet (cfg : ClientConfig) (w : Window) (inputs : List Input)
    (hquiet : AtSteps (step cfg) (fun st i => disturbs st i = true → st.buffered = [])
      (.initial cfg w) inputs) :
    AtSteps (step cfg) (Fresh cfg) (.initial cfg w) inputs := by
  refine hquiet.mono_of
    (I := fun st => st.changedAt < st.clock ∧ ∀ c ∈ st.buffered, st.changedAt < c.stamp.time)
    ?_ ?_ ⟨Nat.zero_lt_one, fun c hc => by cases hc⟩
  · rintro st i ⟨hclock, hinv⟩ hquiet
    cases hdisturbs : disturbs st i with
    | true =>
      -- nothing was on its way, and a disturbance captures nothing
      refine ⟨?_, fun c hc => ?_⟩
      · rw [step_disturbed hdisturbs]
        exact Nat.lt_succ_self _
      · rcases step_buffered hc with hc | ⟨frame, rfl, -⟩
        · rw [hquiet hdisturbs] at hc
          cases hc
        · cases hdisturbs
    | false =>
      have hchanged := (step_undisturbed cfg hdisturbs).changedAt
      refine ⟨?_, fun c hc => ?_⟩
      · rw [hchanged]
        exact hclock.trans (Nat.lt_succ_self _)
      · rw [hchanged]
        rcases step_buffered hc with hc | ⟨frame, -, rfl⟩
        · exact hinv c hc
        · exact hclock
  · rintro st i ⟨-, hinv⟩ - u hu
    obtain ⟨r, live, -, hlive, hframe, -⟩ := admitted_spec hu
    exact hinv _ (mem_buffered.mpr (Or.inr (Or.inr (Or.inr ⟨live, hlive, hframe⟩))))

end

/-! ### Three short runs -/

section

attribute [local instance] TextTables.ascii

/-- A client that must not record `bank.com`. -/
def smallClient : ClientConfig where
  clientId := ⟨Vector.replicate 16 0⟩
  enableAudio := false
  enableOcr := false
  excludedProcesses := []
  excludedDomains := ["bank.com"]

/-- A browser in front, of an application without an id. -/
def browserWindow : Window where
  hwnd := 1
  title := "Browser"
  bounds := {}
  pid := 7
  process := some (some "C:\\browser.exe", none)
  windowAumid := none
  affinity := none

/-- Another window in front of it. -/
def notesWindow : Window := { browserWindow with hwnd := 2, title := "Notes" }

/-- A frame of one pixel. -/
def onePixel : CaptureFrame where
  bgra := [1, 2, 3, 4]
  width := 1
  height := 1
  dirtyRegions := 1

/-- A tick at which everything works and the address bar shows `url`. -/
def smallTick (url : String) : Input :=
  .tick {
    jpeg := some [0xff, 0xd8, 0xff, 0xd9]
    ocr := none
    edits := [{ name := "Address bar", value := some url }]
    locations := []
    token := "t"
    now := 0
    frameSent := true
    metaSent := true }

/-- One frame is captured and becomes the latest one. -/
def frameArrives : List Input := [.capture onePixel, .bridgeTake, .bridgePut, .recv]

/-- The address of an excluded domain goes out, since the gate sees the snapshot without
    addresses. -/
theorem uploads_not_clean :
    ∃ u ∈ (runClient smallClient browserWindow
      (.connect true :: frameArrives ++ [smallTick "https://bank.com/login"])).uploads,
      ¬ Clean u := by
  decide +kernel

/-- A frame captured in the window it is sent with. -/
theorem uploads_truthful_quiet :
    (runClient smallClient browserWindow
      (.connect true :: .foreground notesWindow :: frameArrives ++ [smallTick ""])).uploads.length
      = 1 ∧
    ∀ u ∈ (runClient smallClient browserWindow
      (.connect true :: .foreground notesWindow :: frameArrives ++ [smallTick ""])).uploads,
      Truthful smallClient u :=
  ⟨by decide +kernel, uploads_truthful smallClient browserWindow
    (.connect true :: .foreground notesWindow :: frameArrives ++ [smallTick ""])
    (by decide +kernel)⟩

/-- The window changes between capture and tick: the browser's frame goes out under the record of
    the other window.  A pause ends between them: a frame captured during the pause goes out. -/
theorem uploads_not_truthful :
    (∃ u ∈ (runClient smallClient browserWindow
      (.connect true :: frameArrives ++ [.foreground notesWindow, smallTick ""])).uploads,
      u.record.windowTitle = "Notes" ∧ u.captured.stamp.window.title = "Browser" ∧
        ¬ Truthful smallClient u) ∧
    ∃ u ∈ (runClient smallClient browserWindow
      (.connect true :: .control (.ok (some .pause)) :: frameArrives ++
        [.control (.ok (some (.resume none))), smallTick ""])).uploads,
      u.captured.stamp.paused = true ∧ ¬ Truthful smallClient u := by
  decide +kernel

end

end Precall.Client
