import Mathlib.Data.List.Chain
import Precall.Client.Run

namespace Precall.Client

open TextLib Runs Precall.Proto

/-!
# Reconnection

The outer loop of `run` on a clock, in a run in which `stop` is never signalled.  The clock is the
loop's own: an attempt takes its time, a failed one is followed by a sleep of the backoff, and a
branch of the inner loop takes the time the loop waits for it and runs it.  The desktop, the
capture thread and the bridge run beside it.

* `step_live_isNone` — the exits of the inner loop: what ends a connection;
* `backsOff_run` — after `n` failed attempts in a row the next one starts
  `min (500 * 2 ^ (n - 1)) 30000` ms after the last of them;
* `paced_iff` — attempts start 500 ms apart exactly if no connection ends within 500 ms of the
  start of its attempt, because nothing sleeps after a session;
* `storm` — once the capture thread has ended, every session ends at its first look at the
  channel, and the attempts follow each other at once.
-/

/-! ### The exits -/

section
variable [TextTables]

/-- Does an input end a connection?  The capture thread has ended and its frames are used up; an
    audio chunk, a frame or its record, or a heartbeat does not get through; the server says
    goodbye; the control channel closes or is unreadable. -/
def exits (cfg : ClientConfig) (st : ClientState) : Input → Bool
  | .recv => st.chan.isEmpty && !st.bridgeAlive && st.inHand.isNone
  | .audio _ sent => cfg.enableAudio && !sent
  | .tick r => (admitted cfg st (.tick r)).isSome && !(r.frameSent && r.metaSent)
  | .heartbeat sent => !sent
  | .control (.ok (some (.goodbye _))) => true
  | .control (.error _) => true
  | .stop => true
  | _ => false

/-- A tick leaves the connection exactly where the model says that it exits. -/
private theorem tick_live_isNone (cfg : ClientConfig) {st : ClientState} {live : Live}
    (hlive : st.live = some live) (r : TickReadings) :
    (tick cfg st live r).live.isNone = exits cfg st (.tick r) := by
  have hgate : ∀ c, gate cfg { st with
      live := some { live with latestFrame := none }, lastHash := c } = gate cfg st := fun _ => rfl
  unfold tick exits admitted
  simp only [hlive, hgate, Option.bind_some]
  cases live.latestFrame with
  | none => simp [hlive]
  | some c =>
    by_cases hsame : isUnchanged st c.frame = true
    · simp [hsame]
    · simp only [hsame, Bool.false_eq_true, if_false]
      cases gate cfg st with
      | some reason => by_cases hreason : reason = .noWindow <;> simp [hreason]
      | none =>
        cases r.jpeg with
        | none => simp
        | some jpeg =>
          unfold transmit
          cases r.frameSent with
          | false => simp [hsame]
          | true => cases r.metaSent <;> simp [hsame]

/-- **What ends a connection.** One case for each input; `exits` lists those that do. -/
theorem step_live_isNone (cfg : ClientConfig) {st : ClientState} {live : Live}
    (hlive : st.live = some live) (i : Input) :
    (step cfg st i).live.isNone = exits cfg st i := by
  show (act cfg st i).live.isNone = _
  cases hloop : i.isLoop with
  | false =>
    obtain ⟨_, _, _, _, _, _, hact⟩ := act_desktop cfg st hloop
    have hexits : exits cfg st i = false := by cases i <;> simp_all [exits, Input.isLoop]
    simp [hact, hlive, hexits]
  | true =>
    cases i with
    | tick r =>
      simp only [act, whileLive, hlive]
      exact tick_live_isNone cfg hlive r
    | recv =>
      simp only [act, whileLive, hlive, recv, exits]
      cases st.chan with
      | nil => by_cases hend : (!st.bridgeAlive && st.inHand.isNone) = true <;> simp [hend, hlive]
      | cons c chan => simp
    | audio chunk sent =>
      by_cases haudio : cfg.enableAudio = true <;> cases sent <;>
        simp [act, whileLive, hlive, audio, exits, haudio]
    | heartbeat sent => cases sent <;> simp [act, whileLive, hlive, heartbeat, exits]
    | control msg =>
      rcases msg with e | _ | msg <;> try cases msg
      all_goals simp [act, whileLive, hlive, control, exits]
    | connect ok => simp [act, connect, exits, hlive]
    | stop => simp [act, exits]
    | _ => cases hloop

/-- Without a connection only an attempt can make one. -/
theorem step_live_none (cfg : ClientConfig) {st : ClientState} (hlive : st.live = none)
    {i : Input} (hi : ∀ ok, i ≠ .connect ok) : (step cfg st i).live = none := by
  show (act cfg st i).live = none
  cases hloop : i.isLoop with
  | false =>
    obtain ⟨_, _, _, _, _, _, hact⟩ := act_desktop cfg st hloop
    rw [hact]
    exact hlive
  | true =>
    cases i with
    | connect ok => exact absurd rfl (hi ok)
    | _ => simp_all [act, whileLive, Input.isLoop]

/-- Only an attempt touches the backoff, and only `stop` stops: a session that ends leaves both
    as they were. -/
theorem step_backoff (cfg : ClientConfig) (st : ClientState) {i : Input}
    (hconnect : ∀ ok, i ≠ .connect ok) (hstop : i ≠ .stop) :
    (step cfg st i).backoff = st.backoff ∧ (step cfg st i).stopped = st.stopped := by
  rw [← Prod.mk.injEq]
  let f : ClientState → Nat × Bool := fun st => (st.backoff, st.stopped)
  show f (act cfg st i) = f st
  cases hloop : i.isLoop with
  | false =>
    obtain ⟨_, _, _, _, _, _, hact⟩ := act_desktop cfg st hloop
    rw [hact]
  | true =>
    cases i with
    | connect ok => exact absurd rfl (hconnect ok)
    | stop => exact absurd rfl hstop
    | heartbeat sent =>
      obtain ⟨_, _, hact⟩ := act_heartbeat cfg st sent
      rw [hact]
    | audio chunk sent =>
      obtain ⟨_, _, hact⟩ := act_audio cfg st chunk sent
      rw [hact]
    | control msg =>
      obtain ⟨_, _, _, _, hact⟩ := act_control cfg st msg
      rw [hact]
    | recv =>
      obtain ⟨_, _, hact⟩ := act_recv cfg st
      rw [hact]
    | tick r =>
      obtain ⟨_, _, _, _, hact⟩ := act_tick cfg st r
      rw [hact]
    | _ => cases hloop

end

/-! ### The loop on its clock -/

/-- An attempt of the outer loop: when it began and ended, in ms, and whether it succeeded. -/
structure Attempt where
  start : Nat
  ended : Nat
  ok : Bool
  deriving DecidableEq, Repr

/-- One input of a run without `stop`, and the time the loop spends on it: how long a connection
    attempt takes, or how long the inner loop waits for the branch and runs it. -/
structure Timed where
  input : Input
  spent : Nat
  unstopped : input ≠ .stop

/-- The client, the loop's clock and the attempts so far, oldest first, for statements about when
    they were made. -/
structure Paced where
  state : ClientState
  now : Nat
  attempts : List Attempt

/-- Is the loop at its top, about to attempt a connection? -/
def ClientState.atTop (st : ClientState) : Bool := !st.stopped && st.live.isNone

/-- How far an input moves the loop's clock: an attempt with the sleep after it if it fails, or a
    turn of a session. -/
def elapses (st : ClientState) (e : Timed) : Nat :=
  match e.input with
  -- a failed attempt is followed by a sleep, a session by nothing
  | .connect ok => if st.atTop then e.spent + (if ok then 0 else st.backoff) else 0
  | .recv => if st.live.isSome then e.spent else 0
  | .tick _ => if st.live.isSome then e.spent else 0
  | .audio _ _ => if st.live.isSome then e.spent else 0
  | .heartbeat _ => if st.live.isSome then e.spent else 0
  | .control _ => if st.live.isSome then e.spent else 0
  -- the desktop and the threads
  | _ => 0

/-- The attempt an input makes. -/
def attempted (s : Paced) (e : Timed) : Option Attempt :=
  match e.input with
  | .connect ok => if s.state.atTop then some ⟨s.now, s.now + e.spent, ok⟩ else none
  | _ => none

section
variable [TextTables]

/-- One input, on the clock. -/
def Paced.step (cfg : ClientConfig) (s : Paced) (e : Timed) : Paced where
  state := Client.step cfg s.state e.input
  now := s.now + elapses s.state e
  attempts := s.attempts ++ (attempted s e).toList

/-- The loop at its first attempt. -/
def Paced.initial (cfg : ClientConfig) (w : Window) : Paced where
  state := .initial cfg w
  now := 0
  attempts := []

/-- The client's run on the clock. -/
def pacedRun (cfg : ClientConfig) (w : Window) (events : List Timed) : Paced :=
  run (Paced.step cfg) (.initial cfg w) events

end

/-- When the attempts started, with the one the loop is about to make. -/
def Paced.pending (s : Paced) : List Nat := if s.state.atTop then [s.now] else []

/-- When the attempts started, the next one included. -/
def Paced.starts (s : Paced) : List Nat := s.attempts.map Attempt.start ++ s.pending

/-- Any two consecutive attempts are at least 500 ms apart, from start to start. -/
def Paced.Spaced (s : Paced) : Prop := s.starts.IsChain fun a b => a + 500 ≤ b

/-- How many attempts have failed in a row, at the end of the list. -/
def failures (attempts : List Attempt) : Nat :=
  (attempts.reverse.takeWhile fun a => !a.ok).length

/-- The wait after `n` failed attempts in a row: 500 ms, doubled for each failure after the
    first, 30 s at most. -/
def wait (n : Nat) : Nat := min (500 * 2 ^ (n - 1)) 30000

/-- After every failed attempt the next one starts when the wait for this many failures in a row
    is over. -/
def Paced.BacksOff (s : Paced) : Prop :=
  ∀ before a after, s.attempts = before ++ a :: after → a.ok = false →
    (after.map Attempt.start ++ s.pending).head? = some (a.ended + wait (failures (before ++ [a])))

/-- A client that is at the top of its loop is about to connect. -/
theorem Paced.pending_of_none {s : Paced} (hrun : s.state.stopped = false)
    (hlive : s.state.live = none) : s.pending = [s.now] := by
  simp [Paced.pending, ClientState.atTop, hrun, hlive]

/-- A client with a connection is not. -/
theorem Paced.pending_of_isSome {s : Paced} (hlive : s.state.live.isSome = true) :
    s.pending = [] := by
  simp [Paced.pending, ClientState.atTop, Option.isNone_eq_false_iff.mpr hlive]

/-- The failures since the last success, attempt by attempt. -/
theorem failures_append (attempts : List Attempt) (a : Attempt) :
    failures (attempts ++ [a]) = if a.ok then 0 else failures attempts + 1 := by
  cases hok : a.ok <;> simp [failures, hok]

/-- Doubling, cut off at 30 s. -/
theorem wait_succ (n : Nat) : wait (n + 2) = min (wait (n + 1) * 2) 30000 := by
  show min (500 * 2 ^ (n + 1)) 30000 = min (min (500 * 2 ^ n) 30000 * 2) 30000
  rw [pow_succ]
  omega

/-- No wait is shorter than the first. -/
theorem wait_ge (n : Nat) : 500 ≤ wait n := by
  have : 1 ≤ 2 ^ (n - 1) := Nat.one_le_two_pow
  unfold wait
  omega

/-! ### What one input does -/

section
variable [TextTables]

/-- What an input does to the loop: an attempt at its top; nothing while it waits there; or some
    time in the inner loop, which may be its end. -/
inductive Moves (cfg : ClientConfig) (s : Paced) (e : Timed) (s' : Paced) : Prop
  | attempt (ok : Bool) (htop : s.state.live = none) (hlive : s'.state.live.isSome = ok)
      (hattempts : s'.attempts = s.attempts ++ [⟨s.now, s.now + e.spent, ok⟩])
      (hnow : s'.now = s.now + e.spent + if ok then 0 else s.state.backoff)
      (hbackoff : s'.state.backoff = if ok then 500 else min (s.state.backoff * 2) 30000)
  | idle (htop : s.state.live = none) (hlive : s'.state.live = none)
      (hattempts : s'.attempts = s.attempts) (hnow : s'.now = s.now)
      (hbackoff : s'.state.backoff = s.state.backoff)
  | session (hup : s.state.live.isSome = true)
      (hlive : s'.state.live.isNone = exits cfg s.state e.input)
      (hattempts : s'.attempts = s.attempts) (hnow : s'.now = s.now + elapses s.state e)
      (hbackoff : s'.state.backoff = s.state.backoff)

/-- A connection attempt at the top of the loop is made; in a session there is none. -/
theorem Paced.connect_moves (cfg : ClientConfig) {s : Paced} (hrun : s.state.stopped = false)
    (ok : Bool) (spent : Nat) (hstop : Input.connect ok ≠ .stop) :
    (s.step cfg ⟨.connect ok, spent, hstop⟩).state.stopped = false ∧
      Moves cfg s ⟨.connect ok, spent, hstop⟩ (s.step cfg ⟨.connect ok, spent, hstop⟩) := by
  have hstate : (s.step cfg ⟨.connect ok, spent, hstop⟩).state
      = { connect s.state ok with clock := s.state.clock + 1 } := rfl
  cases hlive : s.state.live with
  | none =>
    have htop : s.state.atTop = true := by simp [ClientState.atTop, hrun, hlive]
    refine ⟨?_, .attempt ok hlive ?_ ?_ ?_ ?_⟩
    · cases ok <;> simp [hstate, connect, hrun, hlive]
    · cases ok <;> simp [hstate, connect, hrun, hlive]
    · simp [Paced.step, attempted, htop]
    · simp [Paced.step, elapses, htop, Nat.add_assoc]
    · cases ok <;> simp [hstate, connect, hrun, hlive]
  | some live =>
    -- there is a connection already, so the input changes nothing
    have htop : s.state.atTop = false := by simp [ClientState.atTop, hlive]
    refine ⟨?_, .session ?_ ?_ ?_ rfl ?_⟩
    · simp [hstate, connect, hrun, hlive]
    · simp [hlive]
    · exact step_live_isNone cfg hlive (.connect ok)
    · simp [Paced.step, attempted, htop]
    · simp [hstate, connect, hlive]

/-- Any other input attempts nothing. -/
theorem Paced.moves_of_ne_connect (cfg : ClientConfig) {s : Paced}
    (hrun : s.state.stopped = false) {e : Timed} (hne : ∀ ok, e.input ≠ .connect ok) :
    (s.step cfg e).state.stopped = false ∧ Moves cfg s e (s.step cfg e) := by
  obtain ⟨input, spent, hstop⟩ := e
  obtain ⟨hbackoff, hstopped⟩ := step_backoff cfg s.state hne hstop
  have hnone : attempted s ⟨input, spent, hstop⟩ = none := by
    unfold attempted
    split
    · exact absurd ‹_› (hne _)
    · rfl
  have hattempts : (s.step cfg ⟨input, spent, hstop⟩).attempts = s.attempts := by
    simp [Paced.step, hnone]
  refine ⟨hstopped.trans hrun, ?_⟩
  cases hlive : s.state.live with
  | none =>
    -- no branch of the inner loop runs
    have helapses : elapses s.state ⟨input, spent, hstop⟩ = 0 := by
      unfold elapses
      split
      · exact absurd ‹_› (hne _)
      all_goals simp [hlive]
    refine .idle hlive (step_live_none cfg hlive hne) hattempts ?_ hbackoff
    show s.now + elapses s.state _ = s.now
    rw [helapses, Nat.add_zero]
  | some live =>
    exact .session (by simp [hlive]) (step_live_isNone cfg hlive input) hattempts rfl hbackoff

/-- **Every input is one of the three**: an attempt, nothing between attempts, or a step of a
    session. -/
theorem Paced.step_moves (cfg : ClientConfig) {s : Paced} (hrun : s.state.stopped = false)
    (e : Timed) : (s.step cfg e).state.stopped = false ∧ Moves cfg s e (s.step cfg e) := by
  by_cases hconnect : ∃ ok, e.input = .connect ok
  · obtain ⟨input, spent, hstop⟩ := e
    -- the only input at the top of the loop that takes time
    obtain ⟨ok, rfl⟩ := hconnect
    exact Paced.connect_moves cfg hrun ok spent hstop
  · exact Paced.moves_of_ne_connect cfg hrun fun ok h => hconnect ⟨ok, h⟩

/-! ### The backoff -/

/-- What holds at every moment of the run: the backoff is the wait after one more failure; the
    attempt before a connection is in the list; and after a failed attempt the loop is at its top
    when the wait is over. -/
structure Regular (s : Paced) : Prop where
  running : s.state.stopped = false
  backoff : s.state.backoff = wait (failures s.attempts + 1)
  connected : s.state.live.isSome = true → s.attempts ≠ []
  waited : ∀ a ∈ s.attempts.getLast?, a.ok = false →
    s.state.live = none ∧ s.now = a.ended + wait (failures s.attempts)

/-- A client that has just started has made no attempt. -/
theorem regular_initial (cfg : ClientConfig) (w : Window) : Regular (.initial cfg w) where
  running := rfl
  backoff := rfl
  connected := fun h => by cases h
  waited := fun a h => by cases h

/-- Every step keeps the attempts regular: one case for what the loop does at its top, and one
    for each way out of the inner loop. -/
theorem regular_step (cfg : ClientConfig) (s : Paced) (e : Timed) (h : Regular s) :
    Regular (s.step cfg e) := by
  obtain ⟨hrun, hmoves⟩ := Paced.step_moves cfg h.running e
  cases hmoves with
  | attempt ok htop hlive hattempts hnow hbackoff =>
    refine ⟨hrun, ?_, ?_, ?_⟩
    · rw [hbackoff, hattempts, failures_append, h.backoff]
      cases ok with
      | true => rfl
      | false => exact (wait_succ _).symm
    · simp [hattempts]
    · intro a ha hfail
      obtain rfl : ⟨s.now, s.now + e.spent, ok⟩ = a := by simpa [hattempts] using ha
      obtain rfl : ok = false := hfail
      refine ⟨by simpa using hlive, ?_⟩
      rw [hnow, hattempts, failures_append, h.backoff]
      rfl
  | idle htop hlive hattempts hnow hbackoff =>
    refine ⟨hrun, by rw [hbackoff, hattempts, h.backoff], by simp [hlive], ?_⟩
    rw [hattempts, hnow]
    exact fun a ha hfail => ⟨hlive, (h.waited a ha hfail).2⟩
  | session hup hlive hattempts hnow hbackoff =>
    refine ⟨hrun, by rw [hbackoff, hattempts, h.backoff], fun _ => hattempts ▸ h.connected hup, ?_⟩
    -- the attempt before a session has not failed
    intro a ha hfail
    rw [hattempts] at ha
    rw [(h.waited a ha hfail).1] at hup
    cases hup

/-- One input keeps every wait as it was, and a new one is right: the backoff is the wait for the
    failures so far. -/
theorem backsOff_step (cfg : ClientConfig) (s : Paced) (e : Timed) (h : Regular s)
    (hback : s.BacksOff) : (s.step cfg e).BacksOff := by
  have h' := regular_step cfg s e h
  obtain ⟨-, hmoves⟩ := Paced.step_moves cfg h.running e
  intro before a after hsplit hfail
  cases hmoves with
  | attempt ok htop hlive hattempts hnow hbackoff =>
    rw [hattempts] at hsplit
    rcases List.eq_nil_or_concat after with rfl | ⟨rest, last, rfl⟩
    · -- the attempt just made
      obtain ⟨rfl, hlast⟩ := List.append_inj' hsplit rfl
      obtain rfl := (List.cons.inj hlast).1
      obtain ⟨hnone, hwait⟩ := h'.waited _ (by simp [hattempts]) hfail
      simp [Paced.pending_of_none h'.running hnone, hwait, hattempts]
    · rw [List.concat_eq_append] at hsplit ⊢
      rw [← List.cons_append, ← List.append_assoc] at hsplit
      obtain ⟨hrest, hlast⟩ := List.append_inj' hsplit rfl
      obtain rfl := (List.cons.inj hlast).1
      have hnext := hback before a rest hrest hfail
      rw [Paced.pending_of_none h.running htop] at hnext
      rw [List.map_append, List.head?_append, List.map_singleton, hnext]
      rfl
  | idle htop hlive hattempts hnow hbackoff =>
    rw [hattempts] at hsplit
    have hnext := hback before a after hsplit hfail
    rw [Paced.pending_of_none h.running htop] at hnext
    rw [Paced.pending_of_none h'.running hlive, hnow, hnext]
  | session hup hlive hattempts hnow hbackoff =>
    rw [hattempts] at hsplit
    have hnext := hback before a after hsplit hfail
    rw [Paced.pending_of_isSome hup, List.append_nil] at hnext
    rw [List.head?_append, hnext]
    rfl

/-- **After `n` failed attempts in a row the next one comes `min (500 * 2 ^ (n - 1)) 30000` ms
    after the last of them**, whatever else happens. -/
theorem backsOff_run (cfg : ClientConfig) (w : Window) (events : List Timed) :
    (pacedRun cfg w events).BacksOff := by
  have hrun : Regular (pacedRun cfg w events) ∧ (pacedRun cfg w events).BacksOff := by
    refine run_invariant (I := fun s => Regular s ∧ s.BacksOff)
      (fun s e h => ⟨regular_step cfg s e h.1, backsOff_step cfg s e h.1 h.2⟩) ?_ events
    refine ⟨regular_initial cfg w, fun before a after hsplit => ?_⟩
    exact absurd hsplit.symm (List.append_ne_nil_of_right_ne_nil before (List.cons_ne_nil a after))
  exact hrun.2

/-! ### The spacing -/

/-- An input that ends a connection comes at least 500 ms after the start of its attempt, since
    the next one follows at once. -/
def NoEarlyExit (cfg : ClientConfig) (s : Paced) (e : Timed) : Prop :=
  s.state.live.isSome = true → exits cfg s.state e.input = true →
    ∀ a ∈ s.attempts.getLast?, a.start + 500 ≤ s.now + elapses s.state e

instance (cfg : ClientConfig) (s : Paced) (e : Timed) : Decidable (NoEarlyExit cfg s e) :=
  inferInstanceAs (Decidable (_ → _ → ∀ a ∈ s.attempts.getLast?, _))

/-- One input keeps the attempts apart exactly if it is no early exit. -/
theorem spaced_step_iff (cfg : ClientConfig) (s : Paced) (e : Timed) (h : Regular s) :
    (s.step cfg e).Spaced ↔ s.Spaced ∧ NoEarlyExit cfg s e := by
  have h' := regular_step cfg s e h
  obtain ⟨-, hmoves⟩ := Paced.step_moves cfg h.running e
  unfold Paced.Spaced Paced.starts
  cases hmoves with
  | attempt ok htop hlive hattempts hnow hbackoff =>
    have hexit : NoEarlyExit cfg s e := fun hup => by rw [htop] at hup; cases hup
    rw [Paced.pending_of_none h.running htop, hattempts, List.map_append, List.map_singleton]
    cases ok with
    | true =>
      rw [Paced.pending_of_isSome hlive, List.append_nil]
      exact (and_iff_left hexit).symm
    | false =>
      -- the sleep alone takes 500 ms
      have hnone : (s.step cfg e).state.live = none := by simpa using hlive
      have hsleep : s.now + 500 ≤ (s.step cfg e).now := by
        have hwait := wait_ge (failures s.attempts + 1)
        rw [hnow, h.backoff]
        simp only [Bool.false_eq_true, if_false]
        omega
      rw [Paced.pending_of_none h'.running hnone, List.isChain_append]
      simp [hsleep, hexit]
  | idle htop hlive hattempts hnow hbackoff =>
    have hexit : NoEarlyExit cfg s e := fun hup => by rw [htop] at hup; cases hup
    rw [Paced.pending_of_none h.running htop, Paced.pending_of_none h'.running hlive, hattempts,
      hnow]
    exact (and_iff_left hexit).symm
  | session hup hlive hattempts hnow hbackoff =>
    rw [Paced.pending_of_isSome hup, List.append_nil, hattempts]
    cases hend : exits cfg s.state e.input with
    | false =>
      have hexit : NoEarlyExit cfg s e := fun _ hexits => by rw [hend] at hexits; cases hexits
      rw [hend] at hlive
      rw [Paced.pending_of_isSome (Option.isNone_eq_false_iff.mp hlive), List.append_nil]
      exact (and_iff_left hexit).symm
    | true =>
      rw [hend] at hlive
      rw [Paced.pending_of_none h'.running (Option.isNone_iff_eq_none.mp hlive), hnow,
        List.isChain_append]
      simp [NoEarlyExit, hup, hend, List.getLast?_map]

/-- **Reconnection is paced exactly if no session ends early.**  In a run without `stop` any two
    consecutive attempts start at least 500 ms apart, and each failed one is followed by the wait
    for the failures in a row, if and only if every input that ends a connection comes at least
    500 ms after the start of the attempt that made it. -/
theorem paced_iff (cfg : ClientConfig) (w : Window) (events : List Timed) :
    ((pacedRun cfg w events).Spaced ∧ (pacedRun cfg w events).BacksOff) ↔
      AtSteps (Paced.step cfg) (NoEarlyExit cfg) (.initial cfg w) events := by
  have hspaced : (pacedRun cfg w events).Spaced ↔ (Paced.initial cfg w).Spaced ∧
      AtSteps (Paced.step cfg) (NoEarlyExit cfg) (.initial cfg w) events :=
    run_iff (I := Regular) (fun s e h => regular_step cfg s e h)
      (fun s e h => spaced_step_iff cfg s e h) (regular_initial cfg w) events
  have hinitial : (Paced.initial cfg w).Spaced := List.isChain_singleton 0
  rw [and_iff_left (backsOff_run cfg w events), hspaced, and_iff_right hinitial]

/-! ### The capture thread has ended -/

/-- The loop is at its top, and no frame will ever come again: the capture thread has failed, and
    all channels are empty. -/
structure Drained (s : Paced) : Prop where
  running : s.state.stopped = false
  atTop : s.state.live = none
  noFrames : s.state.chan = [] ∧ s.state.inHand = none
  bridgeEnded : s.state.bridgeAlive = false

/-- A connection is made in `spent` ms, and the frame channel is the first branch that is
    ready. -/
def round (spent : Nat) : List Timed := [⟨.connect true, spent, nofun⟩, ⟨.recv, 0, nofun⟩]

/-- One round is one connection that is lost at once, after the time it took to make it. -/
private theorem run_round (cfg : ClientConfig) {s : Paced} (h : Drained s) (spent : Nat) :
    Drained (run (Paced.step cfg) s (round spent)) ∧
      (run (Paced.step cfg) s (round spent)).now = s.now + spent ∧
      (run (Paced.step cfg) s (round spent)).attempts
        = s.attempts ++ [⟨s.now, s.now + spent, true⟩] := by
  obtain ⟨hrun, htop, ⟨hchan, hhand⟩, hbridge⟩ := h
  refine ⟨⟨?_, ?_, ⟨?_, ?_⟩, ?_⟩, ?_, ?_⟩ <;>
    simp [round, Paced.step, Client.step, act, connect, whileLive, recv, elapses, attempted,
      hrun, htop, hchan, hhand, hbridge, ClientState.atTop]

/-- **Once the capture thread has ended the attempts follow each other at once**: every session
    ends at its first look at the channel, and nothing keeps the next attempt back. -/
theorem storm (cfg : ClientConfig) {s : Paced} (h : Drained s) (spent n : Nat) :
    (run (Paced.step cfg) s (List.replicate n (round spent)).flatten).starts
      = s.attempts.map Attempt.start ++ (List.range (n + 1)).map fun k => s.now + k * spent := by
  induction n generalizing s with
  | zero => simp [Paced.starts, Paced.pending_of_none h.running h.atTop]
  | succ n ih =>
    obtain ⟨hdrained, hnow, hattempts⟩ := run_round cfg h spent
    rw [List.replicate_succ, List.flatten_cons, run_append, ih hdrained, hattempts, hnow,
      List.range_succ_eq_map (n := n + 1), List.map_append, List.append_assoc]
    -- the rounds after the first start `spent` later
    have hlater : ∀ k, s.now + spent + k * spent = s.now + (k + 1) * spent := by
      intro k
      rw [Nat.add_mul, Nat.one_mul]
      omega
    simp [hlater]

end

section

attribute [local instance] TextTables.ascii

/-- **Reconnection is not always paced.**  The capture thread ends before the first connection:
    the session ends at once, and the second attempt starts 1 ms after the first. -/
theorem reconnects_at_once :
    ¬ ∀ (cfg : ClientConfig) (w : Window) (events : List Timed),
      (pacedRun cfg w events).Spaced ∧ (pacedRun cfg w events).BacksOff := by
  intro h
  have hspaced := (h ⟨⟨Vector.replicate 16 0⟩, false, false, [], []⟩
    ⟨1, "Notes", {}, 7, none, none, none⟩
    [⟨.captureFails, 0, nofun⟩, ⟨.bridgeTake, 0, nofun⟩, ⟨.connect true, 1, nofun⟩,
      ⟨.recv, 0, nofun⟩]).1
  exact absurd hspaced (by unfold Paced.Spaced; decide +kernel)

end

end Precall.Client
