import Mathlib.Data.Fintype.Card
import Precall.Broker.Admission
import Precall.Lib.Census
import Precall.Lib.Runs

namespace Precall.Broker

open ByteLib TextLib DigestLib CensusLib

/-!
# The session cap

Every connection is a task that `run_on` spawns (`precall-broker/src/ingest.rs`).  At its start
`handle_conn` counts itself with an atomic `fetch_add` and compares what it found with
`max_clients`; a rejected task undoes the increment, an admitted one holds a `SessionGuard`, whose
`drop` decrements whichever way the task leaves.  Each of the three is one atomic step, and the
steps of different tasks interleave in any order.

A task is kept at an address, and the counter is a `usize`, as wide as an address (`w` bits).  So
any number of tasks can be spawned over time, and as many be live at once as there are addresses.

* `Sessions.step` — the runtime accepts a connection, or gives a task a turn;
* `Counted` — what every step keeps: the counter is the number of admitted tasks and of rejected
  ones that have not undone their increment, and the cap holds;
* `sessionCap_holds` — so in every run.
-/

/-! ### Tasks -/

/-- Where an admitted task can wait and fail, from the TLS handshake to the loop of the session. -/
inductive Stage where
  | acceptTls
  | readHello
  | authenticate
  | writeReject
  | openStore
  | writeHello
  | sessionLoop
  deriving DecidableEq, Repr

/-- What a turn does to a stage; a task is abandoned when it panics or its future is dropped. -/
inductive Progress where
  | waits
  | succeeds
  | fails
  | abandoned
  deriving DecidableEq, Repr

/-- Where a task of `handle_conn` stands. -/
inductive Phase where
  /-- Spawned: its next step is the increment and the comparison. -/
  | spawned
  /-- Counted, and found the sessions full: its next step is to undo the increment. -/
  | rejected
  /-- Past the cap, with its guard. -/
  | serving (stage : Stage)
  /-- The scope of the guard is left: its next step is the guard's decrement. -/
  | leaving
  deriving DecidableEq, Repr

/-- What follows a stage; an error of any kind, and the end of the session, leave the scope of the
    guard. -/
def Stage.after : Stage → Progress → Phase
  | stage, .waits => .serving stage
  | .acceptTls, .succeeds => .serving .readHello
  | .readHello, .succeeds => .serving .authenticate
  | .authenticate, .succeeds => .serving .openStore
  -- a version mismatch, or a credential that is not accepted
  | .authenticate, .fails => .serving .writeReject
  | .openStore, .succeeds => .serving .writeHello
  | .writeHello, .succeeds => .serving .sessionLoop
  | _, _ => .leaving

/-- Past the cap and not yet finished. -/
def Phase.admitted : Phase → Bool
  | .serving _ | .leaving => true
  | _ => false

/-- Rejected, with the increment still to undo. -/
def Phase.undoing : Phase → Bool
  | .rejected => true
  | _ => false

/-- Not yet counted. -/
def Phase.uncounted : Phase → Bool
  | .spawned => true
  | _ => false

/-- The next step is a `fetch_sub`. -/
def Phase.decrements : Phase → Bool
  | .rejected | .leaving => true
  | _ => false

/-- A stage goes on or leaves the scope of the guard: either way the task
    stays admitted. -/
theorem Stage.counted_after (stage : Stage) (progress : Progress) :
    (stage.after progress).admitted = true ∧ (stage.after progress).undoing = false := by
  cases stage <;> cases progress <;> exact ⟨rfl, rfl⟩

/-- The broker's counter and its live tasks, by their addresses; no two live tasks have one
    address. -/
structure Sessions (w : Nat) where
  sessions : BitVec w
  tasks : Fin (2 ^ w) → Option Phase

/-- A step of the runtime: a connection is accepted, or the task at an address goes on. -/
inductive Turn (w : Nat) where
  | accept (address : Fin (2 ^ w))
  | poll (address : Fin (2 ^ w)) (progress : Progress)

namespace Sessions

variable {w : Nat} (cfg : BrokerConfig)

/-- A broker that has just started. -/
def new : Sessions w := { sessions := 0, tasks := fun _ => none }

/-- The state of one task changes. -/
def setTask (st : Sessions w) (address : Fin (2 ^ w)) (task : Option Phase) : Sessions w :=
  { st with tasks := Function.update st.tasks address task }

/-- A connection is accepted and its task spawned, at an address that is neither null nor in use; or
    the task at an address takes its next atomic step.  A task that is dropped before its first
    turn was never counted. -/
def step (st : Sessions w) : Turn w → Sessions w
  | .accept address =>
      if address.val = 0 ∨ (st.tasks address).isSome then st
      else st.setTask address (some .spawned)
  | .poll address progress =>
      match st.tasks address with
      | none => st
      | some .spawned =>
          if progress = .abandoned then st.setTask address none
          -- `fetch_add` answers what the counter was
          else { st.setTask address
              (some (if st.sessions.toNat ≥ cfg.maxClients then .rejected
                else .serving .acceptTls)) with
            sessions := st.sessions + 1 }
      | some .rejected => { st.setTask address none with sessions := st.sessions - 1 }
      | some (.serving stage) => st.setTask address (some (stage.after progress))
      | some .leaving => { st.setTask address none with sessions := st.sessions - 1 }

/-- How many live tasks are in some phases, out of all addresses. -/
def number (p : Phase → Bool) (st : Sessions w) : Nat := count (Option.any p) st.tasks

/-- The connections past the cap and not yet finished. -/
def admitted (st : Sessions w) : Nat := st.number Phase.admitted

/-- The rejected connections that have not undone their increment; the counter counts them for
    this long. -/
def undoing (st : Sessions w) : Nat := st.number Phase.undoing

/-! ### What every step keeps -/

variable {cfg} {st : Sessions w} {address : Fin (2 ^ w)}

/-- Where one task changes, the number of those in some phases changes by that task. -/
theorem number_setTask (p : Phase → Bool) (st : Sessions w) (address : Fin (2 ^ w))
    (task : Option Phase) :
    (st.setTask address task).number p + ((st.tasks address).any p).toNat
      = st.number p + (task.any p).toNat :=
  count_update (Option.any p) st.tasks address task

/-- A task in the phase is counted. -/
theorem number_pos {p : Phase → Bool} {phase : Phase} (htask : st.tasks address = some phase)
    (hp : p phase = true) : 0 < st.number p :=
  count_pos (i := address) (by rw [htask]; exact hp)

/-- The counter counts, the cap holds, and no task lives at the null address.  The last keeps the
    counter from wrapping around. -/
structure Counted (cfg : BrokerConfig) (st : Sessions w) : Prop where
  counter : st.sessions.toNat = st.admitted + st.undoing
  cap : st.admitted ≤ cfg.maxClients
  null : ∀ address, address.val = 0 → st.tasks address = none

/-- Without tasks all numbers are zero. -/
theorem number_of_none (p : Phase → Bool) (hnone : ∀ address, st.tasks address = none) :
    st.number p = 0 :=
  count_eq_zero fun address => by rw [hnone address]; rfl

/-- The counter starts at the number of sessions, which is none. -/
theorem counted_new : Counted cfg (new : Sessions w) where
  counter := by
    rw [admitted, undoing, number_of_none _ fun _ => rfl, number_of_none _ fun _ => rfl]
    exact BitVec.toNat_zero
  cap := by
    rw [admitted, number_of_none _ fun _ => rfl]
    exact Nat.zero_le _
  null := fun _ _ => rfl

/-- **The counter has room**: a task that is not yet counted has an address, and no task has the
    null address. -/
theorem Counted.room (h : Counted cfg st) (htask : st.tasks address = some .spawned) :
    st.admitted + st.undoing + 1 < 2 ^ w := by
  have hlive : count Option.isSome st.tasks < 2 ^ w := by
    have hnull : st.tasks ⟨0, Nat.two_pow_pos w⟩ = none := h.null _ rfl
    have hlt := count_lt_card (p := Option.isSome) (f := st.tasks) (i := ⟨0, Nat.two_pow_pos w⟩)
      (by rw [hnull]; rfl)
    rwa [Fintype.card_fin] at hlt
  have hspawned : 0 < st.number Phase.uncounted := number_pos htask rfl
  -- every live task is admitted, undoing or uncounted, and only one of them
  have hparts : st.admitted + st.undoing + st.number Phase.uncounted
      = count Option.isSome st.tasks := by
    rw [admitted, undoing, number, number, number, ← count_or, ← count_or]
    · refine congrArg (fun p => count p st.tasks) (funext fun task => ?_)
      rcases task with _ | phase
      · rfl
      · cases phase <;> rfl
    · rintro (_ | phase)
      · rfl
      · cases phase <;> rfl
    · rintro (_ | phase)
      · rfl
      · cases phase <;> rfl
  omega

/-- A task past the cap or undoing its increment is counted, so taking one off the counter does
    not wrap around. -/
theorem Counted.pos (h : Counted cfg st) {phase : Phase} (htask : st.tasks address = some phase)
    (hphase : phase.decrements = true) : 0 < st.sessions.toNat := by
  rw [h.counter]
  cases phase with
  | rejected =>
    have hpos : 0 < st.undoing := number_pos htask rfl
    omega
  | leaving =>
    have hpos : 0 < st.admitted := number_pos htask rfl
    omega
  | _ => cases hphase

/-- One is one at any width but zero. -/
theorem toNat_one (h : 1 < 2 ^ w) : (1 : BitVec w).toNat = 1 := by
  show 1 % 2 ^ w = 1
  exact Nat.mod_eq_of_lt h

/-- `fetch_add(1)` that does not wrap around. -/
theorem toNat_fetchAdd {b : BitVec w} (h : b.toNat + 1 < 2 ^ w) : (b + 1).toNat = b.toNat + 1 := by
  rw [BitVec.toNat_add, toNat_one (by omega)]
  exact Nat.mod_eq_of_lt h

/-- `fetch_sub(1)` that does not wrap around. -/
theorem toNat_fetchSub {b : BitVec w} (h : 0 < b.toNat) : (b - 1).toNat = b.toNat - 1 := by
  have hlt := b.isLt
  have hone : (1 : BitVec w).toNat = 1 := toNat_one (by omega)
  have hle : (1 : BitVec w) ≤ b := by
    rw [BitVec.le_def, hone]
    exact h
  rw [BitVec.toNat_sub_of_le hle, hone]

/-- A task that is at no null address leaves that address free. -/
theorem null_setTask (hnull : ∀ address, address.val = 0 → st.tasks address = none)
    (hused : address.val ≠ 0) (task : Option Phase) (other : Fin (2 ^ w)) (hother : other.val = 0) :
    (st.setTask address task).tasks other = none := by
  have hne : other ≠ address := fun heq => hused (heq ▸ hother)
  show Function.update st.tasks address task other = none
  rw [Function.update_of_ne hne]
  exact hnull other hother

/-- A task changes in a way that the counter need not know of. -/
theorem Counted.uncounted (h : Counted cfg st) (hused : address.val ≠ 0) {task : Option Phase}
    (hadmitted : task.any Phase.admitted = (st.tasks address).any Phase.admitted)
    (hundoing : task.any Phase.undoing = (st.tasks address).any Phase.undoing) :
    Counted cfg (st.setTask address task) := by
  have hsame := number_setTask Phase.admitted st address task
  have hsame' := number_setTask Phase.undoing st address task
  rw [hadmitted] at hsame
  rw [hundoing] at hsame'
  refine ⟨?_, ?_, null_setTask h.null hused task⟩
  · show st.sessions.toNat = number Phase.admitted _ + number Phase.undoing _
    rw [Nat.add_right_cancel hsame, Nat.add_right_cancel hsame']
    exact h.counter
  · show number Phase.admitted _ ≤ _
    rw [Nat.add_right_cancel hsame]
    exact h.cap

/-- A counted task gives its place back. -/
theorem Counted.fetchSub (h : Counted cfg st) {phase : Phase}
    (htask : st.tasks address = some phase) (hphase : phase.decrements = true)
    (hused : address.val ≠ 0) :
    Counted cfg { st.setTask address none with sessions := st.sessions - 1 } := by
  have hcounter : st.sessions.toNat = st.number Phase.admitted + st.number Phase.undoing :=
    h.counter
  have hcap : st.number Phase.admitted ≤ cfg.maxClients := h.cap
  have hsub := toNat_fetchSub (h.pos htask hphase)
  have hadmitted := number_setTask Phase.admitted st address none
  have hundoing := number_setTask Phase.undoing st address none
  rw [htask] at hadmitted hundoing
  simp only [Option.any_none, Bool.toNat_false, Nat.add_zero] at hadmitted hundoing
  -- it was counted once
  have hone : ((some phase).any Phase.admitted).toNat
      + ((some phase).any Phase.undoing).toNat = 1 := by
    cases phase with
    | rejected => rfl
    | leaving => rfl
    | _ => cases hphase
  refine ⟨?_, ?_, null_setTask h.null hused none⟩
  · show (st.sessions - 1).toNat = (st.setTask address none).number Phase.admitted
      + (st.setTask address none).number Phase.undoing
    omega
  · show (st.setTask address none).number Phase.admitted ≤ cfg.maxClients
    omega

/-- A task counts itself, and goes past the cap only where it found room: the comparison is with
    what the counter was. -/
theorem Counted.fetchAdd (h : Counted cfg st) (htask : st.tasks address = some .spawned)
    (hused : address.val ≠ 0) {phase : Phase}
    (hone : phase.admitted.toNat + phase.undoing.toNat = 1)
    (hroom : phase.admitted = true → st.sessions.toNat < cfg.maxClients) :
    Counted cfg { st.setTask address (some phase) with sessions := st.sessions + 1 } := by
  have hcounter : st.sessions.toNat = st.number Phase.admitted + st.number Phase.undoing :=
    h.counter
  have hcap : st.number Phase.admitted ≤ cfg.maxClients := h.cap
  have hadd : (st.sessions + 1).toNat = st.sessions.toNat + 1 :=
    toNat_fetchAdd (h.counter ▸ h.room htask)
  have hnumber : ∀ p : Phase → Bool, (st.setTask address (some phase)).number p
      + (p .spawned).toNat = st.number p + (p phase).toNat := by
    intro p
    have hset := number_setTask p st address (some phase)
    rw [htask] at hset
    exact hset
  -- it was not counted before
  have hadmitted : (st.setTask address (some phase)).number Phase.admitted
      = st.number Phase.admitted + phase.admitted.toNat := hnumber Phase.admitted
  have hundoing : (st.setTask address (some phase)).number Phase.undoing
      = st.number Phase.undoing + phase.undoing.toNat := hnumber Phase.undoing
  refine ⟨?_, ?_, null_setTask h.null hused _⟩
  · show (st.sessions + 1).toNat = (st.setTask address (some phase)).number Phase.admitted
      + (st.setTask address (some phase)).number Phase.undoing
    omega
  · show (st.setTask address (some phase)).number Phase.admitted ≤ cfg.maxClients
    by_cases hpast : phase.admitted = true
    · have hfree := hroom hpast
      rw [hadmitted, hpast, Bool.toNat_true]
      omega
    · rw [hadmitted, Bool.not_eq_true _ |>.mp hpast, Bool.toNat_false]
      exact hcap

/-- **One step** of the runtime, one case for each phase of the task that takes its turn. -/
theorem Counted.step (h : Counted cfg st) (turn : Turn w) : Counted cfg (st.step cfg turn) := by
  cases turn with
  | accept address =>
    rw [Sessions.step]
    by_cases hfree : address.val = 0 ∨ (st.tasks address).isSome
    · rw [if_pos hfree]
      exact h
    · rw [if_neg hfree]
      obtain ⟨hused, hnone⟩ := not_or.mp hfree
      rw [Bool.not_eq_true, Option.isSome_eq_false_iff, Option.isNone_iff_eq_none] at hnone
      exact h.uncounted hused (by rw [hnone]; rfl) (by rw [hnone]; rfl)
  | poll address progress =>
    rw [Sessions.step]
    have hused : ∀ phase, st.tasks address = some phase → address.val ≠ 0 := by
      intro phase htask hzero
      rw [h.null address hzero] at htask
      cases htask
    rcases htask : st.tasks address with _ | phase
    · exact h
    · have haddress := hused phase htask
      cases phase with
      | spawned =>
        dsimp only
        by_cases habandoned : progress = .abandoned
        · rw [if_pos habandoned]
          exact h.uncounted haddress (by rw [htask]; rfl) (by rw [htask]; rfl)
        · rw [if_neg habandoned]
          by_cases hfull : st.sessions.toNat ≥ cfg.maxClients
          · rw [if_pos hfull]
            exact h.fetchAdd htask haddress rfl fun hpast => by cases hpast
          · rw [if_neg hfull]
            exact h.fetchAdd htask haddress rfl fun _ => not_le.mp hfull
      | rejected => exact h.fetchSub htask rfl haddress
      | serving stage =>
        obtain ⟨hadmitted, hundoing⟩ := Stage.counted_after stage progress
        exact h.uncounted haddress (by rw [htask]; exact hadmitted) (by rw [htask]; exact hundoing)
      | leaving => exact h.fetchSub htask rfl haddress

/-! ### Every run -/

/-- The state after a schedule, from a broker that has just started. -/
def after (cfg : BrokerConfig) (schedule : List (Turn w)) : Sessions w :=
  Runs.run (Sessions.step cfg) new schedule

/-- The counter is right after every schedule, by induction on its turns. -/
theorem counted_after (cfg : BrokerConfig) (schedule : List (Turn w)) :
    Counted cfg (after cfg schedule) := by
  have hstep : ∀ (st : Sessions w) turn, Counted cfg st → Counted cfg (st.step cfg turn) :=
    fun _ turn h => h.step turn
  exact Runs.run_invariant hstep counted_new schedule

end Sessions

/-- **The session cap holds and never leaks.**  Whatever the order of the tasks' steps: at most
    `max_clients` connections are past the cap and not yet finished; the counter is their number
    and that of the rejected ones still to undo their increment; no decrement finds it at zero; and
    without live tasks it is zero. -/
theorem sessionCap_holds (w : Nat) (cfg : BrokerConfig) (schedule : List (Turn w)) :
    (Sessions.after cfg schedule).admitted ≤ cfg.maxClients ∧
    (Sessions.after cfg schedule).sessions.toNat
      = (Sessions.after cfg schedule).admitted + (Sessions.after cfg schedule).undoing ∧
    (∀ address phase, (Sessions.after cfg schedule).tasks address = some phase →
      phase.decrements = true → 0 < (Sessions.after cfg schedule).sessions.toNat) ∧
    ((∀ address, (Sessions.after cfg schedule).tasks address = none) →
      (Sessions.after cfg schedule).sessions = 0) := by
  have hcounted := Sessions.counted_after cfg schedule
  refine ⟨hcounted.cap, hcounted.counter,
    fun address phase htask hphase => hcounted.pos htask hphase, fun hended => ?_⟩
  have hnone : ∀ p, (Sessions.after cfg schedule).number p = 0 :=
    fun p => Sessions.number_of_none p hended
  refine BitVec.eq_of_toNat_eq ?_
  rw [hcounted.counter, Sessions.admitted, Sessions.undoing, hnone, hnone]
  exact BitVec.toNat_zero.symm

end Precall.Broker
