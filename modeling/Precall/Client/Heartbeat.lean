import Precall.Broker.Admission
import Precall.Lib.Runs
import Precall.Lib.Timers

namespace Precall.Client

open TimerLib Precall.Proto Precall.Broker

/-!
# Heartbeats of an idle client

A session in which the client only sends its heartbeats: the `select!` of `run`
(`precall-client/src/run.rs`) with nothing to capture and no audio, and the one of `handle_conn`
(`precall-broker/src/ingest.rs`).  The broker advertises its interval `h`; the client beats every
`max(h, 5000)` milliseconds, the broker looks every `2 h` and drops a client that was silent for
more than `4 h`.

Neither the network nor a scheduler delays anything.  Time is counted from the start of the
broker's loop, in units of which `resolution` make a millisecond; the first heartbeat after that
comes within one period, at `offset`.  A frame and a tick that are due at the same instant are
handled in either order.

* `IdleSession.step` — one instant; `Beating` — what every instant keeps;
* `undropped_iff_offset` — for which alignments of the timers the client is never dropped;
* `idle_undropped_iff` — it never is, in any alignment, exactly from 1250 milliseconds on.
-/

/-! ### The two loops -/

/-- `hb_tick` of `run`, in milliseconds: the interval the broker advertises, but no less than
    five seconds. -/
def hbTickMs (hello : ServerHello) : Nat := max hello.heartbeatIntervalMs.toNat 5000

/-- `hb_interval` of `handle_conn`, in milliseconds: how often the broker looks, every two
    intervals. -/
def hbIntervalMs (cfg : BrokerConfig) : Nat := cfg.heartbeatIntervalMs.toNat * 2

/-- How long a client may be silent, in milliseconds: four intervals as the broker is configured. -/
def silenceMs (cfg : BrokerConfig) : Nat := cfg.heartbeatIntervalMs.toNat * 4

/-- The session at an instant: the client's timer and the broker's, when the broker last heard of
    the client, and whether it dropped the session. -/
structure IdleSession where
  now : Nat
  hbTick : Timer
  hbInterval : Timer
  lastSeen : Nat
  dropped : Bool
  deriving DecidableEq, Repr

namespace IdleSession

/-- The start of the broker's loop; its first tick is due at once, the client's first heartbeat
    at `offset`. -/
def start (v : Visit) (hello : ClientHello) (resolution offset : Nat) : IdleSession where
  now := 0
  hbTick := { next := offset, period := resolution * hbTickMs (v.serverHello hello) }
  hbInterval := { next := 0, period := resolution * hbIntervalMs v.cfg }
  lastSeen := 0
  dropped := false

/-- The branch `source.next()`: a heartbeat that is sent now arrives now. -/
def sourceNext (st : IdleSession) : IdleSession :=
  if st.hbTick.next = st.now then { st with hbTick := st.hbTick.fire, lastSeen := st.now } else st

/-- The branch `hb_interval.tick()`. -/
def tick (silence : Nat) (st : IdleSession) : IdleSession :=
  if st.hbInterval.next = st.now then
    { st with
      hbInterval := st.hbInterval.fire
      dropped := st.dropped || decide (silence < st.now - st.lastSeen) }
  else st

/-- One instant; `tickFirst` says which branch is taken first when both are ready. -/
def step (silence : Nat) (st : IdleSession) (tickFirst : Bool) : IdleSession :=
  let st := if tickFirst then (st.tick silence).sourceNext else st.sourceNext.tick silence
  { st with now := st.now + 1 }

/-! ### One instant -/

/-- What `last_seen` is when the tick of an instant is handled. -/
def seenBy (st : IdleSession) (tickFirst : Bool) : Nat :=
  if st.hbTick.next = st.now ∧ tickFirst = false then st.now else st.lastSeen

/-- The order of the branches matters to the timeout only: both timers fire when they are due. -/
theorem step_eq (silence : Nat) (st : IdleSession) (tickFirst : Bool) :
    st.step silence tickFirst =
      { now := st.now + 1
        hbTick := if st.hbTick.next = st.now then st.hbTick.fire else st.hbTick
        hbInterval := if st.hbInterval.next = st.now then st.hbInterval.fire else st.hbInterval
        lastSeen := if st.hbTick.next = st.now then st.now else st.lastSeen
        dropped := st.dropped ||
          decide (st.hbInterval.next = st.now ∧ silence < st.now - st.seenBy tickFirst) } := by
  unfold step tick sourceNext seenBy
  cases tickFirst <;> by_cases hbeat : st.hbTick.next = st.now <;>
    by_cases hlook : st.hbInterval.next = st.now <;> simp [hbeat, hlook]

/-- Before an instant: the broker looked `looks` times and heard `beats` heartbeats, as often as
    the timers were due until then. -/
structure Beating (check beat offset looks beats : Nat) (st : IdleSession) : Prop where
  hbInterval : st.hbInterval.OnTime 0 check looks st.now
  hbTick : st.hbTick.OnTime offset beat beats st.now
  seen : (beats = 0 ∧ st.lastSeen = 0) ∨
    ∃ before, beats = before + 1 ∧ st.lastSeen = offset + beat * before

variable {check beat offset looks beats silence : Nat} {st : IdleSession}

/-- The step lemma: after a heartbeat and a look the two clocks are where their counts say. -/
theorem Beating.step (h : Beating check beat offset looks beats st) (silence : Nat)
    (tickFirst : Bool) :
    ∃ looks beats, Beating check beat offset looks beats (st.step silence tickFirst) := by
  obtain ⟨looks', hlooks, -⟩ := h.hbInterval.tick
  obtain ⟨beats', hbeats, hcount⟩ := h.hbTick.tick
  rw [step_eq]
  refine ⟨looks', beats', hlooks, hbeats, ?_⟩
  show (beats' = 0 ∧ (if st.hbTick.next = st.now then st.now else st.lastSeen) = 0) ∨
    ∃ before, beats' = before + 1 ∧
      (if st.hbTick.next = st.now then st.now else st.lastSeen) = offset + beat * before
  by_cases hdue : st.hbTick.next = st.now
  · rw [if_pos hdue] at hcount ⊢
    exact Or.inr ⟨beats, hcount, hdue.symm.trans h.hbTick.next⟩
  · rw [if_neg hdue] at hcount ⊢
    exact hcount ▸ h.seen

/-- **At a look**, the client was silent for at most the longest wait, which the greatest common
    divisor of the two periods decides. -/
theorem Beating.elapsed (h : Beating check beat offset looks beats st) (tickFirst : Bool)
    (hoffset : offset < beat) (hdue : st.hbInterval.next = st.now) :
    st.now - st.seenBy tickFirst ≤ beat - offset % Nat.gcd check beat := by
  have hlook : st.now = check * looks := by
    rw [← hdue, h.hbInterval.next, Nat.zero_add]
  have hbeat_le := h.hbTick.now_le
  rw [h.hbTick.next] at hbeat_le
  unfold seenBy
  split
  · rw [Nat.sub_self]
    exact Nat.zero_le _
  · rcases h.seen with ⟨hnone, hzero⟩ | ⟨before, hbeats, hseen⟩
    · rw [hzero, Nat.sub_zero, hlook]
      refine elapsed_le_of_none hoffset ?_
      rw [hnone, Nat.mul_zero, Nat.add_zero] at hbeat_le
      exact hlook ▸ hbeat_le
    · rw [hseen, hlook]
      refine elapsed_le ?_
      rw [hbeats, Nat.mul_succ] at hbeat_le
      omega

/-! ### Every run -/

/-- A step takes one unit of time. -/
theorem now_run (silence : Nat) (st : IdleSession) (orders : List Bool) :
    (Runs.run (step silence) st orders).now = st.now + orders.length := by
  induction orders generalizing st with
  | nil => rfl
  | cons tickFirst orders ih =>
    rw [Runs.run_cons, ih, step_eq, List.length_cons]
    show st.now + 1 + orders.length = _
    omega

/-- And the run lemma, by induction on the orders in which the two tasks are scheduled. -/
theorem Beating.run (h : Beating check beat offset looks beats st) (silence : Nat)
    (orders : List Bool) :
    ∃ looks beats, Beating check beat offset looks beats
      (Runs.run (IdleSession.step silence) st orders) := by
  refine Runs.run_invariant (I := fun st => ∃ looks beats, Beating check beat offset looks beats st)
    (fun st tickFirst ⟨looks, beats, h⟩ => ?_) ⟨looks, beats, h⟩ orders
  exact h.step silence tickFirst

/-- A broker that allows for the longest wait never drops the client, in whatever order the
    branches are taken. -/
theorem Beating.undropped (h : Beating check beat offset looks beats st)
    (hoffset : offset < beat) (hopen : st.dropped = false)
    (hsilence : beat - offset % Nat.gcd check beat ≤ silence) (orders : List Bool) :
    (Runs.run (IdleSession.step silence) st orders).dropped = false := by
  have hstep : ∀ (st : IdleSession) tickFirst,
      ((∃ looks beats, Beating check beat offset looks beats st) ∧ st.dropped = false) →
      (∃ looks beats, Beating check beat offset looks beats (st.step silence tickFirst)) ∧
        (st.step silence tickFirst).dropped = false := by
    rintro st tickFirst ⟨⟨looks, beats, h⟩, hopen⟩
    refine ⟨h.step silence tickFirst, ?_⟩
    rw [step_eq]
    show (st.dropped || decide _) = false
    rw [hopen, Bool.false_or, decide_eq_false_iff_not]
    rintro ⟨hdue, hlong⟩
    exact absurd (h.elapsed tickFirst hoffset hdue) (by omega)
  exact (Runs.run_invariant hstep ⟨⟨looks, beats, h⟩, hopen⟩ orders).2

/-- A broker that does not drops the client, at the latest when it looks after the longest wait. -/
theorem Beating.dropped (h : Beating check beat offset looks beats st) (hnow : st.now = 0)
    (hcheck : 0 < check) (hoffset : offset < beat)
    (hsilence : silence < beat - offset % Nat.gcd check beat) :
    ∃ orders, (Runs.run (IdleSession.step silence) st orders).dropped = true := by
  obtain ⟨j, k, hlong⟩ := exists_elapsed hcheck hoffset
  have hmod : offset % Nat.gcd check beat < beat :=
    (Nat.mod_le offset (Nat.gcd check beat)).trans_lt hoffset
  -- the tick first, whenever both are ready, up to that look
  refine ⟨List.replicate (check * j) true ++ [true], ?_⟩
  rw [Runs.run_append]
  obtain ⟨looks', beats', hthen⟩ := h.run silence (List.replicate (check * j) true)
  have hclock := now_run silence st (List.replicate (check * j) true)
  generalize Runs.run (IdleSession.step silence) st (List.replicate (check * j) true) = late
    at hthen hclock ⊢
  rw [hnow, Nat.zero_add, List.length_replicate] at hclock
  -- the broker looks at this very instant
  have hlook : looks' = j := hthen.hbInterval.times_eq (by omega) (by omega)
  -- the last heartbeat before the look is that one
  have hheard : beats' = k + 1 := by
    refine hthen.hbTick.times_eq ?_ ?_ <;>
    · rw [Nat.mul_succ]
      omega
  have hseen : late.lastSeen = offset + beat * k := by
    rcases hthen.seen with ⟨hnone, -⟩ | ⟨before, hbeats, hseen⟩
    · omega
    · obtain rfl : k = before := by omega
      exact hseen
  show (IdleSession.step silence late true).dropped = true
  rw [step_eq]
  show (late.dropped || decide _) = true
  have hdue : late.hbInterval.next = late.now := by
    rw [hthen.hbInterval.next, hlook, hclock, Nat.zero_add]
  have hwait : silence < late.now - late.seenBy true := by
    unfold seenBy
    rw [if_neg (fun h => by cases h.2), hseen, hclock]
    omega
  rw [decide_eq_true ⟨hdue, hwait⟩, Bool.or_true]

/-- An idle session after some instants, with the order of the branches at each. -/
def after (v : Visit) (hello : ClientHello) (resolution offset : Nat) (orders : List Bool) :
    IdleSession :=
  Runs.run (step (resolution * silenceMs v.cfg)) (start v hello resolution offset) orders

/-- A session that begins beats from its first heartbeat on. -/
theorem beating_start (v : Visit) (hello : ClientHello) {resolution offset : Nat}
    (hcheck : 0 < resolution * hbIntervalMs v.cfg)
    (hoffset : offset < resolution * hbTickMs (v.serverHello hello)) :
    Beating (resolution * hbIntervalMs v.cfg) (resolution * hbTickMs (v.serverHello hello)) offset
      0 0 (start v hello resolution offset) where
  hbInterval := Timer.OnTime.begin hcheck
  hbTick := Timer.OnTime.begin hoffset
  seen := Or.inl ⟨rfl, rfl⟩

end IdleSession

open IdleSession

/-- **Which alignments are safe.**  With the heartbeats `offset` after the broker's ticks the client
    is never dropped, whichever branch comes first, exactly if the longest wait that the two
    periods allow is no longer than the broker's patience. -/
theorem undropped_iff_offset (v : Visit) (hello : ClientHello) {resolution offset : Nat}
    (hres : 0 < resolution) (hpos : 0 < v.cfg.heartbeatIntervalMs.toNat)
    (hoffset : offset < resolution * hbTickMs (v.serverHello hello)) :
    (∀ orders, (after v hello resolution offset orders).dropped = false) ↔
      resolution * hbTickMs (v.serverHello hello)
          - offset % Nat.gcd (resolution * hbIntervalMs v.cfg)
              (resolution * hbTickMs (v.serverHello hello))
        ≤ resolution * silenceMs v.cfg := by
  have hcheck : 0 < resolution * hbIntervalMs v.cfg :=
    Nat.mul_pos hres (Nat.mul_pos hpos (by omega))
  have hbegin := beating_start v hello hcheck hoffset
  constructor
  · intro hnever
    by_contra hlong
    obtain ⟨orders, hdropped⟩ := hbegin.dropped rfl hcheck hoffset (not_le.mp hlong)
    exact Bool.false_ne_true ((hnever orders).symm.trans hdropped)
  · intro hshort orders
    exact hbegin.undropped hoffset rfl hshort orders

/-- **When an idle client is never dropped.**  In any alignment of the two timers, exactly if the
    advertised interval is at least 1250 milliseconds.  In a single alignment, exactly if the
    longest wait that the periods allow in it is no longer than the broker's patience. -/
theorem idle_undropped_iff (v : Visit) (hello : ClientHello) {resolution : Nat}
    (hres : 0 < resolution) (hpos : 0 < v.cfg.heartbeatIntervalMs.toNat) :
    ((∀ offset < resolution * hbTickMs (v.serverHello hello), ∀ orders,
        (after v hello resolution offset orders).dropped = false) ↔
      1250 ≤ v.cfg.heartbeatIntervalMs.toNat) ∧
    ∀ offset < resolution * hbTickMs (v.serverHello hello),
      ((∀ orders, (after v hello resolution offset orders).dropped = false) ↔
        resolution * hbTickMs (v.serverHello hello)
            - offset % Nat.gcd (resolution * hbIntervalMs v.cfg)
                (resolution * hbTickMs (v.serverHello hello))
          ≤ resolution * silenceMs v.cfg) := by
  have hmillis : resolution * hbTickMs (v.serverHello hello) ≤ resolution * silenceMs v.cfg ↔
      1250 ≤ v.cfg.heartbeatIntervalMs.toNat := by
    rw [Nat.mul_le_mul_left_iff hres]
    show max v.cfg.heartbeatIntervalMs.toNat 5000 ≤ v.cfg.heartbeatIntervalMs.toNat * 4 ↔ _
    omega
  refine ⟨?_, fun offset hoffset => undropped_iff_offset v hello hres hpos hoffset⟩
  rw [← hmillis]
  constructor
  · intro hnever
    -- timers that start together wait longest
    have htogether : 0 < resolution * hbTickMs (v.serverHello hello) :=
      Nat.mul_pos hres (Nat.lt_of_lt_of_le (by omega) (Nat.le_max_right _ 5000))
    have hlong := (undropped_iff_offset v hello hres hpos htogether).mp (hnever 0 htogether)
    rwa [Nat.zero_mod, Nat.sub_zero] at hlong
  · intro hshort offset hoffset
    exact (undropped_iff_offset v hello hres hpos hoffset).mpr ((Nat.sub_le _ _).trans hshort)

/-! ### Two intervals -/

/-- A visit to a broker that advertises an interval. -/
def visitAt (heartbeatIntervalMs : UInt32) : Visit :=
  { strictVisit with cfg := { strictVisit.cfg with heartbeatIntervalMs := heartbeatIntervalMs } }

/-- With the interval of `precall-broker serve`, and the timers apart: 100 seconds without a
    frame. -/
theorem idle_undropped_default :
    (after (visitAt 30000) enrolledHello 1 29999 (List.replicate 100000 true)).dropped = false :=
  (idle_undropped_iff (visitAt 30000) enrolledHello (by decide) (by decide)).1.mpr (by decide)
    29999 (by decide) (List.replicate 100000 true)

/-- **With an interval of one second an idle client can be dropped.**  The broker looks every 2000
    milliseconds; the client beats after 1999, and then every 5000.  When the broker looks after
    6000, it was silent for 4001. -/
theorem idle_dropped :
    ¬ ∀ orders, (after (visitAt 1000) enrolledHello 1 1999 orders).dropped = false := by
  rw [undropped_iff_offset (visitAt 1000) enrolledHello (by decide) (by decide) (by decide)]
  decide +kernel

example : (after (visitAt 1) enrolledHello 1 1 (List.replicate 7 false)).dropped = true := by
  decide +kernel

end Precall.Client
