import Mathlib.Data.List.Pairwise
import Mathlib.Data.List.Infix
import Mathlib.Algebra.Order.Ring.Int

namespace FairQueue

/-!
# Paced queues

Several queues over one set of items, served in passes.  Every item has a clock, the time of its
last attempt; an item that was never attempted has none.  A pass selects from each queue the
waiting items whose clock is at least a *backoff* old, the longest untouched first, and works off
some prefix of each selection; working an item sets its clock to the time of the pass.

* `mem_prefix_of_not_le` — a prefix of a sorted list that holds an element holds everything that
  sorts strictly before it;
* `Pass.Fair` — what a pass does to the clock it finds: it attempts only rested items, each once,
  and none before a waiting one that was touched longer ago;
* `fair_spaced` — over a run of fair passes, attempts on one item are a backoff apart;
* `no_overtaking` — over a run of fair passes, an item that was rested when another was attempted
  is attempted itself before the other's turn comes round again in a queue where it waits.
-/

/-! ### Sorted lists -/

/-- A prefix of a sorted list is closed towards the front: who does not come after an element
    that was taken was taken too. -/
theorem mem_prefix_of_not_le {α : Type} {le : α → α → Prop} {taken sorted : List α}
    (hsorted : sorted.Pairwise le) (htaken : taken <+: sorted) {c d : α} (hd : d ∈ taken)
    (hc : c ∈ sorted) (hnot : ¬ le d c) : c ∈ taken := by
  obtain ⟨rest, rfl⟩ := htaken
  rcases List.mem_append.mp hc with h | h
  · exact h
  · exact absurd ((List.pairwise_append.mp hsorted).2.2 d hd c h) hnot

/-! ### Passes -/

/-- The time of an item's last attempt.  An item that was never attempted has none. -/
abbrev Clock (α : Type) := α → Option Int

/-- The last attempt, if there was one, is at least a backoff old.  Only items that have rested
    may be attempted. -/
def Rested {α : Type} (backoff : Int) (clock : Clock α) (now : Int) (x : α) : Prop :=
  ∀ u, clock x = some u → u ≤ now - backoff

/-- The key a queue sorts by; an item never attempted sorts as if touched at zero. -/
def stamp {α : Type} (clock : Clock α) (x : α) : Int := (clock x).getD 0

/-- One pass over the queues `ι`: its time, who waits in each queue when it is read, and what was
    attempted from which queue, in order. -/
structure Pass (ι α : Type) where
  time : Int
  waiting : ι → α → Prop
  attempts : List (ι × α)

variable {ι α : Type}

namespace Pass

/-- The pass attempts an item, from whatever queue.  The clock does not ask which. -/
def Attempts (P : Pass ι α) (x : α) : Prop := ∃ i, (i, x) ∈ P.attempts

open Classical in
/-- The clock a pass leaves: its own time on everything it attempted, and the old time on the
    rest. -/
noncomputable def next (P : Pass ι α) (clock : Clock α) : Clock α :=
  fun x => if P.Attempts x then some P.time else clock x

/-- A pass sets the clock of what it attempts to its own time. -/
theorem next_of_attempts {P : Pass ι α} {clock : Clock α} {x : α} (h : P.Attempts x) :
    P.next clock x = some P.time := if_pos h

/-- All other clocks go on showing the last attempt. -/
theorem next_of_not_attempts {P : Pass ι α} {clock : Clock α} {x : α} (h : ¬ P.Attempts x) :
    P.next clock x = clock x := if_neg h

/-- What a pass over paced queues does: it attempts only rested items, none of them twice, and
    passes over no waiting one for one with a later stamp. -/
structure Fair (backoff : Int) (clock : Clock α) (P : Pass ι α) : Prop where
  rested : ∀ i x, (i, x) ∈ P.attempts → Rested backoff clock P.time x
  inOrder : ∀ i c d, (i, d) ∈ P.attempts → P.waiting i c → stamp clock c < stamp clock d →
    (i, c) ∈ P.attempts
  once : (P.attempts.map Prod.snd).Nodup

end Pass

/-! ### Runs -/

/-- The clock before pass `k` of a run, which is what the passes before it have left. -/
noncomputable def clockAt (clock : Clock α) (passes : List (Pass ι α)) (k : Nat) : Clock α :=
  (passes.take k).foldl (fun clock P => P.next clock) clock

/-- Every pass of a run is fair to the clock it finds.  Between passes nothing touches the clock. -/
def FairRun (backoff : Int) (clock : Clock α) (passes : List (Pass ι α)) : Prop :=
  ∀ k (hk : k < passes.length), (passes[k]).Fair backoff (clockAt clock passes k)

/-- Passes take place one after the other, and their times do not go back. -/
def Ordered (passes : List (Pass ι α)) : Prop := passes.Pairwise fun P Q => P.time ≤ Q.time

variable {clock : Clock α} {passes : List (Pass ι α)}

/-- The clock after one more pass, from the clock before it.  Inductions over a run step by this. -/
theorem clockAt_succ {k : Nat} (hk : k < passes.length) :
    clockAt clock passes (k + 1) = (passes[k]).next (clockAt clock passes k) := by
  unfold clockAt
  rw [List.take_succ_eq_append_getElem hk, List.foldl_append]
  rfl

/-- Passes that take place in order are in order at any distance, not only next to each other. -/
theorem Ordered.le (h : Ordered passes) {p q : Nat} (hp : p < passes.length)
    (hq : q < passes.length) (hpq : p ≤ q) : (passes[p]).time ≤ (passes[q]).time := by
  rcases Nat.eq_or_lt_of_le hpq with rfl | hlt
  · exact le_refl _
  · exact List.pairwise_iff_getElem.mp h p q hp hq hlt

/-- The clock of an item stands still while nobody attempts it, over any stretch of a run. -/
theorem clockAt_eq_of_untouched (clock : Clock α) {p q : Nat} {x : α} (hpq : p ≤ q)
    (hq : q ≤ passes.length)
    (hun : ∀ k (hk : k < passes.length), p ≤ k → k < q → ¬ (passes[k]).Attempts x) :
    clockAt clock passes q x = clockAt clock passes p x := by
  induction q, hpq using Nat.le_induction with
  | base => rfl
  | succ q hpq ih =>
    rw [clockAt_succ (Nat.lt_of_succ_le hq),
      Pass.next_of_not_attempts (hun q hq hpq (Nat.lt_succ_self q))]
    exact ih (Nat.le_of_succ_le hq) fun k hk hpk hkq => hun k hk hpk (Nat.lt_succ_of_lt hkq)

/-- Once attempted, an item's clock never reads an earlier time again, since the passes that may
    set it come later. -/
theorem le_clockAt_of_attempts (clock : Clock α) (hord : Ordered passes) {p q : Nat} {x : α}
    (hp : p < passes.length) (hx : (passes[p]).Attempts x) (hpq : p < q)
    (hq : q ≤ passes.length) :
    ∃ u, clockAt clock passes q x = some u ∧ (passes[p]).time ≤ u := by
  induction q, (hpq : p + 1 ≤ q) using Nat.le_induction with
  | base =>
    rw [clockAt_succ hp, Pass.next_of_attempts hx]
    exact ⟨_, rfl, le_refl _⟩
  | succ q hpq ih =>
    have hlt : q < passes.length := Nat.lt_of_succ_le hq
    rw [clockAt_succ hlt]
    by_cases hagain : (passes[q]).Attempts x
    · rw [Pass.next_of_attempts hagain]
      exact ⟨_, rfl, hord.le hp hlt (Nat.le_of_succ_le hpq)⟩
    · rw [Pass.next_of_not_attempts hagain]
      exact ih (Nat.le_of_lt hlt)

/-! ### Fairness -/

variable {backoff : Int}

/-- Two passes that attempt one item are a backoff apart: the later one found it rested since the
    earlier. -/
theorem FairRun.backoff_le (hfair : FairRun backoff clock passes) (hord : Ordered passes)
    {p q : Nat} (hp : p < passes.length) (hq : q < passes.length) (hpq : p < q) {x : α}
    (hfirst : (passes[p]).Attempts x) (hx : (passes[q]).Attempts x) :
    (passes[p]).time + backoff ≤ (passes[q]).time := by
  obtain ⟨u, hclock, hle⟩ := le_clockAt_of_attempts clock hord hp hfirst hpq (Nat.le_of_lt hq)
  obtain ⟨i, hi⟩ := hx
  have hrested : u ≤ (passes[q]).time - backoff := (hfair q hq).rested i x hi u hclock
  omega

/-- The attempts of a pass, with its time.  Over a run they are the attempts that were ever made. -/
def Pass.stamped (P : Pass ι α) : List (α × Int) := P.attempts.map fun a => (a.2, P.time)

/-- **Attempts are paced.**  Over a run of fair passes, two attempts on one item are at least the
    backoff apart. -/
theorem fair_spaced (hfair : FairRun backoff clock passes) (hord : Ordered passes) :
    (passes.flatMap Pass.stamped).Pairwise fun a b => a.1 = b.1 → a.2 + backoff ≤ b.2 := by
  rw [List.pairwise_flatMap]
  refine ⟨fun P hP => ?_, ?_⟩
  · -- within a pass no item is attempted twice
    obtain ⟨k, hk, rfl⟩ := List.getElem_of_mem hP
    rw [Pass.stamped, List.pairwise_map]
    have honce := (hfair k hk).once
    rw [List.Nodup, List.pairwise_map] at honce
    exact honce.imp fun hne heq => absurd heq hne
  · rw [List.pairwise_iff_getElem]
    intro p q hp hq hpq a ha b hb heq
    obtain ⟨⟨i, x⟩, hx, rfl⟩ := List.mem_map.mp ha
    obtain ⟨⟨j, y⟩, hy, rfl⟩ := List.mem_map.mp hb
    obtain rfl : x = y := heq
    exact hfair.backoff_le hord hp hq hpq ⟨i, hx⟩ ⟨j, hy⟩

/-- **No overtaking.**  If `d` is attempted in pass `p`, when the clock of `c` is a backoff old,
    and again in a later pass `q` from a queue in which `c` waits, then `c` is attempted in some
    pass from `p` to `q`. -/
theorem no_overtaking (hfair : FairRun backoff clock passes) (hord : Ordered passes)
    (hbackoff : 0 < backoff) {p q : Nat} (hp : p < passes.length) (hq : q < passes.length)
    (hpq : p < q) (hpos : 0 < (passes[p]).time) {c d : α} {i : ι}
    (hfirst : (passes[p]).Attempts d)
    (hrested : Rested backoff (clockAt clock passes p) (passes[p]).time c)
    (hd : (i, d) ∈ (passes[q]).attempts) (hwait : (passes[q]).waiting i c) :
    ∃ k, ∃ hk : k < passes.length, p ≤ k ∧ k ≤ q ∧ (passes[k]).Attempts c := by
  by_contra hnone
  push Not at hnone
  have hun : ∀ k (hk : k < passes.length), p ≤ k → k < q → ¬ (passes[k]).Attempts c :=
    fun k hk hpk hkq => hnone k hk hpk (Nat.le_of_lt hkq)
  -- the clock of `c` is that of pass `p`, older than the attempt on `d` in that pass
  have hsame := clockAt_eq_of_untouched clock (Nat.le_of_lt hpq) (Nat.le_of_lt hq) hun
  obtain ⟨u, hclock, hle⟩ := le_clockAt_of_attempts clock hord hp hfirst hpq (Nat.le_of_lt hq)
  have hold : stamp (clockAt clock passes q) c < u := by
    unfold stamp
    rw [hsame]
    cases hc : clockAt clock passes p c with
    | none => exact lt_of_lt_of_le hpos hle
    | some w =>
      have hw : w ≤ _ := hrested w hc
      show w < u
      omega
  have hlt : stamp (clockAt clock passes q) c < stamp (clockAt clock passes q) d := by
    rw [show stamp (clockAt clock passes q) d = u by rw [stamp, hclock]; rfl]
    exact hold
  exact hnone q hq (Nat.le_of_lt hpq) (le_refl q)
    ⟨i, (hfair q hq).inOrder i c d hd hwait hlt⟩

end FairQueue
