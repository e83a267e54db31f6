import Mathlib.Data.Int.GCD
import Mathlib.Tactic.Ring

namespace TimerLib

/-!
# Two periodic timers

One timer fires at `0`, `check`, `2 · check`, …, the other at `offset`, `offset + beat`, ….  How
long ago can the second have fired when the first does?  With `g` the greatest common divisor of
the periods, at most `beat - offset % g` (`elapsed_le`), and sometimes exactly that
(`exists_elapsed`), unless the second fires at the same instant and is counted.

* `Timer`, `Timer.fire` — a timer by its next instant and its period;
* `Timer.OnTime` — it fired whenever it was due, and it still does an instant later.
-/

/-- A periodic timer: when it fires next, and its period. -/
structure Timer where
  next : Nat
  period : Nat
  deriving DecidableEq, Repr

/-- The timer fires, and is due a period after it was due. -/
def Timer.fire (t : Timer) : Timer := { t with next := t.next + t.period }

/-- A timer that has fired some times already. -/
def Timer.fired (start period times : Nat) : Timer where
  next := start + period * times
  period := period

/-- Firing once more is firing one time more. -/
theorem Timer.fire_fired (start period times : Nat) :
    (Timer.fired start period times).fire = Timer.fired start period (times + 1) := by
  rw [fire, fired, fired, Nat.mul_succ, Nat.add_assoc]

/-- A timer that fired whenever it was due before `now`, `times` times so far. -/
structure Timer.OnTime (start period times now : Nat) (t : Timer) : Prop where
  eq_fired : t = Timer.fired start period times
  now_le : now ≤ t.next
  next_lt : t.next < now + period

/-- A timer that has just been made is on time, at time zero and with no firings. -/
theorem Timer.OnTime.begin {start period : Nat} (h : start < period) :
    (Timer.mk start period).OnTime start period 0 0 where
  eq_fired := rfl
  now_le := Nat.zero_le start
  next_lt := by
    rw [Nat.zero_add]
    exact h

/-- **An instant later.** -/
theorem Timer.OnTime.tick {start period times now : Nat} {t : Timer}
    (h : t.OnTime start period times now) :
    ∃ times', (if t.next = now then t.fire else t).OnTime start period times' (now + 1) ∧
      times' = if t.next = now then times + 1 else times := by
  obtain ⟨rfl, hle, hlt⟩ := h
  by_cases hdue : (Timer.fired start period times).next = now
  · rw [if_pos hdue, if_pos hdue, Timer.fire_fired]
    have hnext : (Timer.fired start period (times + 1)).next = now + period := by
      rw [← Timer.fire_fired, ← hdue]
      rfl
    exact ⟨_, ⟨rfl, by omega, by omega⟩, rfl⟩
  · rw [if_neg hdue, if_neg hdue]
    exact ⟨_, ⟨rfl, by omega, by omega⟩, rfl⟩

/-- A timer that is on time is due a whole number of periods after its start. -/
theorem Timer.OnTime.next {start period times now : Nat} {t : Timer}
    (h : t.OnTime start period times now) : t.next = start + period * times := by
  rw [h.eq_fired]
  rfl

/-- How often a timer fired by now is told by when it is due next. -/
theorem Timer.OnTime.times_eq {start period times now n : Nat} {t : Timer}
    (h : t.OnTime start period times now) (hle : now ≤ start + period * n)
    (hlt : start + period * n < now + period) : times = n := by
  have hnow := h.now_le
  have hnext := h.next_lt
  rw [h.next] at hnow hnext
  -- both instants lie in the period that starts now
  have hless : times < n + 1 := Nat.lt_of_mul_lt_mul_left (a := period) (by
    rw [Nat.mul_succ]
    omega)
  have hmore : n < times + 1 := Nat.lt_of_mul_lt_mul_left (a := period) (by
    rw [Nat.mul_succ]
    omega)
  omega

variable {check beat offset : Nat}

/-- Two periods with a common divisor: how far one clock is behind the other never changes modulo
    it. -/
theorem mod_rest {g checks beats rest : Nat} (hchecks : g ∣ checks) (hbeats : g ∣ beats)
    (h : offset + beats = checks + rest) : rest % g = offset % g := by
  obtain ⟨x, rfl⟩ := hchecks
  obtain ⟨y, rfl⟩ := hbeats
  have hmod := congrArg (· % g) h
  simpa using hmod.symm

/-- **The longest wait**, until the next beat at the latest. -/
theorem elapsed_le {j k : Nat} (hbefore : check * j ≤ offset + beat * k + beat) :
    check * j - (offset + beat * k) ≤ beat - offset % Nat.gcd check beat := by
  have hcheck : Nat.gcd check beat ∣ check * j := (Nat.gcd_dvd_left check beat).mul_right j
  have hbeat : Nat.gcd check beat ∣ beat * (k + 1) := (Nat.gcd_dvd_right check beat).mul_right _
  obtain ⟨rest, hrest⟩ := Nat.exists_eq_add_of_le hbefore
  -- what is left of the beat is as much past a common multiple as the offset is
  have hmod : rest % Nat.gcd check beat = offset % Nat.gcd check beat :=
    mod_rest hcheck hbeat (by rw [Nat.mul_succ]; omega)
  have hle : offset % Nat.gcd check beat ≤ rest := hmod ▸ Nat.mod_le _ _
  omega

/-- The same before the first beat. -/
theorem elapsed_le_of_none {j : Nat} (hoffset : offset < beat) (hbefore : check * j ≤ offset) :
    check * j ≤ beat - offset % Nat.gcd check beat := by
  have hcheck : Nat.gcd check beat ∣ check * j := (Nat.gcd_dvd_left check beat).mul_right j
  obtain ⟨rest, hrest⟩ := Nat.exists_eq_add_of_le hbefore
  have hmod : rest % Nat.gcd check beat = offset % Nat.gcd check beat :=
    mod_rest hcheck (dvd_zero _) hrest
  have hle : offset % Nat.gcd check beat ≤ rest := hmod ▸ Nat.mod_le _ _
  omega

/-- Modulo the beat, the checks reach every multiple of the greatest common divisor. -/
theorem exists_check {n : Nat} (hn : Nat.gcd check beat * n < beat) :
    ∃ m, check * m % beat = Nat.gcd check beat * n := by
  rcases Nat.eq_zero_or_pos n with rfl | hpos
  · exact ⟨0, by rw [Nat.mul_zero, Nat.mul_zero, Nat.zero_mod]⟩
  · have hlt : Nat.gcd check beat < beat := (Nat.le_mul_of_pos_right _ hpos).trans_lt hn
    obtain ⟨m, -, hm⟩ := Nat.exists_mul_mod_eq_gcd hlt
    refine ⟨m * n, ?_⟩
    rw [← Nat.mul_assoc, ← Nat.mod_mul_mod, hm, Nat.mod_eq_of_lt hn]

/-- **It comes to that.** -/
theorem exists_elapsed (hcheck : 0 < check) (hoffset : offset < beat) :
    ∃ j k, check * j = offset + beat * k + (beat - offset % Nat.gcd check beat) := by
  have hdvd : Nat.gcd check beat ∣ beat := Nat.gcd_dvd_right check beat
  have hle : Nat.gcd check beat ≤ beat := Nat.le_of_dvd (by omega) hdvd
  have hmod : offset % Nat.gcd check beat < Nat.gcd check beat :=
    Nat.mod_lt _ (Nat.gcd_pos_of_pos_left beat hcheck)
  have hdiv := Nat.div_add_mod offset (Nat.gcd check beat)
  have hfloor : Nat.gcd check beat * (offset / Nat.gcd check beat) < beat := by omega
  obtain ⟨m, hm⟩ := exists_check hfloor
  have hsplit := Nat.div_add_mod (check * m) beat
  obtain ⟨more, rfl⟩ : ∃ more, check = more + 1 := ⟨check - 1, by omega⟩
  -- a beat later there has been a beat before
  refine ⟨m + beat, (more + 1) * m / beat + more, ?_⟩
  have hbeats : beat * ((more + 1) * m / beat + more)
      = beat * ((more + 1) * m / beat) + beat * more := Nat.mul_add ..
  have hchecks : (more + 1) * (m + beat) = (more + 1) * m + (beat * more + beat) := by ring
  omega

end TimerLib
