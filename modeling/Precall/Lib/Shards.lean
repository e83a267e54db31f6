import Precall.Lib.Interference

namespace Durable

/-!
# Parts of a store

A store made of parts, a program on one of them (`Prog.zoom`), and what such a program looks like
from the part: the log of the part is the log of the whole with the other writes left out.

* `Prog.attempt` — a program whose failure is a value, so that the caller goes on;
* `Exec.of_attempt` — what it leaves, the program itself leaves;
* `Exec.of_zoom` — an execution of a program on one part, next to writers of any part, is an
  execution of the program itself next to the writers of its part;
* `Exec.part_aside` — a program that writes to other parts only.
-/

variable {σ ω τ ω' α : Type}

namespace Prog

/-- Run a program until it fails: after that many writes, if at all.  The failure is a value, and
    what follows goes on from it. -/
def attempt : Prog σ ω α → Option Nat → Prog σ ω (Option α)
  | ret a, n => if n = some 0 then ret none else ret (some a)
  | abort, _ => ret none
  | read k, n => if n = some 0 then ret none else read fun s => (k s).attempt n
  | write w k, n => match n with
    | some 0 => ret none
    | some (m + 1) => write w (k.attempt (some m))
    | none => write w (k.attempt none)

/-- A program on one part commits writes to that part, with what is known of them. -/
theorem only_zoom_of {P : ω → Prop} {P' : ω' → Prop} (view : τ → σ) {wrap : ω → ω'}
    (h : ∀ w, P w → P' (wrap w)) {p : Prog σ ω α} (hp : p.Only P) :
    (p.zoom view wrap).Only P' := by
  induction p with
  | ret a => trivial
  | abort => trivial
  | read k ih => exact fun t => ih (view t) (hp _)
  | write w k ih => exact ⟨h w hp.1, ih hp.2⟩

end Prog

variable {apply : ω → σ → σ} {Foreign : ω → Prop} {s₀ : σ}

/-- What an attempt leaves, the program leaves as well: a failure looks to the store like a stop
    at the same write. -/
theorem Exec.of_attempt {p : Prog σ ω α} {n : Option Nat} {log log' : List ω}
    {r : Option (Option α)} (h : Exec apply Foreign s₀ (p.attempt n) log log' r) :
    ∃ r', Exec apply Foreign s₀ p log log' r' := by
  generalize hq : p.attempt n = q at h
  induction h generalizing p n with
  | ret a log => exact ⟨none, .stop p log⟩
  | stop q log => exact ⟨none, .stop p log⟩
  | other w hw h ih =>
    obtain ⟨r', h'⟩ := ih hq
    exact ⟨r', .other w hw h'⟩
  | @read k' log log' r h ih =>
    cases p with
    | ret a =>
      unfold Prog.attempt at hq
      split at hq <;> cases hq
    | abort => cases hq
    | read k =>
      unfold Prog.attempt at hq
      split at hq
      · cases hq
      · obtain rfl := Prog.read.inj hq
        obtain ⟨r', h'⟩ := ih rfl
        exact ⟨r', .read h'⟩
    | write w k =>
      unfold Prog.attempt at hq
      split at hq <;> cases hq
  | @write w' k' log log' r h ih =>
    cases p with
    | ret a =>
      unfold Prog.attempt at hq
      split at hq <;> cases hq
    | abort => cases hq
    | read k =>
      unfold Prog.attempt at hq
      split at hq <;> cases hq
    | write w k =>
      unfold Prog.attempt at hq
      split at hq
      · cases hq
      all_goals
        obtain ⟨rfl, rfl⟩ := Prog.write.inj hq
        obtain ⟨r', h'⟩ := ih rfl
        exact ⟨r', .write h'⟩

section
variable {apply' : ω' → τ → τ} {Foreign' : ω' → Prop} {t₀ : τ} {view : τ → σ} {wrap : ω → ω'}
  {part : ω' → Option ω} {log log' : List ω'} {r : Option α}

/-- **One part by itself.**  Provided the part is, at every moment of the execution, what its own
    writes make of it. -/
theorem Exec.of_zoom (hwrap : ∀ w, part (wrap w) = some w)
    (hforeign : ∀ w v, Foreign' w → part w = some v → Foreign v) {p : Prog σ ω α}
    (h : Exec apply' Foreign' t₀ (p.zoom view wrap) log log' r)
    (hview : ∀ l, l <+: log' →
      view (replay apply' t₀ l) = replay apply s₀ (l.filterMap part)) :
    Exec apply Foreign s₀ p (log.filterMap part) (log'.filterMap part) r := by
  generalize hq : p.zoom view wrap = q at h
  induction h generalizing p with
  | ret a log =>
    cases p with
    | ret b =>
      obtain rfl := Prog.ret.inj hq
      exact .ret b _
    | _ => cases hq
  | stop q log => exact .stop p _
  | @other q log log' r w hw h ih =>
    have hrest := ih hview hq
    rw [List.filterMap_append] at hrest
    cases hpart : part w with
    | none => simpa [hpart] using hrest
    | some v =>
      refine .other v (hforeign w v hw hpart) ?_
      simpa [hpart] using hrest
  | @read k' log log' r h ih =>
    cases p with
    | read k =>
      obtain rfl := Prog.read.inj hq
      refine .read ?_
      rw [← hview log h.extends_log]
      exact ih hview rfl
    | _ => cases hq
  | @write w' k' log log' r h ih =>
    cases p with
    | write w k =>
      obtain ⟨rfl, rfl⟩ := Prog.write.inj hq
      have hrest := ih hview rfl
      rw [List.filterMap_append] at hrest
      refine .write ?_
      simpa [hwrap w] using hrest
    | _ => cases hq

/-- A program that writes to other parts leaves the foreign writes of this one. -/
theorem Exec.part_aside (hforeign : ∀ w v, Foreign' w → part w = some v → Foreign v)
    {q : Prog τ ω' α} (h : Exec apply' Foreign' t₀ q log log' r)
    (honly : q.Only fun w => part w = none) :
    ∃ ws, log'.filterMap part = log.filterMap part ++ ws ∧ ∀ v ∈ ws, Foreign v := by
  obtain ⟨ws, rfl, hws⟩ := h.appended honly
  refine ⟨ws.filterMap part, List.filterMap_append, fun v hv => ?_⟩
  obtain ⟨w, hw, hpart⟩ := List.mem_filterMap.mp hv
  rcases hws w hw with hnone | hother
  · rw [hnone] at hpart
    cases hpart
  · exact hforeign w v hother hpart

end

end Durable
