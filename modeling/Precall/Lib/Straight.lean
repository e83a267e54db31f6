import Precall.Lib.Durable

namespace Durable

/-!
# Programs that run through

A program that is known to reach its end, with the writes it commits on the way.

* `Prog.Commits` — from this store the program commits exactly these writes, in order, and
  returns this value; `Commits.bind` composes it;
* `Commits.run` — wherever such a program is stopped, it has committed a prefix of them.
-/

namespace Prog

variable {σ ω α β : Type} {apply : ω → σ → σ}

/-- From store `s` the program commits `ws`, in order, and returns `a`.  This is a run without
    other writers and without an end to its budget. -/
def Commits (apply : ω → σ → σ) : Prog σ ω α → σ → List ω → α → Prop
  | ret b, _, ws, a => ws = [] ∧ a = b
  | abort, _, _, _ => False
  | read k, s, ws, a => (k s).Commits apply s ws a
  | write w k, s, ws, a => ∃ rest, ws = w :: rest ∧ k.Commits apply (apply w s) rest a

namespace Commits

variable {p : Prog σ ω α} {f : α → Prog σ ω β} {s : σ} {ws ws' : List ω} {a : α} {b : β}

/-- Sequencing: the second program starts in the store the first one leaves, and its writes come
    behind. -/
theorem bind (hp : p.Commits apply s ws a) (hf : (f a).Commits apply (replay apply s ws) ws' b) :
    (p >>= f).Commits apply s (ws ++ ws') b := by
  show (p.bind f).Commits apply s (ws ++ ws') b
  induction p generalizing s ws with
  | ret c =>
    obtain ⟨rfl, rfl⟩ := hp
    exact hf
  | abort => exact hp.elim
  | read k ih => exact ih s hp hf
  | write w k ih =>
    obtain ⟨rest, rfl, hk⟩ := hp
    exact ⟨rest ++ ws', rfl, ih hk hf⟩

/-- **Stopped anywhere.**  A run with a budget of `n` writes commits the first `n` of them, and
    finishes if the budget covers them all. -/
theorem run (h : p.Commits apply s ws a) (n : Nat) (log : List ω) :
    p.run apply n s log =
      ⟨replay apply s (ws.take n), log ++ ws.take n, if ws.length ≤ n then some a else none⟩ := by
  induction p generalizing s ws n log with
  | ret b =>
    obtain ⟨rfl, rfl⟩ := h
    simp [Prog.run]
  | abort => exact h.elim
  | read k ih => exact ih s h n log
  | write w k ih =>
    obtain ⟨rest, rfl, hk⟩ := h
    cases n with
    | zero => simp [Prog.run]
    | succ n =>
      rw [Prog.run, ih hk, List.take_succ_cons, List.length_cons, List.append_assoc]
      simp [replay]

end Commits

end Prog

end Durable
