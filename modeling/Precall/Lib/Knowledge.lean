import Precall.Lib.Interference

namespace Durable

/-!
# Programs that name only what they have seen

A write may name an object of the store, and a store that names an object it does not hold is
broken.  Where objects are never taken away, it is enough that a program names what it has read or
made: whatever happens between the read and the write, the object is still there.

* `Prog.Names` — every write the program can commit names something known at its start, or seen in
  a store it has read since, or made by it; rules for sequences and loops;
* `Exec.named` — next to writers that keep what is there, each of its writes names something that
  is there when it is committed.
-/

variable {σ ω α β κ : Type}

namespace Prog

/-- The program names only what is known, what it has seen, or what it has made.  What is known
    grows along the program. -/
def Names (names makes : ω → Option κ) (seen : σ → κ → Prop) : (κ → Prop) → Prog σ ω α → Prop
  | _, ret _ => True
  | _, abort => True
  | known, read k => ∀ s, (k s).Names names makes seen fun x => known x ∨ seen s x
  | known, write w k => (∀ x, names w = some x → known x) ∧
      k.Names names makes seen fun x => known x ∨ makes w = some x

variable {names makes : ω → Option κ} {seen : σ → κ → Prop} {known : κ → Prop}

/-- A value names nothing. -/
@[simp] theorem names_pure (a : α) :
    (pure a : Prog σ ω α).Names names makes seen known ↔ True := Iff.rfl

/-- Knowing more does no harm: a program that manages with less manages. -/
theorem names_mono {known' : κ → Prop} {p : Prog σ ω α} (h : p.Names names makes seen known)
    (hmore : ∀ x, known x → known' x) : p.Names names makes seen known' := by
  induction p generalizing known known' with
  | ret a => trivial
  | abort => trivial
  | read k ih => exact fun s => ih s (h s) fun x => Or.imp_left (hmore x)
  | write w k ih => exact ⟨fun x hx => hmore x (h.1 x hx), ih h.2 fun x => Or.imp_left (hmore x)⟩

/-- **One after the other.**  The second part may use what is known at the start. -/
theorem names_bind {p : Prog σ ω α} {f : α → Prog σ ω β} (hp : p.Names names makes seen known)
    (hf : ∀ a, (f a).Names names makes seen known) : (p >>= f).Names names makes seen known := by
  show (p.bind f).Names names makes seen known
  induction p generalizing known with
  | ret a => exact hf a
  | abort => trivial
  | read k ih => exact fun s => ih s (hp s) fun a => names_mono (hf a) fun x => Or.inl
  | write w k ih => exact ⟨hp.1, ih hp.2 fun a => names_mono (hf a) fun x => Or.inl⟩

/-- A read adds to what is known all that is seen in the store. -/
theorem names_get_bind {f : σ → Prog σ ω β}
    (hf : ∀ s, (f s).Names names makes seen fun x => known x ∨ seen s x) :
    ((get : Prog σ ω σ) >>= f).Names names makes seen known := hf

/-- A write adds what it makes, which the rest of the program may name. -/
theorem names_commit_bind {w : ω} {f : Unit → Prog σ ω β} (hw : ∀ x, names w = some x → known x)
    (hf : (f ()).Names names makes seen fun x => known x ∨ makes w = some x) :
    ((commit w : Prog σ ω Unit) >>= f).Names names makes seen known := ⟨hw, hf⟩

/-- Loops: every turn starts from what was known in front of the loop. -/
theorem names_forEach {body : β → α → Prog σ ω α} {xs : List β}
    (h : ∀ x ∈ xs, ∀ a, (body x a).Names names makes seen known) (a : α) :
    (forEach body xs a).Names names makes seen known := by
  induction xs generalizing a with
  | nil => trivial
  | cons x xs ih =>
    refine names_bind (h x List.mem_cons_self a) fun a' => ?_
    exact ih (fun y hy => h y (List.mem_cons_of_mem x hy)) a'

/-- A program whose writes name only known things, whatever it reads. -/
theorem names_of_only {p : Prog σ ω α} (h : Only (fun w => ∀ x, names w = some x → known x) p) :
    p.Names names makes seen known := by
  induction p generalizing known with
  | ret a => trivial
  | abort => trivial
  | read k ih => exact fun s => ih s (only_mono (h s) fun w hw x hx => Or.inl (hw x hx))
  | write w k ih => exact ⟨h.1, ih (only_mono h.2 fun w hw x hx => Or.inl (hw x hx))⟩

end Prog

variable {apply : ω → σ → σ} {Foreign : ω → Prop} {s₀ : σ}
  {names makes : ω → Option κ} {seen : σ → κ → Prop}

/-- A write names something that is there, at the moment it is committed. -/
def Named (names : ω → Option κ) (seen : σ → κ → Prop) (w : ω) (s : σ) (_ : List ω) : Prop :=
  ∀ x, names w = some x → seen s x

/-- What a program knows is there: all that it may still name without having seen it again. -/
def Prog.Informed (names makes : ω → Option κ) (seen : σ → κ → Prop) (p : Prog σ ω α) (s : σ) :
    Prop :=
  ∃ known : κ → Prop, p.Names names makes seen known ∧ ∀ x, known x → seen s x

namespace Prog.Informed

/-- A program that is informed stays so when it reads: what it sees joins what it has seen. -/
theorem read {k : σ → Prog σ ω α} {s : σ} (h : (Prog.read k).Informed names makes seen s) :
    (k s).Informed names makes seen s := by
  obtain ⟨known, hp, hknown⟩ := h
  exact ⟨_, hp s, fun x hx => hx.elim (hknown x) id⟩

/-- Its next write names something that is there, and behind it the program is informed of what
    it has made. -/
theorem write (hkeep : ∀ w s x, seen s x → seen (apply w s) x)
    (hmake : ∀ w s x, makes w = some x → seen (apply w s) x) {w : ω} {k : Prog σ ω α} {s : σ}
    (h : (Prog.write w k).Informed names makes seen s) (log : List ω) :
    Named names seen w s log ∧ k.Informed names makes seen (apply w s) := by
  obtain ⟨known, hp, hknown⟩ := h
  refine ⟨fun x hx => hknown x (hp.1 x hx), _, hp.2, fun x hx => ?_⟩
  exact hx.elim (fun hx => hkeep w s x (hknown x hx)) (hmake w s x)

/-- The writes of others do no harm, if they take nothing away. -/
theorem other (hkeep : ∀ w s x, seen s x → seen (apply w s) x) {p : Prog σ ω α} {s : σ}
    (h : p.Informed names makes seen s) (w : ω) : p.Informed names makes seen (apply w s) := by
  obtain ⟨known, hp, hknown⟩ := h
  exact ⟨known, hp, fun x hx => hkeep w s x (hknown x hx)⟩

end Prog.Informed

/-- **Executions next to other writers.**  Where nothing is taken away and the other writers name
    nothing, a program that names only what it has seen names only what is there. -/
theorem Exec.named (hkeep : ∀ w s x, seen s x → seen (apply w s) x)
    (hmake : ∀ w s x, makes w = some x → seen (apply w s) x)
    (hforeign : ∀ w, Foreign w → names w = none) {p : Prog σ ω α} {log log' : List ω}
    {r : Option α} (h : Exec apply Foreign s₀ p log log' r)
    (hp : p.Informed names makes seen (replay apply s₀ log))
    (hlog : Guarded apply (Named names seen) s₀ log) :
    Guarded apply (Named names seen) s₀ log' := by
  induction h with
  | ret a log => exact hlog
  | stop p log => exact hlog
  | @other p log log' r w hw h ih =>
    refine ih ?_ (.concat hlog fun x hx => ?_)
    · rw [replay_concat]
      exact hp.other hkeep w
    · rw [hforeign w hw] at hx
      cases hx
  | read h ih => exact ih hp.read hlog
  | @write w k log log' r h ih =>
    obtain ⟨hw, hk⟩ := hp.write hkeep hmake log
    refine ih ?_ (.concat hlog hw)
    rw [replay_concat]
    exact hk

end Durable
