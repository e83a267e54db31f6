import Precall.Lib.Durable

namespace Durable

/-!
# Programs that run next to other writers

`Prog.run` executes a program alone.  Here other processes write to the same store while it runs:
between any two of its steps the log may grow by *foreign* writes, and the program may stop
anywhere.

* `Exec` — the relation between a program, the log it starts from, the log it leaves and the value
  it returns, if it finishes;
* `Exec.of_bind`, `Exec.bind`, `Exec.bind_stop` — sequencing, in both directions;
* `exec_of_run` — every run of the program alone is such an execution;
* `Exec.of_get`, `Exec.appended` — what a read sees, and what is appended to the log;
* `Exec.marks_of_only`, `Exec.marks_forEach` — which *marked* writes an execution adds to the log:
  none, if the program commits none; for a loop whose body begins by marking its element, the marks
  of some prefix of the list.
-/

variable {σ ω α β μ : Type}

/-- An execution of a program over the store that `log` leaves, next to other writers.  It may
    stop anywhere, and foreign writes may fall between any two of its steps. -/
inductive Exec (apply : ω → σ → σ) (Foreign : ω → Prop) (s₀ : σ) :
    Prog σ ω α → List ω → List ω → Option α → Prop where
  | ret (a : α) (log : List ω) : Exec apply Foreign s₀ (.ret a) log log (some a)
  | stop (p : Prog σ ω α) (log : List ω) : Exec apply Foreign s₀ p log log none
  | other {p : Prog σ ω α} {log log' : List ω} {r : Option α} (w : ω) (hw : Foreign w)
      (h : Exec apply Foreign s₀ p (log ++ [w]) log' r) : Exec apply Foreign s₀ p log log' r
  | read {k : σ → Prog σ ω α} {log log' : List ω} {r : Option α}
      (h : Exec apply Foreign s₀ (k (replay apply s₀ log)) log log' r) :
      Exec apply Foreign s₀ (.read k) log log' r
  | write {w : ω} {k : Prog σ ω α} {log log' : List ω} {r : Option α}
      (h : Exec apply Foreign s₀ k (log ++ [w]) log' r) :
      Exec apply Foreign s₀ (.write w k) log log' r

variable {apply : ω → σ → σ} {Foreign : ω → Prop} {s₀ : σ}

namespace Exec

/-- An execution only appends to the log, its own writes and those of others. -/
theorem extends_log {p : Prog σ ω α} {log log' : List ω} {r : Option α}
    (h : Exec apply Foreign s₀ p log log' r) : log <+: log' := by
  induction h with
  | ret a log => exact List.prefix_refl log
  | stop p log => exact List.prefix_refl log
  | other w hw h ih => exact (List.prefix_append _ _).trans ih
  | read h ih => exact ih
  | write h ih => exact (List.prefix_append _ _).trans ih

/-- A program that returns at once returns its value. -/
theorem ret_value {a b : α} {p : Prog σ ω α} {log log' : List ω}
    (h : Exec apply Foreign s₀ p log log' (some b)) (hp : p = .ret a) : b = a := by
  generalize hr : some b = r at h
  induction h with
  | ret c log => exact (Option.some.inj hr).trans (Prog.ret.inj hp)
  | stop p log => cases hr
  | other w hw h ih => exact ih hp hr
  | read h ih => cases hp
  | write h ih => cases hp

/-! ### Sequencing -/

/-- An execution of a sequence stops in its first part, or goes through it and on with the
    second. -/
theorem of_bind {p : Prog σ ω α} {f : α → Prog σ ω β} {log log' : List ω} {r : Option β}
    (h : Exec apply Foreign s₀ (p >>= f) log log' r) :
    (r = none ∧ Exec apply Foreign s₀ p log log' none) ∨
      ∃ a mid, Exec apply Foreign s₀ p log mid (some a) ∧
        Exec apply Foreign s₀ (f a) mid log' r := by
  -- a step of the sequence is one of `p`, or `p` has returned
  have hret : ∀ {a q log log' r}, Prog.ret a >>= f = q → Exec apply Foreign s₀ q log log' r →
      (r = none ∧ Exec apply Foreign s₀ (.ret a) log log' none) ∨
        ∃ b mid, Exec apply Foreign s₀ (.ret a) log mid (some b) ∧
          Exec apply Foreign s₀ (f b) mid log' r := by
    rintro a q log log' r rfl h
    exact Or.inr ⟨a, log, .ret a log, h⟩
  generalize hq : p >>= f = q at h
  induction h generalizing p with
  | ret b log =>
    cases p with
    | ret a => exact hret hq (.ret b log)
    | abort => cases hq
    | read k => cases hq
    | write w k => cases hq
  | stop q log => exact Or.inl ⟨rfl, .stop p log⟩
  | other w hw h ih =>
    rcases ih hq with ⟨hr, h'⟩ | ⟨a, mid, h₁, h₂⟩
    · exact Or.inl ⟨hr, .other w hw h'⟩
    · exact Or.inr ⟨a, mid, .other w hw h₁, h₂⟩
  | read h ih =>
    cases p with
    | ret a => exact hret hq (.read h)
    | abort => cases hq
    | write w k => cases hq
    | read k =>
      obtain rfl := Prog.read.inj hq
      rcases ih rfl with ⟨hr, h'⟩ | ⟨a, mid, h₁, h₂⟩
      · exact Or.inl ⟨hr, .read h'⟩
      · exact Or.inr ⟨a, mid, .read h₁, h₂⟩
  | write h ih =>
    cases p with
    | ret a => exact hret hq (.write h)
    | abort => cases hq
    | read k => cases hq
    | write w k =>
      obtain ⟨rfl, rfl⟩ := Prog.write.inj hq
      rcases ih rfl with ⟨hr, h'⟩ | ⟨a, mid, h₁, h₂⟩
      · exact Or.inl ⟨hr, .write h'⟩
      · exact Or.inr ⟨a, mid, .write h₁, h₂⟩

/-- A first part that finishes is followed by the second. -/
theorem bind {p : Prog σ ω α} {f : α → Prog σ ω β} {log mid log' : List ω} {r : Option β} {a : α}
    (h : Exec apply Foreign s₀ p log mid (some a)) (hf : Exec apply Foreign s₀ (f a) mid log' r) :
    Exec apply Foreign s₀ (p >>= f) log log' r := by
  generalize hv : some a = v at h
  induction h with
  | ret b log =>
    obtain rfl := Option.some.inj hv
    exact hf
  | stop p log => cases hv
  | other w hw h ih => exact .other w hw (ih hf hv)
  | read h ih => exact .read (ih hf hv)
  | write h ih => exact .write (ih hf hv)

/-- A first part that stops stops the sequence. -/
theorem bind_stop {p : Prog σ ω α} (f : α → Prog σ ω β) {log log' : List ω}
    (h : Exec apply Foreign s₀ p log log' none) :
    Exec apply Foreign s₀ (p >>= f) log log' none := by
  generalize hv : (none : Option α) = v at h
  induction h with
  | ret b log => cases hv
  | stop p log => exact .stop _ log
  | other w hw h ih => exact .other w hw (ih hv)
  | read h ih => exact .read (ih hv)
  | write h ih => exact .write (ih hv)

end Exec

/-- A run of the program alone is an execution, one in which the others are silent. -/
theorem exec_of_run (p : Prog σ ω α) (n : Nat) (log : List ω) :
    Exec apply Foreign s₀ p log (p.run apply n (replay apply s₀ log) log).log
      (p.run apply n (replay apply s₀ log) log).value := by
  induction p generalizing n log with
  | ret a => exact .ret a log
  | abort => exact .stop _ log
  | read k ih => exact .read (ih _ n log)
  | write w k ih =>
    cases n with
    | zero => exact .stop _ log
    | succ n =>
      simp only [Prog.run]
      rw [← replay_concat apply s₀ log w]
      exact .write (ih n (log ++ [w]))

/-- What a run of a sequence does once its first part has finished, and what it leaves if that
    does not finish. -/
theorem Prog.run_bind (p : Prog σ ω α) (f : α → Prog σ ω β) (n : Nat) (s : σ) (log : List ω) :
    (∃ a m, (p.run apply n s log).value = some a ∧ (p >>= f).run apply n s log
        = (f a).run apply m (p.run apply n s log).store (p.run apply n s log).log) ∨
      ((p.run apply n s log).value = none ∧
        (p >>= f).run apply n s log
          = ⟨(p.run apply n s log).store, (p.run apply n s log).log, none⟩) := by
  show (∃ a m, _ ∧ (p.bind f).run apply n s log = _) ∨ (_ ∧ (p.bind f).run apply n s log = _)
  induction p generalizing n s log with
  | ret a => exact Or.inl ⟨a, n, rfl, rfl⟩
  | abort => exact Or.inr ⟨rfl, rfl⟩
  | read k ih => exact ih s n s log
  | write w k ih =>
    cases n with
    | zero => exact Or.inr ⟨rfl, rfl⟩
    | succ n => exact ih n (apply w s) (log ++ [w])

/-- Sequencing is associative, so a program can be cut where a proof needs it. -/
theorem Prog.bind_assoc {γ : Type} (p : Prog σ ω α) (f : α → Prog σ ω β) (g : β → Prog σ ω γ) :
    p >>= f >>= g = p >>= fun a => f a >>= g := by
  show (p.bind f).bind g = p.bind fun a => (f a).bind g
  induction p with
  | ret a => rfl
  | abort => rfl
  | read k ih => exact congrArg Prog.read (funext ih)
  | write w k ih => exact congrArg (Prog.write w) ih

/-! ### Reads -/

/-- A program that commits only some writes leaves only those and foreign ones, in whatever order
    they were made. -/
theorem Exec.appended {P : ω → Prop} {p : Prog σ ω α} {log log' : List ω} {r : Option α}
    (h : Exec apply Foreign s₀ p log log' r) (honly : p.Only P) :
    ∃ ws, log' = log ++ ws ∧ ∀ w ∈ ws, P w ∨ Foreign w := by
  induction h with
  | ret a log => exact ⟨[], (List.append_nil log).symm, by simp⟩
  | stop p log => exact ⟨[], (List.append_nil log).symm, by simp⟩
  | read h ih => exact ih (honly _)
  | other w hw h ih =>
    obtain ⟨ws, rfl, hws⟩ := ih honly
    refine ⟨w :: ws, by simp, List.forall_mem_cons.mpr ⟨Or.inr hw, hws⟩⟩
  | write h ih =>
    obtain ⟨ws, rfl, hws⟩ := ih honly.2
    refine ⟨_ :: ws, by simp, List.forall_mem_cons.mpr ⟨Or.inl honly.1, hws⟩⟩

/-- A read sees the store at some moment before it is over, and other writers may go on before and
    after. -/
theorem Exec.of_get {log log' : List ω} {s : σ}
    (h : Exec apply Foreign s₀ (Prog.get : Prog σ ω σ) log log' (some s)) :
    ∃ before after, log' = log ++ before ++ after ∧ s = replay apply s₀ (log ++ before) ∧
      (∀ w ∈ before, Foreign w) ∧ ∀ w ∈ after, Foreign w := by
  generalize hp : (Prog.get : Prog σ ω σ) = p at h
  generalize hr : some s = r at h
  induction h with
  | ret a log => cases hp
  | stop p log => cases hr
  | write h ih => cases hp
  | other w hw h ih =>
    obtain ⟨before, rest, rfl, rfl, hbefore, hrest⟩ := ih hp hr
    refine ⟨w :: before, rest, by simp, by simp, ?_, hrest⟩
    exact List.forall_mem_cons.mpr ⟨hw, hbefore⟩
  | @read k log log' r h ih =>
    obtain rfl := Prog.read.inj hp
    subst hr
    -- the value read is returned; what follows is foreign
    obtain ⟨ws, rfl, hws⟩ := h.appended (P := fun _ => False) trivial
    refine ⟨[], ws, by simp, ?_, by simp, fun w hw => (hws w hw).resolve_left id⟩
    rw [List.append_nil]
    exact h.ret_value rfl

/-! ### Marked writes -/

section
variable {mark : ω → Option μ}

/-- A program that commits no marked write adds none, and neither do the others. -/
theorem Exec.marks_of_only {p : Prog σ ω α} {log log' : List ω} {r : Option α}
    (h : Exec apply Foreign s₀ p log log' r) (hforeign : ∀ w, Foreign w → mark w = none)
    (honly : p.Only fun w => mark w = none) : log'.filterMap mark = log.filterMap mark := by
  induction h with
  | ret a log => rfl
  | stop p log => rfl
  | other w hw h ih =>
    rw [ih honly, List.filterMap_append]
    simp [hforeign w hw]
  | read h ih => exact ih (honly _)
  | write h ih =>
    rw [ih honly.2, List.filterMap_append]
    simp [honly.1]

/-- A program that commits a marked write and then none adds that mark, or stops before it. -/
theorem Exec.marks_of_first {w : ω} {m : μ} {f : Unit → Prog σ ω α} {log log' : List ω}
    {r : Option α} (h : Exec apply Foreign s₀ (Prog.commit w >>= f) log log' r)
    (hforeign : ∀ w, Foreign w → mark w = none) (hw : mark w = some m)
    (honly : (f ()).Only fun w => mark w = none) :
    log'.filterMap mark = log.filterMap mark ++ [m] ∨
      (log'.filterMap mark = log.filterMap mark ∧ r = none) := by
  change Exec apply Foreign s₀ (.write w (f ())) log log' r at h
  generalize hp : Prog.write w (f ()) = p at h
  induction h with
  | ret a log => cases hp
  | stop p log => exact Or.inr ⟨rfl, rfl⟩
  | read h ih => cases hp
  | @other p log log' r w' hw' h ih =>
    have hsame : (log ++ [w']).filterMap mark = log.filterMap mark := by
      rw [List.filterMap_append]
      simp [hforeign w' hw']
    rw [← hsame]
    exact ih hp
  | write h ih =>
    obtain ⟨rfl, rfl⟩ := Prog.write.inj hp
    refine Or.inl ?_
    rw [h.marks_of_only hforeign honly, List.filterMap_append]
    simp [hw]

/-- A loop whose body has come to a stop does nothing more. -/
theorem Prog.forEach_stopped {body : β → α → Prog σ ω α} {a : α}
    (h : ∀ x, body x a = Prog.ret a) (xs : List β) : Prog.forEach body xs a = Prog.ret a := by
  induction xs with
  | nil => rfl
  | cons x xs ih =>
    unfold Prog.forEach
    rw [h x]
    exact ih

/-- **Loops.**  If the body first marks its element and then marks nothing, until it comes to a
    stop, an execution of the loop adds the marks of a prefix of its list. -/
theorem Exec.marks_forEach {body : β → α → Prog σ ω α} {Stopped : α → Prop} {m : β → μ}
    (hbody : ∀ x a, ¬ Stopped a → ∃ w f, body x a = (Prog.commit w >>= f) ∧
      mark w = some (m x) ∧ (f ()).Only fun w => mark w = none)
    (hstopped : ∀ x a, Stopped a → body x a = Prog.ret a)
    (hforeign : ∀ w, Foreign w → mark w = none) {xs : List β} {a : α} {log log' : List ω}
    {r : Option α} (h : Exec apply Foreign s₀ (Prog.forEach body xs a) log log' r) :
    ∃ taken, taken <+: xs ∧ log'.filterMap mark = log.filterMap mark ++ taken.map m := by
  induction xs generalizing a log with
  | nil =>
    refine ⟨[], List.prefix_refl [], ?_⟩
    rw [h.marks_of_only hforeign trivial, List.map_nil, List.append_nil]
  | cons x xs ih =>
    by_cases hstop : Stopped a
    · -- nothing is marked from here on
      rw [Prog.forEach_stopped fun x => hstopped x a hstop] at h
      refine ⟨[], List.nil_prefix, ?_⟩
      rw [h.marks_of_only hforeign trivial, List.map_nil, List.append_nil]
    · obtain ⟨w, f, hw, hmark, honly⟩ := hbody x a hstop
      have hfirst : ∀ {l l' r}, Exec apply Foreign s₀ (body x a) l l' r →
          l'.filterMap mark = l.filterMap mark ++ [m x] ∨
            (l'.filterMap mark = l.filterMap mark ∧ r = none) :=
        fun h => (hw ▸ h : Exec apply Foreign s₀ (Prog.commit w >>= f) _ _ _).marks_of_first
          hforeign hmark honly
      rcases h.of_bind with ⟨-, h⟩ | ⟨a', mid, h₁, h₂⟩
      · rcases hfirst h with hone | ⟨hnone, -⟩
        · exact ⟨[x], ⟨xs, rfl⟩, hone⟩
        · exact ⟨[], List.nil_prefix, by rw [hnone, List.map_nil, List.append_nil]⟩
      · rcases hfirst h₁ with hone | ⟨-, hr⟩
        · obtain ⟨taken, htaken, hrest⟩ := ih h₂
          refine ⟨x :: taken, List.cons_prefix_cons.mpr ⟨rfl, htaken⟩, ?_⟩
          rw [hrest, hone, List.append_assoc]
          rfl
        · cases hr

end

end Durable
