import Mathlib.Data.List.Infix

namespace Durable

/-!
# Programs that commit writes one at a time

A small program logic for sequential programs over a durable store `σ` whose only effects are
*committed writes* `ω`.  A program may stop between any two writes (a crash, an I/O error), and
whatever it has committed by then stays.

* `Prog` — programs: return, abort with an error, read the store, commit one write;
* `replay` — the store a log of writes leaves; `Prog.run` — execution with a budget of writes,
  which stops at the first write the budget does not cover: every crash point is some budget;
* `Prog.wp G Q` — every write of the program is issued where its *guard* `G` holds, and a run
  that finishes ends in `Q`; the rules `wp_bind`, `wp_seq`, `wp_mono`, `wp_forEach`
  compose it;
* `Prog.Only P` — every write the program can commit has the property `P`;
* `Guarded` — logs all of whose writes met their guard; `Prog.run_guarded` puts the log of any
  run, complete or not, among them;
* `Stable` / `Guarded.invariant` — an assertion that every guarded write preserves holds after
  every guarded log, hence at every crash point of every run.
-/

/-- Sequential programs over a store `σ` that commit writes `ω` and return an `α`.  A program
    reads the store as often as it likes and may stop anywhere. -/
inductive Prog (σ ω α : Type) where
  | ret (a : α)
  | abort
  | read (k : σ → Prog σ ω α)
  | write (w : ω) (k : Prog σ ω α)

variable {σ ω α β γ : Type}

namespace Prog

/-- Sequencing: the second program gets the value of the first one, and is not reached if that
    stops. -/
def bind (p : Prog σ ω α) (f : α → Prog σ ω β) : Prog σ ω β :=
  match p with
  | ret a => f a
  | abort => abort
  | read k => read fun s => (k s).bind f
  | write w k => write w (k.bind f)

instance : Monad (Prog σ ω) where
  pure := ret
  bind := bind

/-- The current store. -/
def get : Prog σ ω σ := read ret

/-- Commit one write. -/
def commit (w : ω) : Prog σ ω Unit := write w (ret ())

/-- Run `body` over a list, threading an accumulator.  An element whose body stops ends the whole
    loop. -/
def forEach (body : β → α → Prog σ ω α) : List β → α → Prog σ ω α
  | [], a => ret a
  | x :: xs, a => body x a >>= forEach body xs

end Prog

/-! ### Logs and runs -/

/-- The store a log of committed writes leaves.  A log says everything about a store but where it
    began. -/
def replay (apply : ω → σ → σ) (s : σ) (log : List ω) : σ :=
  log.foldl (fun s w => apply w s) s

/-- No writes, no change. -/
@[simp] theorem replay_nil (apply : ω → σ → σ) (s : σ) : replay apply s [] = s := rfl

/-- The last write of a log is applied last. -/
@[simp] theorem replay_concat (apply : ω → σ → σ) (s : σ) (log : List ω) (w : ω) :
    replay apply s (log ++ [w]) = apply w (replay apply s log) := by
  simp [replay]

/-- A log can be replayed in two parts, the second one from the store that the first one leaves. -/
theorem replay_append (apply : ω → σ → σ) (s : σ) (l₁ l₂ : List ω) :
    replay apply s (l₁ ++ l₂) = replay apply (replay apply s l₁) l₂ := by
  simp [replay]

/-- What a run leaves: the store, the log so far, and the value if it finished.  A run that was
    cut short has no value. -/
structure Outcome (σ ω α : Type) where
  store : σ
  log : List ω
  value : Option α

namespace Prog

/-- Execute with a budget of `n` further writes; the run stops before the first write the budget
    does not cover, and at an abort. -/
def run (apply : ω → σ → σ) : Prog σ ω α → Nat → σ → List ω → Outcome σ ω α
  | ret a, _, s, log => ⟨s, log, some a⟩
  | abort, _, s, log => ⟨s, log, none⟩
  | read k, n, s, log => (k s).run apply n s log
  | write _ _, 0, s, log => ⟨s, log, none⟩
  | write w k, n + 1, s, log => k.run apply n (apply w s) (log ++ [w])

/-- A read costs no write: what follows runs on the same budget, with the store as it is. -/
@[simp] theorem run_get_bind (apply : ω → σ → σ) (f : σ → Prog σ ω α) (n : Nat) (s : σ)
    (log : List ω) : ((get : Prog σ ω σ) >>= f).run apply n s log = (f s).run apply n s log := rfl

/-- A program that returns leaves store and log as they are, whatever its budget.  A crash behind
    the last write is no crash. -/
@[simp] theorem run_pure (apply : ω → σ → σ) (a : α) (n : Nat) (s : σ) (log : List ω) :
    (pure a : Prog σ ω α).run apply n s log = ⟨s, log, some a⟩ := rfl

/-- Every write is issued where its guard `G` holds, and a run that finishes ends in `Q`.  It is
    defined by recursion on the program, so its rules are equations. -/
def wp (apply : ω → σ → σ) (G : ω → σ → List ω → Prop) (Q : α → σ → List ω → Prop) :
    Prog σ ω α → σ → List ω → Prop
  | ret a, s, log => Q a s log
  | abort, _, _ => True
  | read k, s, log => (k s).wp apply G Q s log
  | write w k, s, log => G w s log ∧ k.wp apply G Q (apply w s) (log ++ [w])

variable {apply : ω → σ → σ} {G G' : ω → σ → List ω → Prop}

/-! ### Rules of the program logic -/

/-- To return, the postcondition must hold of the value in the state at hand. -/
@[simp] theorem wp_pure (Q : α → σ → List ω → Prop) (a : α) (s : σ) (log : List ω) :
    wp apply G Q (pure a) s log ↔ Q a s log := Iff.rfl

/-- A program that stops owes nothing to the postcondition: what it wrote before has met its
    guard already. -/
@[simp] theorem wp_abort (Q : α → σ → List ω → Prop) (s : σ) (log : List ω) :
    wp apply G Q abort s log ↔ True := Iff.rfl

/-- A read returns the store as it is. -/
@[simp] theorem wp_get (Q : σ → σ → List ω → Prop) (s : σ) (log : List ω) :
    wp apply G Q get s log ↔ Q s s log := Iff.rfl

/-- A write must be allowed where it is made, and the postcondition must hold in the store it
    leaves with the write at the end of the log. -/
@[simp] theorem wp_commit (Q : Unit → σ → List ω → Prop) (w : ω) (s : σ) (log : List ω) :
    wp apply G Q (commit w) s log ↔ G w s log ∧ Q () (apply w s) (log ++ [w]) := Iff.rfl

/-- Sequencing: the second program starts where the first one finishes, so its own condition is
    the first one's postcondition. -/
@[simp] theorem wp_bind (Q : β → σ → List ω → Prop) (p : Prog σ ω α) (f : α → Prog σ ω β) (s : σ)
    (log : List ω) :
    wp apply G Q (p >>= f) s log ↔ wp apply G (fun a => wp apply G Q (f a)) p s log := by
  show wp apply G Q (p.bind f) s log ↔ _
  induction p generalizing s log with
  | ret a => exact Iff.rfl
  | abort => exact Iff.rfl
  | read k ih => exact ih s s log
  | write w k ih => exact and_congr_right fun _ => ih (apply w s) (log ++ [w])

/-- A branch is proved for each way its condition can turn out, with what the condition says at
    hand. -/
@[simp] theorem wp_ite (Q : α → σ → List ω → Prop) (c : Prop) [Decidable c] (p q : Prog σ ω α)
    (s : σ) (log : List ω) :
    wp apply G Q (if c then p else q) s log ↔
      (c → wp apply G Q p s log) ∧ (¬ c → wp apply G Q q s log) := by
  by_cases h : c <;> simp [h]

/-- A weaker guard and a weaker postcondition are met by the same program.  The proof goes down
    the program. -/
theorem wp_mono {Q Q' : α → σ → List ω → Prop} {p : Prog σ ω α} {s : σ} {log : List ω}
    (h : wp apply G Q p s log) (hG : ∀ w s log, G w s log → G' w s log)
    (hQ : ∀ a s log, Q a s log → Q' a s log) : wp apply G' Q' p s log := by
  induction p generalizing s log with
  | ret a => exact hQ _ _ _ h
  | abort => trivial
  | read k ih => exact ih s h
  | write w k ih => exact ⟨hG _ _ _ h.1, ih h.2⟩

/-- A weaker postcondition. -/
theorem wp_post {Q Q' : α → σ → List ω → Prop} {p : Prog σ ω α} {s : σ} {log : List ω}
    (h : wp apply G Q p s log) (hQ : ∀ a s log, Q a s log → Q' a s log) :
    wp apply G Q' p s log :=
  wp_mono h (fun _ _ _ hG => hG) hQ

/-- Two guards and two postconditions at once: facts about one program can be proved apart and
    put together. -/
theorem wp_and {Q Q' : α → σ → List ω → Prop} {p : Prog σ ω α} {s : σ} {log : List ω}
    (h : wp apply G Q p s log) (h' : wp apply G' Q' p s log) :
    wp apply (fun w s log => G w s log ∧ G' w s log) (fun a s log => Q a s log ∧ Q' a s log) p s
      log := by
  induction p generalizing s log with
  | ret a => exact ⟨h, h'⟩
  | abort => trivial
  | read k ih => exact ih s h h'
  | write w k ih => exact ⟨⟨h.1, h'.1⟩, ih h.2 h'.2⟩

/-- A program only appends to the log, so what was committed before stays committed. -/
theorem wp_extends (p : Prog σ ω α) (s : σ) (log : List ω) :
    wp apply (fun _ _ _ => True) (fun _ _ log' => ∃ ws, log' = log ++ ws) p s log := by
  induction p generalizing s log with
  | ret a => exact ⟨[], (List.append_nil log).symm⟩
  | abort => trivial
  | read k ih => exact ih s s log
  | write w k ih =>
    refine ⟨trivial, wp_mono (ih (apply w s) (log ++ [w])) (fun _ _ _ h => h) ?_⟩
    rintro a s' log' ⟨ws, rfl⟩
    exact ⟨w :: ws, by rw [List.append_assoc, List.singleton_append]⟩

/-- A program whose writes all have a property leaves the replay of such writes, on top of the
    store it found. -/
theorem wp_appends {P : ω → Prop} {Q : α → σ → List ω → Prop} {p : Prog σ ω α} {s : σ}
    {log : List ω} (h : wp apply (fun w _ _ => P w) Q p s log) :
    wp apply (fun w _ _ => P w) (fun a s' log' => Q a s' log' ∧
      ∃ ws, log' = log ++ ws ∧ s' = replay apply s ws ∧ ∀ w ∈ ws, P w) p s log := by
  induction p generalizing s log with
  | ret a => exact ⟨h, [], (List.append_nil log).symm, rfl, fun _ hw => by cases hw⟩
  | abort => trivial
  | read k ih => exact ih s h
  | write w k ih =>
    refine ⟨h.1, wp_post (ih h.2) ?_⟩
    rintro a s' log' ⟨hQ, ws, rfl, rfl, hws⟩
    refine ⟨hQ, w :: ws, ?_, rfl, List.forall_mem_cons.mpr ⟨h.1, hws⟩⟩
    rw [List.append_assoc, List.singleton_append]

/-- Sequencing through an intermediate assertion, which the first program ends in and the second
    may start from anywhere. -/
theorem wp_seq {R : α → σ → List ω → Prop} {Q : β → σ → List ω → Prop} {p : Prog σ ω α}
    {f : α → Prog σ ω β} {s : σ} {log : List ω} (hp : wp apply G R p s log)
    (hf : ∀ a s log, R a s log → wp apply G Q (f a) s log) : wp apply G Q (p >>= f) s log :=
  (wp_bind Q p f s log).mpr (wp_post hp hf)

end Prog

/-- Every write that meets its guard preserves the assertion `P`.  This is what an invariant has
    to satisfy, and it does not mention a program. -/
def Stable (apply : ω → σ → σ) (G : ω → σ → List ω → Prop) (P : σ → List ω → Prop) : Prop :=
  ∀ w s log, G w s log → P s log → P (apply w s) (log ++ [w])

namespace Prog

variable {apply : ω → σ → σ} {G : ω → σ → List ω → Prop}

/-- Loop rule: an assertion the body re-establishes holds after the loop.  The body is proved
    once, for any element and any accumulator. -/
theorem wp_forEach {body : β → α → Prog σ ω α} {J : α → σ → List ω → Prop} {xs : List β} {a : α}
    {s : σ} {log : List ω}
    (hbody : ∀ x ∈ xs, ∀ a s log, J a s log → wp apply G J (body x a) s log)
    (hinit : J a s log) : wp apply G J (forEach body xs a) s log := by
  induction xs generalizing a s log with
  | nil => exact hinit
  | cons x xs ih =>
    unfold forEach
    rw [wp_bind]
    refine wp_post (hbody x (List.mem_cons_self) a s log hinit) fun a' s' log' hJ => ?_
    exact ih (fun y hy => hbody y (List.mem_cons_of_mem x hy)) hJ

end Prog

namespace Prog

variable {apply : ω → σ → σ} {G : ω → σ → List ω → Prop}

/-- Loop rule with an assertion about the elements still to come.  The body is proved for an
    element in front of those that remain. -/
theorem wp_forEach_rest {body : β → α → Prog σ ω α} {J : List β → α → σ → List ω → Prop}
    {xs : List β} {a : α} {s : σ} {log : List ω}
    (hbody : ∀ x rest a s log, J (x :: rest) a s log → wp apply G (J rest) (body x a) s log)
    (hinit : J xs a s log) : wp apply G (J []) (forEach body xs a) s log := by
  induction xs generalizing a s log with
  | nil => exact hinit
  | cons x xs ih =>
    unfold forEach
    exact wp_seq (hbody x xs a s log hinit) fun a' s' log' hJ => ih hJ

end Prog

/-! ### Programs that commit writes of one kind -/

namespace Prog

/-- Every write the program can commit has a property, whatever it reads.  Unlike `wp` it knows
    no store, and so it holds next to other writers too. -/
def Only (P : ω → Prop) : Prog σ ω α → Prop
  | ret _ => True
  | abort => True
  | read k => ∀ s, (k s).Only P
  | write w k => P w ∧ k.Only P

variable {P : ω → Prop}

/-- A value is no write. -/
@[simp] theorem only_pure (a : α) : Only P (pure a : Prog σ ω α) ↔ True := Iff.rfl

/-- Stopping is no write. -/
@[simp] theorem only_abort : Only P (abort : Prog σ ω α) ↔ True := Iff.rfl

/-- Reading is no write. -/
@[simp] theorem only_get : Only P (get : Prog σ ω σ) ↔ True := by
  simp [get, Only]

/-- The one write of `commit`. -/
@[simp] theorem only_commit (w : ω) : Only P (commit w : Prog σ ω Unit) ↔ P w := by
  simp [commit, Only]

/-- A branch writes what the branch taken writes. -/
@[simp] theorem only_ite (c : Prop) [Decidable c] (p q : Prog σ ω α) :
    Only P (if c then p else q) ↔ (c → Only P p) ∧ (¬ c → Only P q) := by
  by_cases h : c <;> simp [h]

/-- A sequence writes what its parts write; the second part is looked at for every value of the
    first. -/
theorem only_bind {p : Prog σ ω α} {f : α → Prog σ ω β} (hp : Only P p) (hf : ∀ a, Only P (f a)) :
    Only P (p >>= f) := by
  show Only P (p.bind f)
  induction p with
  | ret a => exact hf a
  | abort => trivial
  | read k ih => exact fun s => ih s (hp s)
  | write w k ih => exact ⟨hp.1, ih hp.2⟩

/-- A loop writes what its body writes, whatever it runs over and whatever accumulator it starts
    with. -/
theorem only_forEach {body : β → α → Prog σ ω α} (h : ∀ x a, Only P (body x a)) (xs : List β)
    (a : α) : Only P (forEach body xs a) := by
  induction xs generalizing a with
  | nil => trivial
  | cons x xs ih => exact only_bind (h x a) ih

/-- Of a weaker property of the writes. -/
theorem only_mono {P' : ω → Prop} {p : Prog σ ω α} (h : Only P p) (hP : ∀ w, P w → P' w) :
    Only P' p := by
  induction p with
  | ret a => trivial
  | abort => trivial
  | read k ih => exact fun s => ih s (h s)
  | write w k ih => exact ⟨hP w h.1, ih h.2⟩

/-- A program on one part of a store, as a program on the whole of it: it reads through `view`,
    and `wrap` makes its writes the whole's. -/
def zoom {τ ω' : Type} (view : τ → σ) (wrap : ω → ω') : Prog σ ω α → Prog τ ω' α
  | ret a => ret a
  | abort => abort
  | read k => read fun t => (k (view t)).zoom view wrap
  | write w k => write (wrap w) (k.zoom view wrap)

/-- A program on a part of the store wraps all of its writes. -/
theorem only_zoom {τ ω' : Type} {P : ω' → Prop} (view : τ → σ) {wrap : ω → ω'}
    (h : ∀ w, P (wrap w)) (p : Prog σ ω α) : Only P (p.zoom view wrap) := by
  induction p with
  | ret a => trivial
  | abort => trivial
  | read k ih => exact fun t => ih (view t)
  | write w k ih => exact ⟨h w, ih⟩

/-- Wherever such a program gets, only writes with the property have been appended, and the store
    is the replay of the log. -/
theorem Only.wp_log {p : Prog σ ω α} (h : Only P p) (apply : ω → σ → σ) (s₀ : σ)
    (log : List ω) :
    Prog.wp apply
      (fun w s l => P w ∧ s = replay apply s₀ l ∧ ∃ ws, l = log ++ ws ∧ ∀ w ∈ ws, P w)
      (fun _ s l => s = replay apply s₀ l ∧ ∃ ws, l = log ++ ws ∧ ∀ w ∈ ws, P w)
      p (replay apply s₀ log) log := by
  have hfrom : ∀ (ws : List ω), (∀ w ∈ ws, P w) → Prog.wp apply
      (fun w s l => P w ∧ s = replay apply s₀ l ∧ ∃ ws, l = log ++ ws ∧ ∀ w ∈ ws, P w)
      (fun _ s l => s = replay apply s₀ l ∧ ∃ ws, l = log ++ ws ∧ ∀ w ∈ ws, P w)
      p (replay apply s₀ (log ++ ws)) (log ++ ws) := by
    induction p with
    | ret a => exact fun ws hws => ⟨rfl, ws, rfl, hws⟩
    | abort => exact fun _ _ => trivial
    | read k ih => exact fun ws hws => ih _ (h _) ws hws
    | write w k ih =>
      intro ws hws
      refine ⟨⟨h.1, rfl, ws, rfl, hws⟩, ?_⟩
      rw [← replay_concat apply s₀ (log ++ ws) w, List.append_assoc]
      refine ih h.2 (ws ++ [w]) fun v hv => ?_
      rcases List.mem_append.mp hv with hv | hv
      · exact hws v hv
      · exact List.mem_singleton.mp hv ▸ h.1
  simpa using hfrom [] (by simp)

/-- Such a program meets the property as a guard, from any store and any log. -/
theorem Only.wp {p : Prog σ ω α} (h : Only P p) (apply : ω → σ → σ) (s : σ) (log : List ω) :
    Prog.wp apply (fun w _ _ => P w) (fun _ _ _ => True) p s log := by
  induction p generalizing s log with
  | ret a => trivial
  | abort => trivial
  | read k ih => exact ih s (h s) s log
  | write w k ih => exact ⟨h.1, ih h.2 _ _⟩

end Prog

/-! ### Guarded logs -/

/-- Every write of `log`, replayed from `s₀`, met its guard.  A history of any number of programs
    is one such log. -/
inductive Guarded (apply : ω → σ → σ) (G : ω → σ → List ω → Prop) (s₀ : σ) : List ω → Prop where
  | nil : Guarded apply G s₀ []
  | concat {log : List ω} {w : ω} (h : Guarded apply G s₀ log)
      (hw : G w (replay apply s₀ log) log) : Guarded apply G s₀ (log ++ [w])

variable {apply : ω → σ → σ} {G : ω → σ → List ω → Prop} {s₀ : σ}

/-- A guarded log was guarded up to its last write, and that write was allowed in the store it
    found. -/
theorem Guarded.of_concat {log : List ω} {w : ω} (h : Guarded apply G s₀ (log ++ [w])) :
    Guarded apply G s₀ log ∧ G w (replay apply s₀ log) log := by
  generalize hl : log ++ [w] = l at h
  cases h with
  | nil => simp at hl
  | concat h hw =>
    obtain ⟨rfl, hcons⟩ := List.append_inj' hl rfl
    obtain rfl : w = _ := (List.cons.inj hcons).1
    exact ⟨h, hw⟩

/-- A prefix of a guarded log is guarded, so what every write keeps held at every time before. -/
theorem Guarded.of_append {l₁ l₂ : List ω} (h : Guarded apply G s₀ (l₁ ++ l₂)) :
    Guarded apply G s₀ l₁ := by
  induction l₂ using List.reverseRecOn with
  | nil => simpa using h
  | append_singleton l₂ w ih =>
    rw [← List.append_assoc] at h
    exact ih h.of_concat.1

/-- Writes that meet their guard anywhere keep a log guarded, however many there are. -/
theorem Guarded.append {log ws : List ω} (h : Guarded apply G s₀ log)
    (hws : ∀ w ∈ ws, ∀ s log, G w s log) : Guarded apply G s₀ (log ++ ws) := by
  induction ws using List.reverseRecOn with
  | nil => simpa using h
  | append_singleton ws w ih =>
    rw [← List.append_assoc]
    refine (ih fun v hv => hws v (List.mem_append_left _ hv)).concat ?_
    exact hws w (List.mem_append_right _ (List.mem_singleton_self w)) _ _

/-- **Invariant rule.** A stable assertion that holds initially holds after every guarded log, by
    induction on the log. -/
theorem Guarded.invariant {P : σ → List ω → Prop} {log : List ω} (h : Guarded apply G s₀ log)
    (hP : Stable apply G P) (hinit : P s₀ []) : P (replay apply s₀ log) log := by
  induction h with
  | nil => exact hinit
  | concat _ hw ih =>
    rw [replay_concat]
    exact hP _ _ _ hw ih

namespace Prog

/-- The store of a run is the replay of its log, also where the run was cut short. -/
theorem run_store (p : Prog σ ω α) (n : Nat) {log : List ω} :
    (p.run apply n (replay apply s₀ log) log).store
      = replay apply s₀ (p.run apply n (replay apply s₀ log) log).log := by
  induction p generalizing n log with
  | ret a => rfl
  | abort => rfl
  | read k ih => exact ih _ n
  | write w k ih =>
    cases n with
    | zero => rfl
    | succ n =>
      simp only [run]
      rw [← replay_concat apply s₀ log w]
      exact ih n

/-- Every write a run appends was issued where its guard holds, at the log it was appended to. -/
theorem run_issued {Q : α → σ → List ω → Prop} {p : Prog σ ω α} (n : Nat) {s : σ}
    {log : List ω} (hwp : wp apply G Q p s log) :
    ∃ ws, (p.run apply n s log).log = log ++ ws ∧
      ∀ ws₁ w ws₂, ws = ws₁ ++ w :: ws₂ → ∃ s', G w s' (log ++ ws₁) := by
  have hnone : ∀ ws₁ (w : ω) ws₂, [] ≠ ws₁ ++ w :: ws₂ := fun _ _ _ h =>
    List.append_ne_nil_of_right_ne_nil _ (List.cons_ne_nil _ _) h.symm
  induction p generalizing n s log with
  | ret a => exact ⟨[], (List.append_nil log).symm, fun _ _ _ h => absurd h (hnone _ _ _)⟩
  | abort => exact ⟨[], (List.append_nil log).symm, fun _ _ _ h => absurd h (hnone _ _ _)⟩
  | read k ih => exact ih s n hwp
  | write v k ih =>
    cases n with
    | zero => exact ⟨[], (List.append_nil log).symm, fun _ _ _ h => absurd h (hnone _ _ _)⟩
    | succ n =>
      obtain ⟨ws, hlog, hws⟩ := ih n hwp.2
      refine ⟨v :: ws, by rw [run, hlog, List.append_assoc, List.singleton_append], ?_⟩
      intro ws₁ w ws₂ hsplit
      cases ws₁ with
      | nil =>
        obtain ⟨rfl, -⟩ := List.cons.inj hsplit
        exact ⟨s, by simpa using hwp.1⟩
      | cons v' ws₁ =>
        obtain ⟨rfl, hrest⟩ := List.cons.inj hsplit
        obtain ⟨s', hs'⟩ := hws ws₁ w ws₂ hrest
        exact ⟨s', by simpa using hs'⟩

/-- If every write of a program has a property, a run appends writes with that property and
    leaves what was there. -/
theorem run_appends {P : ω → Prop} {Q : α → σ → List ω → Prop} {p : Prog σ ω α} (n : Nat) {s : σ}
    {log : List ω} (hwp : wp apply (fun w _ _ => P w) Q p s log) :
    ∃ ws, (p.run apply n s log).log = log ++ ws ∧ ∀ w ∈ ws, P w := by
  obtain ⟨ws, hlog, hws⟩ := run_issued n hwp
  refine ⟨ws, hlog, fun w hw => ?_⟩
  obtain ⟨ws₁, ws₂, hsplit⟩ := List.append_of_mem hw
  obtain ⟨_, hw⟩ := hws ws₁ w ws₂ hsplit
  exact hw

/-- A program whose writes change nothing where it starts leaves the store, however far it gets. -/
theorem run_unchanged {Q : α → σ → List ω → Prop} {p : Prog σ ω α} (n : Nat) {s : σ}
    {log : List ω} (hwp : wp apply (fun w _ _ => apply w s = s) Q p s log) :
    (p.run apply n s log).store = s := by
  induction p generalizing n log with
  | ret a => rfl
  | abort => rfl
  | read k ih => exact ih s n hwp
  | write w k ih =>
    cases n with
    | zero => rfl
    | succ n =>
      obtain ⟨hw, hrest⟩ := hwp
      rw [hw] at hrest
      rw [run, hw]
      exact ih n hrest

/-- A run that finishes ends in the postcondition.  A run that was cut short has no value and
    promises none. -/
theorem run_ends {Q : α → σ → List ω → Prop} {p : Prog σ ω α} (n : Nat) {s : σ} {log : List ω}
    (hwp : wp apply G Q p s log) {a : α} (hvalue : (p.run apply n s log).value = some a) :
    Q a (p.run apply n s log).store (p.run apply n s log).log := by
  induction p generalizing n s log with
  | ret b =>
    obtain rfl : b = a := Option.some.inj hvalue
    exact hwp
  | abort => cases hvalue
  | read k ih => exact ih s n hwp hvalue
  | write w k ih =>
    cases n with
    | zero => cases hvalue
    | succ n => exact ih n hwp.2 hvalue

/-- Where a program ends, some run of it ends: on a budget that is large enough for its writes. -/
theorem wp_ends (p : Prog σ ω α) (s : σ) (log : List ω) :
    wp apply (fun _ _ _ => True) (fun a s' log' => ∃ n, p.run apply n s log = ⟨s', log', some a⟩) p
      s log := by
  induction p generalizing s log with
  | ret a => exact ⟨0, rfl⟩
  | abort => trivial
  | read k ih => exact ih s s log
  | write w k ih =>
    refine ⟨trivial, wp_post (ih (apply w s) (log ++ [w])) ?_⟩
    rintro a s' log' ⟨n, hrun⟩
    exact ⟨n + 1, hrun⟩

/-- **Soundness.**  However far a run gets, its log stays guarded, and if it finishes it ends in
    the postcondition. -/
theorem run_guarded {Q : α → σ → List ω → Prop} {p : Prog σ ω α} (n : Nat) {log : List ω}
    (hlog : Guarded apply G s₀ log) (hwp : wp apply G Q p (replay apply s₀ log) log) :
    Guarded apply G s₀ (p.run apply n (replay apply s₀ log) log).log ∧
      ∀ a, (p.run apply n (replay apply s₀ log) log).value = some a →
        Q a (p.run apply n (replay apply s₀ log) log).store
          (p.run apply n (replay apply s₀ log) log).log := by
  induction p generalizing n log with
  | ret a =>
    refine ⟨hlog, fun b hb => ?_⟩
    obtain rfl : a = b := Option.some.inj hb
    exact hwp
  | abort => exact ⟨hlog, fun b hb => by cases hb⟩
  | read k ih => exact ih _ n hlog hwp
  | write w k ih =>
    cases n with
    | zero => exact ⟨hlog, fun b hb => by cases hb⟩
    | succ n =>
      obtain ⟨hw, hwp⟩ := hwp
      rw [← replay_concat apply s₀ log w] at hwp
      simp only [run]
      rw [← replay_concat apply s₀ log w]
      exact ih n (hlog.concat hw) hwp

end Prog

end Durable
