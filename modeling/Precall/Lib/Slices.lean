import Precall.Lib.Pool

namespace Durable

/-!
# One part of a pool

A store made of parts, and processes each of which writes to some part and reads only what it
writes about.  Seen from one part, the other processes are not there: the writes about the part are
what a pool of its own leaves, in which the processes of other parts have never started.

* `Prog.Owned` — a program of the part: it writes about the part and reads nothing else;
* `Slices` — the second program does what the first one does about the part, and nothing else;
  `Slices.bind_owned`, `Slices.bind_aside` and `Slices.bind_last` compose it;
* `Pool.sliced` — a pool whose programs have slices leaves, about the part, what a pool of the
  slices leaves.
-/

variable {ι σ ω α β : Type} {mine : ω → Prop} {agree : σ → σ → Prop}

/-! ### Programs of the part -/

namespace Prog

/-- Every write is about the part, and a read sees the part only: stores that agree on it lead to
    the same continuation. -/
def Owned (mine : ω → Prop) (agree : σ → σ → Prop) : Prog σ ω α → Prop
  | ret _ => True
  | abort => True
  | read k => ∀ s, (k s).Owned mine agree ∧ ∀ s', agree s s' → k s = k s'
  | write w k => mine w ∧ k.Owned mine agree

/-- A value is no write, so it is the owner's as much as anyone's. -/
@[simp] theorem owned_pure (a : α) : (pure a : Prog σ ω α).Owned mine agree ↔ True := Iff.rfl

/-- A write is the owner's if it is one of the owner's writes. -/
@[simp] theorem owned_commit (w : ω) : (commit w : Prog σ ω Unit).Owned mine agree ↔ mine w :=
  and_iff_left trivial

/-- One after the other: both parts are the owner's, the second for every value of the first. -/
theorem owned_bind {p : Prog σ ω α} {f : α → Prog σ ω β} (hp : p.Owned mine agree)
    (hf : ∀ a, (f a).Owned mine agree) : (p >>= f).Owned mine agree := by
  show (p.bind f).Owned mine agree
  induction p with
  | ret a => exact hf a
  | abort => trivial
  | read k ih =>
    refine fun s => ⟨ih s (hp s).1, fun s' hagree => ?_⟩
    exact congrArg (fun q => Prog.bind q f) ((hp s).2 s' hagree)
  | write w k ih => exact ⟨hp.1, ih hp.2⟩

/-- A program on a store that is the part, or lies in it, reads only what states that agree have
    in common. -/
theorem owned_zoom {τ ω' : Type} {mine : ω' → Prop} {agree : τ → τ → Prop} {view : τ → σ}
    {wrap : ω → ω'} (hwrap : ∀ w, mine (wrap w)) (hview : ∀ t t', agree t t' → view t = view t')
    (p : Prog σ ω α) : (p.zoom view wrap).Owned mine agree := by
  induction p with
  | ret a => trivial
  | abort => trivial
  | read k ih =>
    refine fun t => ⟨ih (view t), fun t' hagree => ?_⟩
    exact congrArg (fun s => (k s).zoom view wrap) (hview t t' hagree)
  | write w k ih => exact ⟨hwrap w, ih⟩

end Prog

/-! ### Slices -/

/-- The second program commits what the first commits about the part, in order and with the same
    reads in between; what the first does aside from that, the second leaves out. -/
inductive Slices (mine : ω → Prop) (agree : σ → σ → Prop) : Prog σ ω α → Prog σ ω α → Prop where
  /-- From here on nothing concerns the part. -/
  | aside {p q : Prog σ ω α} (h : p.Only fun w => ¬ mine w) : Slices mine agree p q
  /-- Both read, and the stores they read agree on the part. -/
  | read {k k' : σ → Prog σ ω α} (h : ∀ s s', agree s s' → Slices mine agree (k s) (k' s')) :
      Slices mine agree (.read k) (.read k')
  /-- The first reads something else. -/
  | look {k : σ → Prog σ ω α} {q : Prog σ ω α} (h : ∀ s, Slices mine agree (k s) q) :
      Slices mine agree (.read k) q
  | write {w : ω} {k k' : Prog σ ω α} (hw : mine w) (h : Slices mine agree k k') :
      Slices mine agree (.write w k) (.write w k')
  /-- The first writes about something else. -/
  | skip {w : ω} {k q : Prog σ ω α} (hw : ¬ mine w) (h : Slices mine agree k q) :
      Slices mine agree (.write w k) q

namespace Slices

/-- A program of the part stays as it is in front of slices.  What follows may depend on its
    value, which is the same on either side. -/
theorem bind_owned {p : Prog σ ω α} {f g : α → Prog σ ω β} (hp : p.Owned mine agree)
    (h : ∀ a, Slices mine agree (f a) (g a)) : Slices mine agree (p >>= f) (p >>= g) := by
  show Slices mine agree (p.bind f) (p.bind g)
  induction p with
  | ret a => exact h a
  | abort => exact .aside trivial
  | read k ih =>
    refine .read fun s s' hagree => ?_
    show Slices mine agree ((k s).bind f) ((k s').bind g)
    rw [← (hp s).2 s' hagree]
    exact ih s (hp s).1
  | write w k ih => exact .write hp.1 (ih hp.2)

/-- A program aside from the part is left out of the slice, whatever value it goes on with. -/
theorem bind_aside {p : Prog σ ω α} {f : α → Prog σ ω β} {q : Prog σ ω β}
    (hp : p.Only fun w => ¬ mine w) (h : ∀ a, Slices mine agree (f a) q) :
    Slices mine agree (p >>= f) q := by
  show Slices mine agree (p.bind f) q
  induction p with
  | ret a => exact h a
  | abort => exact .aside trivial
  | read k ih => exact .look fun s => ih s (hp s)
  | write w k ih => exact .skip hp.1 (ih hp.2)

/-- What follows aside from the part does not matter, in either program.  Failures and reports at
    the end of a pass are such. -/
theorem bind_last {p q : Prog σ ω α} {f g : α → Prog σ ω β} (h : Slices mine agree p q)
    (hf : ∀ a, (f a).Only fun w => ¬ mine w) : Slices mine agree (p >>= f) (q >>= g) := by
  induction h with
  | aside honly => exact .aside (Prog.only_bind honly hf)
  | read _ ih => exact .read ih
  | look _ ih => exact .look ih
  | write hw _ ih => exact .write hw ih
  | skip hw _ ih => exact .skip hw ih

/-! What a step of the first program means for the second. -/

/-- A slice of a read is a slice of what follows it, or reads as well; then the two go on alike
    from stores that look the same to the owner. -/
theorem of_read {k : σ → Prog σ ω α} {q : Prog σ ω α} (h : Slices mine agree (.read k) q)
    {s s' : σ} (hagree : agree s s') :
    Slices mine agree (k s) q ∨ ∃ k', q = .read k' ∧ Slices mine agree (k s) (k' s') := by
  cases h with
  | aside honly => exact Or.inl (.aside (honly s))
  | read h => exact Or.inr ⟨_, rfl, h s s' hagree⟩
  | look h => exact Or.inl (h s)

/-- A slice makes every write of the owner, in its place: the write comes first there too. -/
theorem of_write {w : ω} {k q : Prog σ ω α} (h : Slices mine agree (.write w k) q) (hw : mine w) :
    ∃ k', q = .write w k' ∧ Slices mine agree k k' := by
  cases h with
  | aside honly => exact absurd hw honly.1
  | write _ h => exact ⟨_, rfl, h⟩
  | skip hother _ => exact absurd hw hother

/-- It makes no other write: behind it the rest is sliced by the same program. -/
theorem of_skip {w : ω} {k q : Prog σ ω α} (h : Slices mine agree (.write w k) q)
    (hw : ¬ mine w) : Slices mine agree k q := by
  cases h with
  | aside honly => exact .aside honly.2
  | write hmine _ => exact absurd hmine hw
  | skip _ h => exact h

end Slices

/-! ### Pools -/

section
variable [DecidableEq ι] [DecidablePred mine] {apply : ω → σ → σ} {s₀ : σ}
  {Starts Starts' : ι → Prog σ ω α → Prop} {pool : Pool ι σ ω α}

/-- The first pool and the slice of it that the second is.  The second log is what the first says
    about the part, and the processes are sliced one by one. -/
structure Pool.SlicedBy (mine : ω → Prop) [DecidablePred mine] (agree : σ → σ → Prop)
    (apply : ω → σ → σ) (s₀ : σ) (pool pool' : Pool ι σ ω α) : Prop where
  log : pool'.log = pool.log.filter mine
  stores : agree (replay apply s₀ pool.log) (replay apply s₀ pool'.log)
  todo : ∀ i, Slices mine agree (pool.todo i) (pool'.todo i)

namespace Pool

omit [DecidablePred mine] in
/-- Both pools let the same process do something.  The others are sliced as before. -/
theorem slices_update {pool pool' : Pool ι σ ω α} {p p' : Prog σ ω α} (i : ι)
    (h : ∀ j, Slices mine agree (pool.todo j) (pool'.todo j)) (hp : Slices mine agree p p')
    (j : ι) :
    Slices mine agree (Function.update pool.todo i p j) (Function.update pool'.todo i p' j) := by
  by_cases heq : j = i
  · subst heq
    rw [Function.update_self, Function.update_self]
    exact hp
  · rw [Function.update_of_ne heq, Function.update_of_ne heq]
    exact h j

omit [DecidablePred mine] in
/-- Only the first pool does, and the slice waits.  The process that moved is still sliced by
    what its slice has left. -/
theorem slices_update_left {pool pool' : Pool ι σ ω α} {p : Prog σ ω α} (i : ι)
    (h : ∀ j, Slices mine agree (pool.todo j) (pool'.todo j))
    (hp : Slices mine agree p (pool'.todo i)) (j : ι) :
    Slices mine agree (Function.update pool.todo i p j) (pool'.todo j) := by
  have hboth := slices_update i h hp j
  rwa [Function.update_eq_self] at hboth

/-- **One step.** The slice makes the same step, or waits: a write of the owner is made on both
    sides, any other on one. -/
theorem SlicedBy.step {pool next pool' : Pool ι σ ω α}
    (hmine : ∀ w s s', mine w → agree s s' → agree (apply w s) (apply w s'))
    (hother : ∀ w s s', ¬ mine w → agree s s' → agree (apply w s) s')
    (hstarts : ∀ i p, Starts i p →
      (p.Only fun w => ¬ mine w) ∨ ∃ p', Starts' i p' ∧ Slices mine agree p p')
    (h : SlicedBy mine agree apply s₀ pool pool') (hstep : Step apply s₀ Starts pool next) :
    ∃ next', Relation.ReflTransGen (Step apply s₀ Starts') pool' next' ∧
      SlicedBy mine agree apply s₀ next next' := by
  cases hstep with
  | start i p hp =>
    rcases hstarts i p hp with honly | ⟨p', hp', hslice⟩
    · -- nobody of the part comes, and what the process still had to do stays undone
      exact ⟨pool', .refl, h.log, h.stores, slices_update_left i h.todo (.aside honly)⟩
    · exact ⟨_, .single (.start i p' hp'), h.log, h.stores, slices_update i h.todo hslice⟩
  | @read i k hk =>
    have hslice := h.todo i
    rw [hk] at hslice
    rcases hslice.of_read h.stores with hwait | ⟨k', hk', hread⟩
    · exact ⟨pool', .refl, h.log, h.stores, slices_update_left i h.todo hwait⟩
    · exact ⟨_, .single (.read i hk'), h.log, h.stores, slices_update i h.todo hread⟩
  | @write i w k hk =>
    have hslice := h.todo i
    rw [hk] at hslice
    by_cases hw : mine w
    · obtain ⟨k', hk', hrest⟩ := hslice.of_write hw
      refine ⟨_, .single (.write i hk'), ?_, ?_, slices_update i h.todo hrest⟩
      · have hone : [w].filter mine = [w] := List.filter_eq_self.mpr (by simpa using hw)
        rw [List.filter_append, hone, ← h.log]
      · rw [replay_concat, replay_concat]
        exact hmine w _ _ hw h.stores
    · refine ⟨pool', .refl, ?_, ?_, slices_update_left i h.todo (hslice.of_skip hw)⟩
      · have hnone : [w].filter mine = [] := List.filter_eq_nil_iff.mpr (by simpa using hw)
        rw [List.filter_append, hnone, List.append_nil]
        exact h.log
      · rw [replay_concat]
        exact hother w _ _ hw h.stores

/-- **A part by itself.**  If every program that may start is aside from the part or has a slice
    that may start in the second pool, then about the part a pool of the first kind leaves what a
    pool of the second kind leaves. -/
theorem sliced (hstart : agree s₀ s₀)
    (hmine : ∀ w s s', mine w → agree s s' → agree (apply w s) (apply w s'))
    (hother : ∀ w s s', ¬ mine w → agree s s' → agree (apply w s) s')
    (hstarts : ∀ i p, Starts i p →
      (p.Only fun w => ¬ mine w) ∨ ∃ p', Starts' i p' ∧ Slices mine agree p p')
    (h : Reach apply s₀ Starts pool) :
    ∃ pool', Reach apply s₀ Starts' pool' ∧ SlicedBy mine agree apply s₀ pool pool' := by
  induction h with
  | refl => exact ⟨Pool.new, .refl, rfl, hstart, fun i => .aside trivial⟩
  | tail _ hstep ih =>
    obtain ⟨pool', hreach, hsliced⟩ := ih
    obtain ⟨next', hsteps, hnext⟩ := hsliced.step hmine hother hstarts hstep
    exact ⟨next', hreach.trans hsteps, hnext⟩

end Pool

end

end Durable
