import Mathlib.Logic.Function.Basic
import Mathlib.Logic.Relation
import Precall.Lib.Knowledge

namespace Durable

/-!
# Processes over one store

Any number of processes read and write one durable store.  Each runs one program after another; a
step lets one of them read the store or commit its next write, and a process may break off and
start anew at any time.

* `Pool`, `Pool.Step`, `Pool.Reach` — what each process has still to do and the log so far; one
  step; what can be reached;
* `Pool.single` — all processes but one are foreign writers: what every log of that one process next
  to foreign writes has, every log of the pool has;
* `Pool.named` — if every program names only what it has seen or made, every write of the pool names
  something that is there;
* `Pool.only_log` — the log is made of what the programs may commit;
* `Pool.reach_run` — what a program leaves by itself can be reached.
-/

variable {ι σ ω α κ : Type} [DecidableEq ι]

/-- What each process has still to do, and what has been committed.  The store is not a field; it
    is the replay of the log. -/
structure Pool (ι σ ω α : Type) where
  todo : ι → Prog σ ω α
  log : List ω

/-- Nobody has started, and nothing has been committed. -/
def Pool.new : Pool ι σ ω α := ⟨fun _ => .abort, []⟩

namespace Pool

section
variable (apply : ω → σ → σ) (s₀ : σ) (Starts : ι → Prog σ ω α → Prop)

/-- One step of one process: it starts a program, breaking off what it was at, or makes its next
    read or write. -/
inductive Step : Pool ι σ ω α → Pool ι σ ω α → Prop where
  | start {pool : Pool ι σ ω α} (i : ι) (p : Prog σ ω α) (h : Starts i p) :
      Step pool ⟨Function.update pool.todo i p, pool.log⟩
  | read {pool : Pool ι σ ω α} (i : ι) {k : σ → Prog σ ω α} (h : pool.todo i = .read k) :
      Step pool ⟨Function.update pool.todo i (k (replay apply s₀ pool.log)), pool.log⟩
  | write {pool : Pool ι σ ω α} (i : ι) {w : ω} {k : Prog σ ω α} (h : pool.todo i = .write w k) :
      Step pool ⟨Function.update pool.todo i k, pool.log ++ [w]⟩

/-- What can be reached from the start, in any order of the processes' steps. -/
def Reach (pool : Pool ι σ ω α) : Prop := Relation.ReflTransGen (Step apply s₀ Starts) Pool.new pool

end

variable {apply : ω → σ → σ} {s₀ : σ} {Starts : ι → Prog σ ω α → Prop} {pool : Pool ι σ ω α}

/-- A property of all programs of a pool, after one of them has changed.  Every invariant of a
    pool is carried over a step by this. -/
theorem forall_update {todo : ι → Prog σ ω α} {P : ι → Prog σ ω α → Prop} {j : ι} {p : Prog σ ω α}
    (htodo : ∀ i, P i (todo i)) (hp : P j p) (i : ι) : P i (Function.update todo j p i) := by
  by_cases heq : i = j
  · subst heq
    rwa [Function.update_self]
  · rw [Function.update_of_ne heq]
    exact htodo i

/-! ### One process among the others -/

/-- Where a process stands: it has not begun, or what it still does completes an execution of one of
    its programs that started at a log with `R`. -/
def Standing (apply : ω → σ → σ) (Foreign : ω → Prop) (s₀ : σ) (Begins : Prog σ ω α → Prop)
    (R : List ω → Prop) (q : Prog σ ω α) (now : List ω) : Prop :=
  (q = .abort ∧ R now) ∨ ∃ p log, Begins p ∧ R log ∧
    ∀ log' r, Exec apply Foreign s₀ q now log' r → Exec apply Foreign s₀ p log log' r

namespace Standing

variable {Foreign : ω → Prop} {Begins : Prog σ ω α → Prop} {R : List ω → Prop} {now : List ω}

omit [DecidableEq ι] in
/-- Wherever a process stands, the log has the property: it had it where the process began, and
    an execution that is left off here keeps it. -/
theorem log {q : Prog σ ω α} (h : Standing apply Foreign s₀ Begins R q now)
    (hrun : ∀ log p log' r, R log → Begins p → Exec apply Foreign s₀ p log log' r → R log') :
    R now := by
  rcases h with ⟨-, hR⟩ | ⟨p, log, hp, hR, hcomplete⟩
  · exact hR
  · exact hrun log p now none hR hp (hcomplete _ _ (.stop _ _))

/-- A process that reads stands where what follows the read begins. -/
theorem read {k : σ → Prog σ ω α} (h : Standing apply Foreign s₀ Begins R (.read k) now) :
    Standing apply Foreign s₀ Begins R (k (replay apply s₀ now)) now := by
  rcases h with ⟨hidle, -⟩ | ⟨p, log, hp, hR, hcomplete⟩
  · cases hidle
  · exact Or.inr ⟨p, log, hp, hR, fun log' r hexec => hcomplete log' r (.read hexec)⟩

/-- A process that writes stands behind its write, at the longer log. -/
theorem write {w : ω} {k : Prog σ ω α} (h : Standing apply Foreign s₀ Begins R (.write w k) now) :
    Standing apply Foreign s₀ Begins R k (now ++ [w]) := by
  rcases h with ⟨hidle, -⟩ | ⟨p, log, hp, hR, hcomplete⟩
  · cases hidle
  · exact Or.inr ⟨p, log, hp, hR, fun log' r hexec => hcomplete log' r (.write hexec)⟩

/-- A write of another process is one that the execution meets, or one that comes before the
    process has begun. -/
theorem other {q : Prog σ ω α} (h : Standing apply Foreign s₀ Begins R q now) {w : ω}
    (hw : Foreign w) (hother : ∀ log, R log → R (log ++ [w])) :
    Standing apply Foreign s₀ Begins R q (now ++ [w]) := by
  rcases h with ⟨hidle, hR⟩ | ⟨p, log, hp, hR, hcomplete⟩
  · exact Or.inl ⟨hidle, hother now hR⟩
  · exact Or.inr ⟨p, log, hp, hR, fun log' r hexec => hcomplete log' r (.other w hw hexec)⟩

end Standing

/-- **One process at a time.**  If the others commit foreign writes only, a property of logs that
    foreign writes and executions of this one's programs preserve holds of every log. -/
theorem single {Foreign : ω → Prop} {R : List ω → Prop} (i : ι) (hnil : R [])
    (hother : ∀ log w, R log → Foreign w → R (log ++ [w]))
    (hrun : ∀ log p log' r, R log → Starts i p → Exec apply Foreign s₀ p log log' r → R log')
    (hothers : ∀ j p, j ≠ i → Starts j p → p.Only Foreign) (h : Reach apply s₀ Starts pool) :
    R pool.log := by
  suffices hall : (∀ j, j ≠ i → (pool.todo j).Only Foreign) ∧
      Standing apply Foreign s₀ (Starts i) R (pool.todo i) pool.log from hall.2.log hrun
  induction h with
  | refl => exact ⟨fun j _ => trivial, Or.inl ⟨rfl, hnil⟩⟩
  | @tail before _ _ hstep ih =>
    obtain ⟨honly, hstands⟩ := ih
    -- the process itself, after a step of the process `j`
    have hset : ∀ {j p log}, (j = i → Standing apply Foreign s₀ (Starts i) R p log) →
        (j ≠ i → Standing apply Foreign s₀ (Starts i) R (before.todo i) log) →
        Standing apply Foreign s₀ (Starts i) R (Function.update before.todo j p i) log := by
      intro j p log hself hne
      by_cases hj : j = i
      · subst hj
        rw [Function.update_self]
        exact hself rfl
      · rw [Function.update_of_ne (Ne.symm hj)]
        exact hne hj
    cases hstep with
    | start j p hp =>
      refine ⟨forall_update (P := fun j p => j ≠ i → p.Only Foreign) honly fun hj =>
        hothers j p hj hp, hset (fun hj => ?_) fun _ => hstands⟩
      subst hj
      exact Or.inr ⟨p, _, hp, hstands.log hrun, fun log' r hexec => hexec⟩
    | @read j k hk =>
      refine ⟨forall_update (P := fun j p => j ≠ i → p.Only Foreign) honly fun hj => ?_,
        hset (fun hj => ?_) fun _ => hstands⟩
      · have hread := honly j hj
        rw [hk] at hread
        exact hread _
      · subst hj
        rw [hk] at hstands
        exact hstands.read
    | @write j w k hk =>
      have hwrite : j ≠ i → Foreign w ∧ k.Only Foreign := by
        intro hj
        have hwrite := honly j hj
        rwa [hk] at hwrite
      refine ⟨forall_update (P := fun j p => j ≠ i → p.Only Foreign) honly fun hj =>
        (hwrite hj).2, hset (fun hj => ?_) fun hj => ?_⟩
      · subst hj
        rw [hk] at hstands
        exact hstands.write
      · exact hstands.other (hwrite hj).1 fun log hR => hother log w hR (hwrite hj).1

/-! ### Names -/

/-- **Every write of the pool names something that is there**, if every program names only what it
    has seen or made, and nothing is taken away. -/
theorem named {names makes : ω → Option κ} {seen : σ → κ → Prop}
    (hkeep : ∀ w s x, seen s x → seen (apply w s) x)
    (hmake : ∀ w s x, makes w = some x → seen (apply w s) x)
    (hstarts : ∀ i p, Starts i p → p.Names names makes seen fun _ => False)
    (h : Reach apply s₀ Starts pool) : Guarded apply (Named names seen) s₀ pool.log := by
  suffices hall : Guarded apply (Named names seen) s₀ pool.log ∧ ∀ i,
      (pool.todo i).Informed names makes seen (replay apply s₀ pool.log) from hall.1
  induction h with
  | refl => exact ⟨.nil, fun i => ⟨fun _ => False, trivial, fun _ hx => hx.elim⟩⟩
  | @tail before _ _ hstep ih =>
    obtain ⟨hguarded, hinformed⟩ := ih
    cases hstep with
    | start j p hp =>
      have hp : p.Informed names makes seen (replay apply s₀ before.log) :=
        ⟨_, hstarts j p hp, fun _ hx => hx.elim⟩
      exact ⟨hguarded, forall_update (P := fun _ p => p.Informed names makes seen _) hinformed hp⟩
    | @read j k hk =>
      have hread := hinformed j
      rw [hk] at hread
      exact ⟨hguarded, forall_update (P := fun _ p => p.Informed names makes seen _) hinformed
        hread.read⟩
    | @write j w k hk =>
      have hwrite := hinformed j
      rw [hk] at hwrite
      obtain ⟨hw, hrest⟩ := hwrite.write hkeep hmake before.log
      refine ⟨.concat hguarded hw, ?_⟩
      rw [replay_concat]
      exact forall_update (P := fun _ p => p.Informed names makes seen _)
        (fun i => (hinformed i).other hkeep w) hrest

/-! ### What is committed -/

/-- What all programs of a pool commit, its log is made of, by induction on the steps. -/
theorem only_log {P : ω → Prop} (hstarts : ∀ i p, Starts i p → p.Only P)
    (h : Reach apply s₀ Starts pool) : ∀ w ∈ pool.log, P w := by
  suffices hall : (∀ w ∈ pool.log, P w) ∧ ∀ i, (pool.todo i).Only P from hall.1
  induction h with
  | refl => exact ⟨fun w hw => absurd hw List.not_mem_nil, fun i => trivial⟩
  | @tail before _ _ hstep ih =>
    obtain ⟨hlog, honly⟩ := ih
    cases hstep with
    | start i p hp => exact ⟨hlog, forall_update (P := fun _ p => p.Only P) honly (hstarts i p hp)⟩
    | @read i k hk =>
      have hread := honly i
      rw [hk] at hread
      exact ⟨hlog, forall_update (P := fun _ p => p.Only P) honly (hread _)⟩
    | @write i w k hk =>
      have hwrite := honly i
      rw [hk] at hwrite
      refine ⟨fun v hv => ?_, forall_update (P := fun _ p => p.Only P) honly hwrite.2⟩
      rcases List.mem_append.mp hv with hv | hv
      · exact hlog v hv
      · rw [List.mem_singleton.mp hv]
        exact hwrite.1

/-! ### Undisturbed runs -/

/-- A process that is let alone gets as far as a run of what it has still to do, on any budget. -/
theorem reach_todo (i : ι) {p : Prog σ ω α} (n : Nat) {pool : Pool ι σ ω α}
    (h : Reach apply s₀ Starts pool) (hp : pool.todo i = p) :
    ∃ pool', Reach apply s₀ Starts pool' ∧
      pool'.log = (p.run apply n (replay apply s₀ pool.log) pool.log).log := by
  induction p generalizing n pool with
  | ret a => exact ⟨pool, h, rfl⟩
  | abort => exact ⟨pool, h, rfl⟩
  | read k ih =>
    have hnext : Reach apply s₀ Starts ⟨Function.update pool.todo i _, pool.log⟩ :=
      h.tail (.read i hp)
    obtain ⟨pool', h', hlog⟩ := ih _ n hnext (Function.update_self i _ _)
    exact ⟨pool', h', hlog⟩
  | write w k ih =>
    cases n with
    | zero => exact ⟨pool, h, rfl⟩
    | succ n =>
      have hnext : Reach apply s₀ Starts ⟨Function.update pool.todo i _, pool.log ++ [w]⟩ :=
        h.tail (.write i hp)
      obtain ⟨pool', h', hlog⟩ := ih n hnext (Function.update_self i _ _)
      refine ⟨pool', h', ?_⟩
      rw [hlog, replay_concat]
      rfl

/-- **A program that runs by itself**, as far as it gets: the pool reaches the log that its run
    leaves. -/
theorem reach_run (i : ι) {p : Prog σ ω α} (hp : Starts i p) (n : Nat)
    (h : Reach apply s₀ Starts pool) :
    ∃ pool', Reach apply s₀ Starts pool' ∧
      pool'.log = (p.run apply n (replay apply s₀ pool.log) pool.log).log := by
  have hstart : Reach apply s₀ Starts ⟨Function.update pool.todo i p, pool.log⟩ :=
    h.tail (.start i p hp)
  obtain ⟨pool', h', hlog⟩ := reach_todo i n hstart (Function.update_self i _ _)
  exact ⟨pool', h', hlog⟩

end Pool

end Durable
