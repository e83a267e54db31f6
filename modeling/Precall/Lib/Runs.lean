import Mathlib.Data.List.Induction

namespace Runs

/-!
# Runs of a deterministic machine

A machine is a step function from states and inputs to states; a run folds it over a list of
inputs.

* `AtSteps step P s is` — `P` holds of every state of a run and the input that meets it;
  `atSteps_iff` says so by where the run is cut;
* `run_invariant`, `run_invariant_of` — what every step preserves, every run preserves; in the
  second form the step may use that its input meets a condition;
* `run_related` — machines that every step keeps related stay related;
* `prefixes_iff` — if under a property of an input list one more input keeps it exactly on a
  condition, then it holds of every prefix exactly if each input met the condition;
* `run_iff` — if a property is kept exactly by the steps that meet a condition, it holds at the
  end of a run exactly if every step met it.
-/

variable {σ ι : Type} (step : σ → ι → σ)

/-- The state a run ends in.  A machine is its step function; a run is a list of inputs. -/
def run (s : σ) (inputs : List ι) : σ := inputs.foldl step s

/-- No input, no step. -/
@[simp] theorem run_nil (s : σ) : run step s [] = s := rfl

/-- A run steps on its first input and goes on from there. -/
@[simp] theorem run_cons (s : σ) (i : ι) (inputs : List ι) :
    run step s (i :: inputs) = run step (step s i) inputs := rfl

/-- A run on two lists of inputs, one after the other. -/
theorem run_append (s : σ) (before after : List ι) :
    run step s (before ++ after) = run step (run step s before) after := List.foldl_append

/-- `P` holds at every step of a run, of the state before it and its input.  Conditions that a
    claim sets on a run are of this form. -/
def AtSteps (P : σ → ι → Prop) : σ → List ι → Prop
  | _, [] => True
  | s, i :: inputs => P s i ∧ AtSteps P (step s i) inputs

/-- Whether a property holds at all steps of a run can be computed along the run. -/
instance AtSteps.decidable (P : σ → ι → Prop) [∀ s i, Decidable (P s i)] :
    ∀ s inputs, Decidable (AtSteps step P s inputs)
  | _, [] => isTrue trivial
  | s, i :: inputs =>
    have := AtSteps.decidable P (step s i) inputs
    inferInstanceAs (Decidable (_ ∧ _))

variable {step} {I Q : σ → Prop} {P P' : σ → ι → Prop}

/-- Every step of a run is one where the run can be cut, and the state there is the one that the
    first part ends in. -/
theorem atSteps_iff {s : σ} {inputs : List ι} :
    AtSteps step P s inputs ↔
      ∀ before i after, inputs = before ++ i :: after → P (run step s before) i := by
  induction inputs generalizing s with
  | nil =>
    refine iff_of_true trivial fun before i after h => ?_
    exact absurd h.symm (List.append_ne_nil_of_right_ne_nil before (List.cons_ne_nil i after))
  | cons j inputs ih =>
    rw [AtSteps, ih]
    constructor
    · rintro ⟨hj, hrest⟩ before i after h
      cases before with
      | nil =>
        obtain ⟨rfl, -⟩ := List.cons.inj h
        exact hj
      | cons b before =>
        obtain ⟨rfl, hsplit⟩ := List.cons.inj h
        exact hrest before i after hsplit
    · intro h
      exact ⟨h [] j inputs rfl, fun before i after heq => h (j :: before) i after (heq ▸ rfl)⟩

/-- What every step preserves holds at the end of every run, by induction on its inputs. -/
theorem run_invariant (hstep : ∀ s i, I s → I (step s i)) {s : σ} (hs : I s) (inputs : List ι) :
    I (run step s inputs) := by
  induction inputs generalizing s with
  | nil => exact hs
  | cons i inputs ih => exact ih (hstep s i hs)

/-- What every step under a condition preserves holds at the end of every run whose steps meet
    it. -/
theorem run_invariant_of (hstep : ∀ s i, I s → P s i → I (step s i)) {s : σ} (hs : I s)
    {inputs : List ι} (hP : AtSteps step P s inputs) : I (run step s inputs) := by
  induction inputs generalizing s with
  | nil => exact hs
  | cons i inputs ih => exact ih (hstep s i hs hP.1) hP.2

/-- **Simulation.**  Two machines that every input keeps related stay related over every run. -/
theorem run_related {τ : Type} {step' : τ → ι → τ} {R : σ → τ → Prop}
    (hstep : ∀ s t i, R s t → R (step s i) (step' t i)) {s : σ} {t : τ} (h : R s t)
    (inputs : List ι) : R (run step s inputs) (run step' t inputs) := by
  induction inputs generalizing s t with
  | nil => exact h
  | cons i inputs ih => exact ih (hstep s t i h)

/-- A weaker condition, under an invariant of the stronger one: the comparison may use what holds
    in every state. -/
theorem AtSteps.mono_of (hstep : ∀ s i, I s → P s i → I (step s i))
    (hmono : ∀ s i, I s → P s i → P' s i) {s : σ} (hs : I s) {inputs : List ι}
    (hP : AtSteps step P s inputs) : AtSteps step P' s inputs := by
  induction inputs generalizing s with
  | nil => trivial
  | cons i inputs ih => exact ⟨hmono s i hs hP.1, ih (hstep s i hs hP.1) hP.2⟩

/-- If every step keeps `Q` exactly when it meets a condition, `Q` survives exactly the runs all of
    whose steps meet it. -/
theorem run_iff (hstep : ∀ s i, I s → I (step s i))
    (hkeep : ∀ s i, I s → (Q (step s i) ↔ Q s ∧ P s i)) {s : σ} (hs : I s) (inputs : List ι) :
    Q (run step s inputs) ↔ Q s ∧ AtSteps step P s inputs := by
  induction inputs generalizing s with
  | nil => simp [AtSteps]
  | cons i inputs ih =>
    rw [run_cons, ih (hstep s i hs), hkeep s i hs, and_assoc]
    rfl

/-- If one more input keeps `P` exactly on a condition, `P` holds of every prefix of the inputs
    exactly if each of them met it after those before. -/
theorem prefixes_iff {P : List ι → Prop} {Q : List ι → ι → Prop} (hnil : P [])
    (hconcat : ∀ inputs i, P inputs → (P (inputs ++ [i]) ↔ Q inputs i)) (inputs : List ι) :
    (∀ seen, seen <+: inputs → P seen) ↔
      ∀ before i, before ++ [i] <+: inputs → Q before i := by
  induction inputs using List.reverseRecOn with
  | nil =>
    refine iff_of_true (fun seen h => ?_) fun before i h => ?_
    · rw [List.prefix_nil.mp h]
      exact hnil
    · simp at h
  | append_singleton inputs i ih =>
    constructor
    · intro h before j hbefore
      rw [List.prefix_concat_iff] at hbefore
      rcases hbefore with heq | hbefore
      · obtain ⟨rfl, hj⟩ := List.append_inj' heq rfl
        obtain rfl := List.singleton_inj.mp hj
        exact (hconcat before j (h before (List.prefix_append _ _))).mp (h _ (List.prefix_refl _))
      · have hearlier : ∀ seen, seen <+: inputs → P seen := fun seen hseen =>
          h seen (hseen.trans (List.prefix_append _ _))
        exact ih.mp hearlier before j hbefore
    · intro h seen hseen
      have hearlier := ih.mpr fun before j hbefore =>
        h before j (hbefore.trans (List.prefix_append _ _))
      rw [List.prefix_concat_iff] at hseen
      rcases hseen with rfl | hseen
      · exact (hconcat inputs i (hearlier inputs (List.prefix_refl _))).mpr
          (h inputs i (List.prefix_refl _))
      · exact hearlier seen hseen

end Runs
