import Mathlib.Algebra.BigOperators.Group.Finset.Piecewise
import Mathlib.Algebra.Order.BigOperators.Group.Finset
import Mathlib.Data.Fintype.Card

namespace CensusLib

/-!
# Counting the members of a population

A population gives every place a state; `count p f` is the number of places whose state has a
property.  Changing the state of one place changes a count by what that place contributes
(`count_update`), so an equation between counts is kept by checking one place.
-/

variable {ι α : Type} [Fintype ι]

/-- The number of places whose state has a property. -/
def count (p : α → Bool) (f : ι → α) : Nat := ∑ i, (p (f i)).toNat

variable {p q : α → Bool} {f : ι → α} {i : ι}

/-- **One place changes.** -/
theorem count_update [DecidableEq ι] (p : α → Bool) (f : ι → α) (i : ι) (a : α) :
    count p (Function.update f i a) + (p (f i)).toNat = count p f + (p a).toNat := by
  have hupdate : (fun j => (p (Function.update f i a j)).toNat)
      = Function.update (fun j => (p (f j)).toNat) i (p a).toNat := by
    funext j
    by_cases hij : j = i
    · rw [hij, Function.update_self, Function.update_self]
    · rw [Function.update_of_ne hij, Function.update_of_ne hij]
  have hbefore : count p f = (p (f i)).toNat + ∑ j ∈ Finset.univ \ {i}, (p (f j)).toNat :=
    Finset.sum_eq_add_sum_sdiff_singleton_of_mem (Finset.mem_univ i) _
  have hafter : count p (Function.update f i a)
      = (p a).toNat + ∑ j ∈ Finset.univ \ {i}, (p (f j)).toNat := by
    rw [count, hupdate]
    exact Finset.sum_update_of_mem (Finset.mem_univ i) _ _
  omega

/-- A witness makes a count positive. -/
theorem count_pos (h : p (f i) = true) : 0 < count p f := by
  have hone : (p (f i)).toNat ≤ count p f :=
    Finset.single_le_sum (f := fun j => (p (f j)).toNat) (fun _ _ => Nat.zero_le _)
      (Finset.mem_univ i)
  rw [h] at hone
  exact hone

/-- Nothing that has the property: the count is zero, as it is when a system starts. -/
theorem count_eq_zero (h : ∀ i, p (f i) = false) : count p f = 0 :=
  Finset.sum_eq_zero fun i _ => by rw [h i]; rfl

/-- Properties that exclude each other, and the property of having one of them. -/
theorem count_or (h : ∀ a, (p a && q a) = false) :
    count (fun a => p a || q a) f = count p f + count q f := by
  rw [count, count, count, ← Finset.sum_add_distrib]
  refine Finset.sum_congr rfl fun i _ => ?_
  have hnot := h (f i)
  by_cases hp : p (f i) = true
  · rw [hp, Bool.true_and] at hnot
    rw [hp, hnot]
    rfl
  · rw [Bool.not_eq_true] at hp
    rw [hp, Bool.false_or, Bool.toNat_false, Nat.zero_add]

/-- Fewer than there are places, if one lacks the property. -/
theorem count_lt_card (h : p (f i) = false) : count p f < Fintype.card ι := by
  have hle : ∀ j ∈ Finset.univ, (p (f j)).toNat ≤ 1 := fun j _ => Bool.toNat_le _
  have hlt : (p (f i)).toNat < 1 := by rw [h]; exact Nat.one_pos
  have hsum := Finset.sum_lt_sum hle ⟨i, Finset.mem_univ i, hlt⟩
  rwa [← Finset.card_eq_sum_ones, Finset.card_univ] at hsum

end CensusLib
