import Mathlib.Data.List.AList
import Precall.Lib.Sorting

namespace FusionLib

open SortLib

/-!
# Fusing ranked lists

Several ranked lists of keys are fused into one score per key: every list adds what the rank of
the key in it is worth.  What a rank is worth, how contributions add up and how scores compare is
a parameter (`FusionArith`), so that the scores may be rationals or a machine's floats.

* `reciprocalRankFusion` — the fused scores, accumulated list by list as a hash map is;
* `mem_fusion` — the keys that have a score are those of the lists;
* `HashOrder` — the order in which a hash map hands out its values; `HashOrder.sorted_eq_iff` — when
  that order shows after sorting.
-/

/-- Scores: what the rank of a key is worth, counted from 0, and how scores add and compare. -/
class FusionArith (S : Type) where
  zero : S
  contribution : Nat → S
  add : S → S → S
  compare : S → S → Option Ordering

/-- An order in which a hash map hands out its values.  It may be any order of them. -/
structure HashOrder (α : Type) where
  arrange : List α → List α
  perm : ∀ values, (arrange values).Perm values

/-- The order of two scores; scores that do not compare count as equal, and so keep the order
    they come in. -/
def scoreOrder {S : Type} [FusionArith S] (a b : S) : Ordering :=
  (FusionArith.compare a b).getD .eq

/-! ### Fusion -/

section
variable {κ S : Type} [DecidableEq κ] [FusionArith S]

/-- One key of a list at its rank: what the rank is worth is added to the key's score so far. -/
def addRank (fused : AList fun _ : κ => S) (r : κ × Nat) : AList fun _ : κ => S :=
  fused.insert r.1
    (FusionArith.add ((fused.lookup r.1).getD FusionArith.zero) (FusionArith.contribution r.2))

/-- The fused scores of some ranked lists, added up list by list and rank by rank. -/
def reciprocalRankFusion (legRanks : List (List κ)) : AList fun _ : κ => S :=
  legRanks.foldl (fun fused ids => ids.zipIdx.foldl addRank fused) ∅

/-- What has a fused score after some ranks had one before, or is among them. -/
theorem mem_foldl_addRank {fused : AList fun _ : κ => S} {ranks : List (κ × Nat)} {k : κ} :
    k ∈ ranks.foldl addRank fused ↔ k ∈ fused ∨ k ∈ ranks.map Prod.fst := by
  induction ranks generalizing fused with
  | nil => simp
  | cons r ranks ih =>
    rw [List.foldl_cons, ih, addRank, AList.mem_insert, List.map_cons, List.mem_cons]
    tauto

/-- The keys that have a fused score are those of the lists: none is lost and none is made up. -/
theorem mem_fusion {legRanks : List (List κ)} {k : κ} :
    k ∈ (reciprocalRankFusion legRanks : AList fun _ : κ => S) ↔ ∃ ids ∈ legRanks, k ∈ ids := by
  have key : ∀ fused : AList fun _ : κ => S,
      k ∈ legRanks.foldl (fun fused ids => ids.zipIdx.foldl addRank fused) fused ↔
        k ∈ fused ∨ ∃ ids ∈ legRanks, k ∈ ids := by
    induction legRanks with
    | nil => simp
    | cons ids legRanks ih =>
      intro fused
      rw [List.foldl_cons, ih, mem_foldl_addRank, List.zipIdx_map_fst]
      simp only [List.mem_cons, exists_eq_or_imp, or_assoc]
  rw [reciprocalRankFusion, key]
  simp

end

/-! ### Sorting what a hash map hands out -/

section
variable {α : Type}

/-- The hash order that hands out a given value first. -/
def HashOrder.first [DecidableEq α] (a : α) : HashOrder α where
  arrange := fun values => if a ∈ values then a :: values.erase a else values
  perm := by
    intro values
    split
    · rename_i hmem
      exact (List.perm_cons_erase hmem).symm
    · exact List.Perm.refl _

variable {cmp : α → α → Ordering}

/-- The values of a hash map, sorted by a comparison that keeps what is equal in the order it
    came. -/
def HashOrder.sorted (order : HashOrder α) (cmp : α → α → Ordering) (values : List α) : List α :=
  (order.arrange values).insertionSort fun a b => cmp a b ≠ .gt

variable (cmp) in
/-- Sorting what a hash map yields loses nothing and adds nothing, in whatever order it comes. -/
theorem HashOrder.sorted_perm (order : HashOrder α) (values : List α) :
    (order.sorted cmp values).Perm values :=
  (List.perm_insertionSort _ _).trans (order.perm values)

variable (cmp) in
/-- An element handed out first stands behind what compares before it and in front of the rest. -/
theorem HashOrder.sorted_first [DecidableEq α] {values : List α} {a : α} (ha : a ∈ values) :
    ∃ before behind, (HashOrder.first a).sorted cmp values = before ++ a :: behind ∧
      ∀ b ∈ before, cmp a b = .gt := by
  have harrange : (HashOrder.first a).arrange values = a :: values.erase a := if_pos ha
  unfold HashOrder.sorted
  rw [harrange, List.insertionSort_cons_eq_take_drop]
  refine ⟨_, _, rfl, fun b hb => ?_⟩
  have hkept := List.mem_takeWhile_imp hb
  simpa using hkept

/-- **When the hash order does not show.**  The sorted values are the same for every hash order
    exactly if the comparison separates all values that are not equal. -/
theorem HashOrder.sorted_eq_iff [DecidableEq α] [Std.TransCmp cmp] (values : List α) :
    (∀ order order' : HashOrder α, order.sorted cmp values = order'.sorted cmp values) ↔
      ∀ a ∈ values, ∀ b ∈ values, cmp a b = .eq → a = b := by
  constructor
  · intro hsame a ha b hb htie
    obtain ⟨before, behind, hfirst, hbefore⟩ := HashOrder.sorted_first cmp ha
    obtain ⟨before', behind', hfirst', hbefore'⟩ := HashOrder.sorted_first cmp hb
    rw [hsame (HashOrder.first a) (HashOrder.first b), hfirst'] at hfirst
    -- neither stands among what compares before the other, so they share a place
    have hna : a ∉ before' := fun hmem => by
      have hgt := hbefore' a hmem
      rw [Std.OrientedCmp.eq_comm.mp htie] at hgt
      cases hgt
    have hnb : b ∉ before := fun hmem => by
      have hgt := hbefore b hmem
      rw [htie] at hgt
      cases hgt
    rcases List.append_eq_append_iff.mp hfirst with ⟨mid, hmid, hrest⟩ | ⟨mid, hmid, hrest⟩
    · cases mid with
      | nil => exact (List.cons.inj hrest).1.symm
      | cons c mid =>
        obtain rfl := (List.cons.inj hrest).1
        exact absurd (hmid ▸ List.mem_append_right _ List.mem_cons_self) hnb
    · cases mid with
      | nil => exact (List.cons.inj hrest).1
      | cons c mid =>
        obtain rfl := (List.cons.inj hrest).1
        exact absurd (hmid ▸ List.mem_append_right _ List.mem_cons_self) hna
  · intro hties order order'
    have hperm := (order.sorted_perm cmp values).trans (order'.sorted_perm cmp values).symm
    refine hperm.eq_of_pairwise ?_ (pairwise_insertionSort _) (pairwise_insertionSort _)
    intro a b ha hb hab hba
    refine hties a ((order.sorted_perm cmp values).mem_iff.mp ha) b
      ((order'.sorted_perm cmp values).mem_iff.mp hb) ?_
    cases hcmp : cmp a b with
    | eq => rfl
    | gt => exact absurd hcmp hab
    | lt => exact absurd (Std.OrientedCmp.gt_of_lt hcmp) hba

end

end FusionLib
