import Mathlib.Algebra.Order.BigOperators.Group.List
import Mathlib.Algebra.Order.Monoid.Defs
import Precall.Lib.RankFusion

namespace FusionLib

/-!
# Fused scores that add exactly

Rank fusion over scores that form an ordered monoid.

* `fusedScore_eq_sum` — a key's score is the sum of what its ranks in the lists are worth;
* `Agrees` — every list that ranks one key ranks another at least as well;
* `Agrees.fusedScore_lt` — then the other's score is greater.
-/

/-! ### Scores -/

/-- Scores whose operations are those of an ordered monoid; a better rank is worth more, and every
    rank is worth something. -/
class ExactFusion (S : Type) [AddCommMonoid S] [LinearOrder S] [FusionArith S] : Prop where
  zero_eq : (FusionArith.zero : S) = 0
  add_eq : ∀ a b : S, FusionArith.add a b = a + b
  compare_eq : ∀ a b : S, FusionArith.compare a b = some (compare a b)
  contribution_pos : ∀ rank, (0 : S) < FusionArith.contribution rank
  contribution_anti : StrictAnti (FusionArith.contribution : Nat → S)

section
variable {κ S : Type} [DecidableEq κ] [FusionArith S]

variable (S) in
/-- The fused score of a key. -/
def fusedScore (legRanks : List (List κ)) (k : κ) : S :=
  ((reciprocalRankFusion legRanks).lookup k).getD FusionArith.zero

variable [AddCommMonoid S]

variable (S) in
/-- What a list adds to the score of a key. -/
def legScore (k : κ) (ids : List κ) : S :=
  if k ∈ ids then FusionArith.contribution (ids.idxOf k) else 0

variable [LinearOrder S] [ExactFusion S]

/-- One list, its ranks counted from `n`. -/
theorem lookup_addRanks {ids : List κ} (hids : ids.Nodup) (fused : AList fun _ : κ => S) (k : κ)
    (n : Nat) :
    (((ids.zipIdx n).foldl addRank fused).lookup k).getD FusionArith.zero
      = (fused.lookup k).getD FusionArith.zero
        + if k ∈ ids then FusionArith.contribution (n + ids.idxOf k) else 0 := by
  induction ids generalizing fused n with
  | nil => simp
  | cons x ids ih =>
    obtain ⟨hx, hids⟩ := List.nodup_cons.mp hids
    rw [List.zipIdx_cons, List.foldl_cons, ih hids]
    by_cases hk : k = x
    · subst hk
      rw [if_neg hx, if_pos List.mem_cons_self, List.idxOf_cons_self, add_zero, addRank,
        AList.lookup_insert]
      exact ExactFusion.add_eq _ _
    · rw [addRank, AList.lookup_insert_ne hk]
      by_cases hmem : k ∈ ids
      · rw [if_pos hmem, if_pos (List.mem_cons_of_mem x hmem),
          List.idxOf_cons_ne ids (Ne.symm hk), Nat.add_right_comm, Nat.add_assoc]
      · rw [if_neg hmem, if_neg (List.not_mem_cons_of_ne_of_not_mem hk hmem)]

/-- **Fused scores are sums.**  A key's score is the sum of what its ranks are worth. -/
theorem fusedScore_eq_sum {legRanks : List (List κ)} (hlegs : ∀ ids ∈ legRanks, ids.Nodup)
    (k : κ) : fusedScore S legRanks k = (legRanks.map (legScore S k)).sum := by
  have key : ∀ fused : AList fun _ : κ => S,
      ((legRanks.foldl (fun fused ids => ids.zipIdx.foldl addRank fused) fused).lookup k).getD
          FusionArith.zero
        = (fused.lookup k).getD FusionArith.zero + (legRanks.map (legScore S k)).sum := by
    induction legRanks with
    | nil => simp
    | cons ids legRanks ih =>
      intro fused
      obtain ⟨hids, hlegs⟩ := List.forall_mem_cons.mp hlegs
      rw [List.foldl_cons, ih hlegs, lookup_addRanks hids, List.map_cons, List.sum_cons,
        Nat.zero_add, add_assoc]
      rfl
  have hempty : ((∅ : AList fun _ : κ => S).lookup k).getD FusionArith.zero = (0 : S) := by
    rw [AList.lookup_empty]
    exact ExactFusion.zero_eq
  rw [fusedScore, reciprocalRankFusion, key, hempty, zero_add]

omit [LinearOrder S] [ExactFusion S] in
/-- Only the lists that contain the key count. -/
theorem sum_legScore (legRanks : List (List κ)) (k : κ) :
    (legRanks.map (legScore S k)).sum
      = ((legRanks.filter fun ids => k ∈ ids).map fun ids =>
          FusionArith.contribution (ids.idxOf k)).sum := by
  induction legRanks with
  | nil => rfl
  | cons ids legRanks ih =>
    rw [List.map_cons, List.sum_cons, ih, legScore, List.filter_cons]
    by_cases hk : k ∈ ids
    · rw [if_pos hk, if_pos (decide_eq_true hk), List.map_cons, List.sum_cons]
    · rw [if_neg hk, if_neg (mt of_decide_eq_true hk), zero_add]

/-- Every list that ranks `b` ranks `a` no worse; and one ranks it better, or ranks `a` alone. -/
structure Agrees (legRanks : List (List κ)) (a b : κ) : Prop where
  noWorse : ∀ ids ∈ legRanks, b ∈ ids → a ∈ ids ∧ ids.idxOf a ≤ ids.idxOf b
  better : (∃ ids ∈ legRanks, b ∈ ids ∧ ids.idxOf a < ids.idxOf b) ∨
    ∃ ids ∈ legRanks, a ∈ ids ∧ b ∉ ids

omit [LinearOrder S] [ExactFusion S] [AddCommMonoid S] [FusionArith S] in
/-- Some list ranks `a`. -/
theorem Agrees.ranked {legRanks : List (List κ)} {a b : κ} (h : Agrees legRanks a b) :
    ∃ ids ∈ legRanks, a ∈ ids := by
  rcases h.better with ⟨ids, hids, hb, -⟩ | ⟨ids, hids, ha, -⟩
  · exact ⟨ids, hids, (h.noWorse ids hids hb).1⟩
  · exact ⟨ids, hids, ha⟩

/-- **Agreement.**  If all lists agree that `a` comes before `b`, then `a` has the greater
    score. -/
theorem Agrees.fusedScore_lt [IsOrderedCancelAddMonoid S] {legRanks : List (List κ)} {a b : κ}
    (hlegs : ∀ ids ∈ legRanks, ids.Nodup) (h : Agrees legRanks a b) :
    fusedScore S legRanks b < fusedScore S legRanks a := by
  have hpos := ExactFusion.contribution_pos (S := S)
  have hanti := ExactFusion.contribution_anti (S := S)
  rw [fusedScore_eq_sum hlegs, fusedScore_eq_sum hlegs]
  refine List.sum_lt_sum _ _ (fun ids hids => ?_) ?_
  · by_cases hb : b ∈ ids
    · obtain ⟨ha, hle⟩ := h.noWorse ids hids hb
      rw [legScore, legScore, if_pos hb, if_pos ha]
      exact hanti.antitone hle
    · rw [legScore, if_neg hb, legScore]
      split
      · exact (hpos _).le
      · exact le_refl _
  · rcases h.better with ⟨ids, hids, hb, hlt⟩ | ⟨ids, hids, ha, hb⟩
    · refine ⟨ids, hids, ?_⟩
      rw [legScore, legScore, if_pos hb, if_pos (h.noWorse ids hids hb).1]
      exact hanti hlt
    · refine ⟨ids, hids, ?_⟩
      rw [legScore, legScore, if_neg hb, if_pos ha]
      exact hpos _

end

end FusionLib
