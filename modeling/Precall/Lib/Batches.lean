import Mathlib.Data.Finset.Card
import Mathlib.Data.List.Pairwise
import Mathlib.Data.Finset.SDiff

namespace Batches

/-!
# Working off a backlog in batches

A queue is read as a sorted list and its first `n` entries are worked off.  Some entries are
*urgent*: whatever sorts at or before an urgent entry is urgent too.

* `urgent_taken` — a batch holds every urgent entry of the list, or is full of urgent ones;
* `card_round` — so a backlog of urgent entries that only loses members shrinks by a full batch,
  or to nothing.
-/

variable {α : Type}

/-- **What a batch takes.**  Either all urgent entries, or a full batch of urgent ones only. -/
theorem urgent_taken {le : α → α → Prop} {sorted : List α} (hsorted : sorted.Pairwise le)
    {urgent : α → Prop} (hurgent : ∀ c d, urgent c → le d c → urgent d) (n : Nat) :
    (∀ c ∈ sorted, urgent c → c ∈ sorted.take n) ∨
      ((∀ d ∈ sorted.take n, urgent d) ∧ (sorted.take n).length = n) := by
  by_contra hneither
  obtain ⟨hall, hfull⟩ := not_or.mp hneither
  push Not at hall
  obtain ⟨c, hc, hurg, hleft⟩ := hall
  -- an urgent entry is left over, so the batch is full and sorts before that entry
  have hsplit : sorted.take n ++ sorted.drop n = sorted := List.take_append_drop n sorted
  have hdrop : c ∈ sorted.drop n := by
    rw [← hsplit, List.mem_append] at hc
    exact hc.resolve_left hleft
  rw [← hsplit, List.pairwise_append] at hsorted
  refine hfull ⟨fun d hd => hurgent c d hurg (hsorted.2.2 d hd c hdrop), ?_⟩
  have hpos : 0 < (sorted.drop n).length := List.length_pos_of_mem hdrop
  rw [List.length_drop] at hpos
  rw [List.length_take]
  omega

/-- **A round.**  The backlog after a batch holds nothing new and nothing of the batch; so it is
    smaller by a full batch, or empty. -/
theorem card_round [DecidableEq α] {before after : Finset α} {taken : List α} {n : Nat}
    (hnodup : taken.Nodup) (hsub : after ⊆ before) (hgone : ∀ c ∈ after, c ∉ taken)
    (hbatch : (∀ c ∈ before, c ∈ taken) ∨ ((∀ d ∈ taken, d ∈ before) ∧ taken.length = n)) :
    after.card ≤ before.card - n := by
  rcases hbatch with hall | ⟨hurgent, hlength⟩
  · have hempty : after = ∅ := by
      refine Finset.eq_empty_of_forall_notMem fun c hc => ?_
      exact hgone c hc (hall c (hsub hc))
    rw [hempty, Finset.card_empty]
    exact Nat.zero_le _
  · have hbatch : taken.toFinset ⊆ before := fun d hd => hurgent d (List.mem_toFinset.mp hd)
    have hafter : after ⊆ before \ taken.toFinset := by
      intro c hc
      rw [Finset.mem_sdiff, List.mem_toFinset]
      exact ⟨hsub hc, hgone c hc⟩
    calc after.card ≤ (before \ taken.toFinset).card := Finset.card_le_card hafter
      _ = before.card - taken.toFinset.card := Finset.card_sdiff_of_subset hbatch
      _ = before.card - n := by rw [List.toFinset_card_of_nodup hnodup, hlength]

end Batches
