import Mathlib.Data.List.Pairwise
import Mathlib.Order.Lattice
import Mathlib.Order.Basic

namespace FollowingLib

/-!
# Following a growing list

Rows are appended with ever larger keys.  A follower remembers a position, a key; each time it
looks it takes the first rows beyond its position, at most so many, and moves to the last of them.

* `beyond` — the rows past a position; `reach` — the position after taking some rows;
* `Follows` — what was taken, and what lies ahead, are together the rows past the start;
* `Follows.append`, `Follows.take` — the list grows, the follower takes: it still follows;
* `Follows.finished` — nothing ahead: all rows past the start were taken.
-/

variable {α κ : Type} [LinearOrder κ] (key : α → κ)

/-- The rows past a position, in the order they have.  A follower asks for the first few of
    these. -/
def beyond (rows : List α) (last : κ) : List α := rows.filter fun a => last < key a

/-- The position after some rows were taken: the largest key seen.  It does not depend on the
    rows arriving in order. -/
def reach (last : κ) (taken : List α) : κ := taken.foldl (fun m a => max m (key a)) last

variable {key} {rows taken : List α} {last start : κ} {a : α}

/-- Beyond a key lie the rows with a greater one. -/
theorem mem_beyond : a ∈ beyond key rows last ↔ a ∈ rows ∧ last < key a := by
  rw [beyond, List.mem_filter, decide_eq_true_iff]

/-- Rows that are added at the end are beyond a key, or not, on their own account; the earlier
    ones stay as they were. -/
theorem beyond_append (more : List α) :
    beyond key (rows ++ more) last = beyond key rows last ++ beyond key more last :=
  List.filter_append ..

/-- Nothing lies past a position that no row exceeds. -/
theorem beyond_eq_nil (h : ∀ a ∈ rows, key a ≤ last) : beyond key rows last = [] :=
  List.filter_eq_nil_iff.mpr fun a ha hlt => absurd (of_decide_eq_true hlt) (h a ha).not_gt

/-- Everything lies past a position that every row exceeds. -/
theorem beyond_eq_self (h : ∀ a ∈ rows, last < key a) : beyond key rows last = rows :=
  List.filter_eq_self.mpr fun a ha => decide_eq_true (h a ha)

/-- A follower never moves back, whatever rows it is given. -/
theorem le_reach : last ≤ reach key last taken := by
  induction taken generalizing last with
  | nil => exact le_refl last
  | cons a taken ih => exact (le_max_left last (key a)).trans ih

/-- It has moved past every row it took, so none of them is beyond its position. -/
theorem key_le_reach (h : a ∈ taken) : key a ≤ reach key last taken := by
  induction taken generalizing last with
  | nil => exact absurd h List.not_mem_nil
  | cons b taken ih =>
    rcases List.mem_cons.mp h with rfl | h
    · exact (le_max_right last (key a)).trans le_reach
    · exact ih h

/-- What lies past the old position and past all that was taken lies past the new one. -/
theorem reach_lt {bound : κ} (hlast : last < bound) (htaken : ∀ a ∈ taken, key a < bound) :
    reach key last taken < bound := by
  induction taken generalizing last with
  | nil => exact hlast
  | cons b taken ih =>
    obtain ⟨hb, hrest⟩ := List.forall_mem_cons.mp htaken
    exact ih (max_lt hlast hb) hrest

/-- **After taking the first rows beyond a position, the others are beyond the new one.** The
    keys must be in order. -/
theorem beyond_reach (hsorted : rows.Pairwise fun a b => key a < key b) (n : Nat) :
    beyond key rows (reach key last ((beyond key rows last).take n))
      = (beyond key rows last).drop n := by
  have hbeyond : (beyond key rows last).Pairwise fun a b => key a < key b := hsorted.filter _
  have hpast : ∀ a ∈ beyond key rows last, last < key a := fun a ha => (mem_beyond.mp ha).2
  -- only rows beyond the old position can be beyond the new one
  have hagain : beyond key rows (reach key last ((beyond key rows last).take n))
      = beyond key (beyond key rows last) (reach key last ((beyond key rows last).take n)) := by
    show _ = (rows.filter _).filter _
    rw [List.filter_filter]
    refine List.filter_congr fun a _ => ?_
    rw [Bool.eq_iff_iff, Bool.and_eq_true, decide_eq_true_iff, decide_eq_true_iff]
    exact ⟨fun h => ⟨h, le_reach.trans_lt h⟩, And.left⟩
  rw [hagain]
  generalize beyond key rows last = ahead at hbeyond hpast
  have hsplit : ahead = ahead.take n ++ ahead.drop n := (List.take_append_drop n ahead).symm
  have hordered : ∀ a ∈ ahead.take n, ∀ b ∈ ahead.drop n, key a < key b := by
    rw [hsplit, List.pairwise_append] at hbeyond
    exact hbeyond.2.2
  have htaken : beyond key (ahead.take n) (reach key last (ahead.take n)) = [] :=
    beyond_eq_nil fun a ha => key_le_reach ha
  have hrest : beyond key (ahead.drop n) (reach key last (ahead.take n)) = ahead.drop n := by
    refine beyond_eq_self fun b hb => ?_
    exact reach_lt (hpast b (List.mem_of_mem_drop hb)) fun a ha => hordered a ha b hb
  calc beyond key ahead (reach key last (ahead.take n))
      = beyond key (ahead.take n ++ ahead.drop n) (reach key last (ahead.take n)) := by
        rw [← hsplit]
    _ = ahead.drop n := by rw [beyond_append, htaken, hrest, List.nil_append]

/-! ### The follower -/

/-- A follower that started at `start` has taken some rows and stands at `last`.  What it has
    taken and what lies ahead make up all beyond its start. -/
structure Follows (key : α → κ) (start : κ) (rows : List α) (last : κ) (taken : List α) :
    Prop where
  start_le : start ≤ last
  split : taken ++ beyond key rows last = beyond key rows start

/-- A follower that has taken nothing is where it started. -/
theorem Follows.begin (key : α → κ) (start : κ) (rows : List α) :
    Follows key start rows start [] := ⟨le_refl start, rfl⟩

/-- A row is appended past the follower's position.  It lies ahead and will be taken in its turn. -/
theorem Follows.append (h : Follows key start rows last taken) (hnew : last < key a) :
    Follows key start (rows ++ [a]) last taken := by
  have hone : ∀ position, position < key a → beyond key [a] position = [a] :=
    fun position hlt => beyond_eq_self fun b hb => List.mem_singleton.mp hb ▸ hlt
  refine ⟨h.start_le, ?_⟩
  rw [beyond_append, beyond_append, hone last hnew, hone start (h.start_le.trans_lt hnew),
    ← List.append_assoc, h.split]

/-- The follower takes the next rows, at most as many as it asked for, and moves past them. -/
theorem Follows.take (h : Follows key start rows last taken)
    (hsorted : rows.Pairwise fun a b => key a < key b) (n : Nat) :
    Follows key start rows (reach key last ((beyond key rows last).take n))
      (taken ++ (beyond key rows last).take n) := by
  refine ⟨h.start_le.trans le_reach, ?_⟩
  rw [beyond_reach hsorted, List.append_assoc, List.take_append_drop, h.split]

/-- With nothing ahead, all was taken: each row beyond the start once, in order. -/
theorem Follows.finished (h : Follows key start rows last taken)
    (hahead : beyond key rows last = []) : taken = beyond key rows start := by
  rw [← h.split, hahead, List.append_nil]

/-- What was taken lies past the start. -/
theorem Follows.mem (h : Follows key start rows last taken) (ha : a ∈ taken) :
    a ∈ rows ∧ start < key a := by
  have hmem : a ∈ beyond key rows start := h.split ▸ List.mem_append_left _ ha
  exact mem_beyond.mp hmem

/-- What was taken was taken in order, and so no row twice. -/
theorem Follows.sorted (h : Follows key start rows last taken)
    (hsorted : rows.Pairwise fun a b => key a < key b) :
    taken.Pairwise fun a b => key a < key b := by
  have hall : (taken ++ beyond key rows last).Pairwise fun a b => key a < key b := by
    rw [h.split]
    exact hsorted.filter _
  exact (List.pairwise_append.mp hall).1

end FollowingLib
