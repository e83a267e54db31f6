import Mathlib.Data.List.Sort
import Mathlib.Data.List.TakeWhile
import Mathlib.Order.RelClasses

namespace SortLib

/-!
# Sorted lists

What insertion sort does to a list, by a comparison that is a total preorder or by any relation.

* `pairwise_insertionSort` — sorting by a comparison sorts;
* `isStrictWeakOrder_of_cmp`, `forall₂_tied_of_perm` — such a comparison is a strict weak order, and
  determines the sorted list up to ties;
* `countP_gt_of_mem_take`, `mem_take_insertionSort` — an element is certain to be behind the first
  `n` of a sorted list when `n` elements compare before it, and else may be among them;
* `behind_of_not_mem_take` — what the first `n` do not show is behind all of them;
* `filter_insertionSort` — sorting is stable, so that filtering before it is filtering after it.
-/

/-! ### The first of a sorted list -/

/-- What is not among the first `n` of a sorted list is behind `n` others. -/
theorem behind_of_not_mem_take {α : Type} {R : α → α → Prop} {sorted : List α} {n : Nat} {a : α}
    (hsorted : sorted.Pairwise R) (ha : a ∈ sorted) (hcut : a ∉ sorted.take n) :
    (sorted.take n).length = n ∧ ∀ b ∈ sorted.take n, R b a := by
  rw [← List.take_append_drop n sorted] at ha hsorted
  have hdrop : a ∈ sorted.drop n := (List.mem_append.mp ha).resolve_left hcut
  refine ⟨?_, fun b hb => (List.pairwise_append.mp hsorted).2.2 b hb a hdrop⟩
  have hlong : n < sorted.length := by
    by_contra hshort
    rw [List.drop_eq_nil_of_le (not_lt.mp hshort)] at hdrop
    cases hdrop
  rw [List.length_take, Nat.min_eq_left (le_of_lt hlong)]

/-! ### Sorting by a comparison -/

section
variable {α : Type}

/-- Comparing what a function reads of two elements, greatest first. -/
theorem transCmp_swap {β : Type} (cmp : β → β → Ordering) [Std.TransCmp cmp] (f : α → β) :
    Std.TransCmp fun a b => cmp (f b) (f a) where
  eq_swap := Std.OrientedCmp.eq_swap
  isLE_trans := fun hab hbc => Std.TransCmp.isLE_trans hbc hab

variable {cmp : α → α → Ordering}

/-- Sorting by a comparison puts nothing behind what it compares before. -/
theorem pairwise_insertionSort [Std.TransCmp cmp] (values : List α) :
    (values.insertionSort fun a b => cmp a b ≠ .gt).Pairwise fun a b => cmp a b ≠ .gt := by
  have htotal : Std.Total fun a b => cmp a b ≠ .gt := by
    constructor
    intro a b
    by_contra hboth
    push Not at hboth
    have hlt := Std.OrientedCmp.lt_of_gt hboth.1
    rw [hboth.2] at hlt
    cases hlt
  have htrans : IsTrans α fun a b => cmp a b ≠ .gt := by
    constructor
    intro a b c hab hbc
    exact Ordering.ne_gt_iff_isLE.mpr (Std.TransCmp.isLE_trans
      (Ordering.ne_gt_iff_isLE.mp hab) (Ordering.ne_gt_iff_isLE.mp hbc))
  exact List.pairwise_insertionSort _ _

/-- Fewer than `n` elements compare before one of the first `n`. -/
theorem countP_gt_of_mem_take [Std.ReflCmp cmp] {sorted : List α} {n : Nat} {a : α}
    (hsorted : sorted.Pairwise fun a b => cmp a b ≠ .gt) (ha : a ∈ sorted.take n) :
    sorted.countP (fun b => cmp a b = .gt) < n := by
  obtain ⟨before, behind, htake⟩ := List.append_of_mem ha
  have hlength : before.length < n := by
    have hle := List.length_take_le n sorted
    rw [htake, List.length_append, List.length_cons] at hle
    omega
  obtain ⟨rest, hrest⟩ : ∃ rest, sorted = before ++ a :: rest :=
    ⟨behind ++ sorted.drop n, by rw [← List.cons_append, ← List.append_assoc, ← htake,
      List.take_append_drop]⟩
  -- nothing from `a` on compares before it
  have htail : (a :: rest).countP (fun b => cmp a b = .gt) = 0 := by
    rw [List.countP_eq_zero]
    intro b hb
    rw [decide_eq_true_iff]
    rcases List.mem_cons.mp hb with rfl | hb
    · have hself : cmp b b = .eq := Std.ReflCmp.compare_self
      rw [hself]
      decide
    · rw [hrest, List.pairwise_append] at hsorted
      exact List.rel_of_pairwise_cons hsorted.2.1 hb
  rw [hrest, List.countP_append, htail, Nat.add_zero]
  exact lt_of_le_of_lt List.countP_le_length hlength

/-- An element handed out first is among the first `n` if fewer compare before it. -/
theorem mem_take_insertionSort {a : α} {rest : List α} {n : Nat}
    (h : rest.countP (fun b => cmp a b = .gt) < n) :
    a ∈ ((a :: rest).insertionSort fun a b => cmp a b ≠ .gt).take n := by
  have hpred : (fun b => decide ¬ cmp a b ≠ .gt) = fun b => decide (cmp a b = .gt) := by
    funext b
    simp
  rw [List.insertionSort_cons_eq_take_drop, hpred]
  -- only what compares before the element is put in front of it
  have hbefore : ((rest.insertionSort fun a b => cmp a b ≠ .gt).takeWhile
      fun b => cmp a b = .gt).length < n := by
    have hall : ∀ b ∈ (rest.insertionSort fun a b => cmp a b ≠ .gt).takeWhile
        (fun b => cmp a b = .gt), decide (cmp a b = .gt) = true :=
      fun b hb => List.mem_takeWhile_imp (p := fun b => decide (cmp a b = .gt)) hb
    rw [← List.countP_eq_length.mpr hall]
    refine lt_of_le_of_lt (List.takeWhile_sublist _).countP_le ?_
    rwa [(List.perm_insertionSort (fun a b => cmp a b ≠ .gt) rest).countP_eq]
  rw [List.take_append]
  refine List.mem_append_right _ ?_
  obtain ⟨k, hk⟩ := Nat.exists_eq_succ_of_ne_zero (Nat.sub_ne_zero_of_lt hbefore)
  rw [hk, List.take_succ_cons]
  exact List.mem_cons_self

variable [Std.TransCmp cmp]

variable (cmp) in
/-- A comparator finds a value equal to itself. -/
theorem cmp_self (a : α) : cmp a a = .eq := Std.ReflCmp.compare_self

/-- Coming strictly before is a strict weak order. -/
theorem isStrictWeakOrder_of_cmp : IsStrictWeakOrder α fun a b => cmp a b = .lt where
  irrefl a h := by
    rw [cmp_self cmp] at h
    cases h
  trans _ _ _ hab hbc := Std.TransCmp.lt_trans hab hbc
  incomp_trans a b c hab hbc := by
    have htied : ∀ {x y}, cmp x y ≠ .lt ∧ cmp y x ≠ .lt → cmp x y = .eq := by
      rintro x y ⟨hxy, hyx⟩
      cases h : cmp x y with
      | lt => exact absurd h hxy
      | eq => rfl
      | gt => exact absurd (Std.OrientedCmp.lt_of_gt h) hyx
    have htie : cmp a c = .eq := Std.TransCmp.eq_trans (htied hab) (htied hbc)
    rw [Std.OrientedCmp.eq_comm.mp htie, htie]
    exact ⟨nofun, nofun⟩

/-- What comes strictly before one of the first elements is in front of it. -/
theorem mem_before_of_lt {sorted front behind : List α} {n : Nat} {a b : α}
    (hsorted : sorted.Pairwise fun a b => cmp a b ≠ .gt) (ha : a ∈ sorted)
    (htake : sorted.take n = front ++ b :: behind) (hlt : cmp a b = .lt) : a ∈ front := by
  have hsplit : sorted = front ++ b :: (behind ++ sorted.drop n) := by
    rw [← List.cons_append, ← List.append_assoc, ← htake, List.take_append_drop]
  rw [hsplit] at ha hsorted
  rcases List.mem_append.mp ha with hfront | hrest
  · exact hfront
  have hbehind := (List.pairwise_cons.mp (List.pairwise_append.mp hsorted).2.1).1
  rcases List.mem_cons.mp hrest with rfl | hrest
  · rw [cmp_self cmp] at hlt
    cases hlt
  · exact absurd (Std.OrientedCmp.gt_of_lt hlt) (hbehind a hrest)

/-- **Sorted up to ties.**  Two sorted arrangements of the same values have tied values in every
    place. -/
theorem forall₂_tied_of_perm {l l' : List α} (hperm : l.Perm l')
    (hl : l.Pairwise fun a b => cmp a b ≠ .gt) (hl' : l'.Pairwise fun a b => cmp a b ≠ .gt) :
    List.Forall₂ (fun a b => cmp a b = .eq) l l' := by
  -- fewer elements compare before what stands in a place of one list than stand there in the other
  have hnot : ∀ {l l' : List α}, l.Perm l' → (l.Pairwise fun a b => cmp a b ≠ .gt) →
      (l'.Pairwise fun a b => cmp a b ≠ .gt) → ∀ i (hi : i < l.length) (hi' : i < l'.length),
      cmp l[i] l'[i] ≠ .lt := by
    intro l l' hperm hl hl' i hi hi' hlt
    have hfew := countP_gt_of_mem_take (n := i + 1) hl'
      (List.mem_take_iff_getElem.mpr ⟨i, by omega, rfl⟩ : l'[i] ∈ l'.take (i + 1))
    have hmany : i + 1 ≤ l.countP fun b => cmp l'[i] b = .gt := by
      have hall : (l.take (i + 1)).countP (fun b => decide (cmp l'[i] b = .gt)) = i + 1 := by
        rw [List.countP_eq_length.mpr]
        · exact List.length_take_of_le hi
        intro b hb
        obtain ⟨j, hj, rfl⟩ := List.mem_take_iff_getElem.mp hb
        have hle : cmp l[j] l[i] ≠ .gt := by
          rcases Nat.lt_or_ge j i with hji | hij
          · exact List.pairwise_iff_getElem.mp hl j i _ hi hji
          · obtain rfl : j = i := by omega
            rw [cmp_self cmp]
            decide
        rw [decide_eq_true_iff]
        exact Std.OrientedCmp.gt_of_lt (Std.TransCmp.lt_of_isLE_of_lt
          (Ordering.ne_gt_iff_isLE.mp hle) hlt)
      rw [← hall]
      exact (List.take_sublist _ _).countP_le
    rw [hperm.countP_eq] at hmany
    omega
  rw [List.forall₂_iff_get]
  refine ⟨hperm.length_eq, fun i hi hi' => ?_⟩
  show cmp l[i] l'[i] = .eq
  cases h : cmp l[i] l'[i] with
  | lt => exact absurd h (hnot hperm hl hl' i hi hi')
  | eq => rfl
  | gt => exact absurd (Std.OrientedCmp.lt_of_gt h) (hnot hperm.symm hl' hl i hi' hi)

end

/-! ### Sorting is stable -/

section
variable {α : Type}

/-- Relations that agree on a list sort it alike. -/
theorem insertionSort_congr {r r' : α → α → Prop} [DecidableRel r] [DecidableRel r'] {l : List α}
    (h : ∀ a ∈ l, ∀ b ∈ l, r a b ↔ r' a b) : l.insertionSort r = l.insertionSort r' := by
  have hmap := List.map_insertionSort r r' id l h
  rwa [List.map_id, List.map_id] at hmap

variable {r : α → α → Prop} [DecidableRel r]

/-- Filtering what an element was inserted into. -/
theorem filter_orderedInsert [IsTrans α r] (p : α → Bool) (a : α) {l : List α}
    (hl : l.Pairwise r) :
    (l.orderedInsert r a).filter p
      = if p a then (l.filter p).orderedInsert r a else l.filter p := by
  induction l with
  | nil =>
    rw [List.orderedInsert_nil, List.filter_cons]
    rfl
  | cons b l ih =>
    obtain ⟨hb, hl⟩ := List.pairwise_cons.mp hl
    by_cases hab : r a b
    · rw [List.orderedInsert_cons_of_le r l hab, List.filter_cons]
      by_cases ha : p a = true
      · -- what is kept behind `a` is related to `b`, so to `a`
        have hall : ∀ c ∈ (b :: l).filter p, r a c := by
          intro c hc
          rcases List.mem_cons.mp (List.mem_of_mem_filter hc) with rfl | hc
          · exact hab
          · exact IsTrans.trans a b c hab (hb c hc)
        rw [if_pos ha, if_pos ha]
        cases hkept : (b :: l).filter p with
        | nil => rfl
        | cons c kept =>
          rw [hkept] at hall
          exact (List.orderedInsert_cons_of_le r kept (hall c List.mem_cons_self)).symm
      · rw [if_neg ha, if_neg ha]
    · rw [List.orderedInsert_of_not_le r l hab, List.filter_cons, ih hl, List.filter_cons]
      by_cases ha : p a = true
      · rw [if_pos ha, if_pos ha]
        by_cases hp : p b = true
        · rw [if_pos hp, if_pos hp, List.orderedInsert_of_not_le r _ hab]
        · rw [if_neg hp, if_neg hp]
      · rw [if_neg ha, if_neg ha]

/-- **Stability.**  Filtering before sorting is filtering after it. -/
theorem filter_insertionSort [Std.Total r] [IsTrans α r] (p : α → Bool) (l : List α) :
    (l.insertionSort r).filter p = (l.filter p).insertionSort r := by
  induction l with
  | nil => rfl
  | cons a l ih =>
    rw [List.insertionSort_cons, filter_orderedInsert p a (List.pairwise_insertionSort r l), ih,
      List.filter_cons]
    by_cases ha : p a = true
    · rw [if_pos ha, if_pos ha, List.insertionSort_cons]
    · rw [if_neg ha, if_neg ha]

end

end SortLib
