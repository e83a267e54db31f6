import Mathlib.Data.List.Sort

namespace PagingLib

/-!
# Pages under a cursor

Rows read in descending order of a key, a page at a time: each page holds at most `limit` of the
rows whose key is strictly below the cursor, and the last key of a page is the next cursor.  Keys
may repeat, and the order among equal keys is whatever the engine makes it.

* `Descending key` — an engine's `ORDER BY key DESC`; `Descending.preferring` — any of the rows
  with the largest key may come first;
* `Descending.pages` — all pages, until one is empty;
* `CleanCuts` — no two equal keys meet at a page boundary;
* `pagedOut` — reading pages ends, and gives some of the rows in descending order, each at most
  once, and all of them exactly if the cuts are clean.
-/

variable {α κ : Type} [LinearOrder κ] {key : α → κ}

/-- `ORDER BY key DESC`: the rows by descending keys.  Among equal keys the order may be any, and
    depend on the limit. -/
structure Descending (key : α → κ) where
  arrange : Nat → List α → List α
  perm : ∀ limit rows, (arrange limit rows).Perm rows
  sorted : ∀ limit rows, (arrange limit rows).Pairwise fun a b => key b ≤ key a

/-- An engine that prefers one row: among the largest keys it comes first. -/
def Descending.preferring [DecidableEq α] (o : Descending key) (a : α) : Descending key where
  arrange limit rows :=
    if a ∈ rows ∧ ∀ b ∈ rows, key b ≤ key a then a :: o.arrange limit (rows.erase a)
    else o.arrange limit rows
  perm limit rows := by
    split
    · rename_i h
      exact ((o.perm limit (rows.erase a)).cons a).trans (List.perm_cons_erase h.1).symm
    · exact o.perm limit rows
  sorted limit rows := by
    split
    · rename_i h
      refine List.Pairwise.cons (fun b hb => ?_) (o.sorted limit (rows.erase a))
      exact h.2 b (List.mem_of_mem_erase ((o.perm limit _).mem_iff.mp hb))
    · exact o.sorted limit rows

/-- One page: the first `limit` rows below the cursor.  Which of the rows with equal keys come
    first is the engine's choice. -/
def Descending.page (o : Descending key) (rows : List α) (limit : Nat) (before : κ) : List α :=
  (o.arrange limit (rows.filter fun a => key a < before)).take limit

/-- Page after page, each below the last key of the one before, until a page is empty; `none` if
    `fuel` pages were not enough. -/
def Descending.pages (o : Descending key) (rows : List α) (limit : Nat) :
    Nat → κ → Option (List α)
  | 0, _ => none
  | fuel + 1, before =>
      let page := o.page rows limit before
      match page.getLast? with
      | none => some []
      | some last => (o.pages rows limit fuel (key last)).map (page ++ ·)

/-- The keys of some rows in descending order. -/
def descendingKeys (key : α → κ) (rows : List α) : List κ :=
  (rows.map key).insertionSort (· ≥ ·)

/-- Cut into pages of `limit`, a descending list has different keys on the two sides of every
    cut. -/
def CleanCuts (limit : Nat) (keys : List κ) : Prop :=
  ∀ k a b, keys[(k + 1) * limit - 1]? = some a → keys[(k + 1) * limit]? = some b → b < a

/-! ### Descending keys -/

/-- Rows that are permutations of each other have the same descending keys. -/
theorem descendingKeys_perm {rows rows' : List α} (h : rows.Perm rows') :
    descendingKeys key rows = descendingKeys key rows' := by
  refine List.Perm.eq_of_pairwise' (r := (· ≥ ·)) (List.pairwise_insertionSort _ _)
    (List.pairwise_insertionSort _ _) ?_
  exact (List.perm_insertionSort _ _).trans ((h.map key).trans (List.perm_insertionSort _ _).symm)

/-- Rows in descending order have their keys in descending order. -/
theorem descendingKeys_of_sorted {rows : List α} (h : rows.Pairwise fun a b => key b ≤ key a) :
    descendingKeys key rows = rows.map key :=
  List.Pairwise.insertionSort_eq (List.pairwise_map.mpr h)

/-- The first cut is clean and so are those of the rest.  Reading page by page recurs in the same
    way. -/
theorem cleanCuts_iff {limit : Nat} (hlimit : 1 ≤ limit) (keys : List κ) :
    CleanCuts limit keys ↔
      (∀ a b, keys[limit - 1]? = some a → keys[limit]? = some b → b < a) ∧
        CleanCuts limit (keys.drop limit) := by
  have hshift : ∀ k, limit + ((k + 1) * limit - 1) = (k + 1 + 1) * limit - 1 ∧
      limit + (k + 1) * limit = (k + 1 + 1) * limit := by
    intro k
    have hpos : 1 ≤ (k + 1) * limit := Nat.mul_pos (Nat.succ_pos k) hlimit
    rw [Nat.add_mul (k + 1) 1 limit, Nat.one_mul]
    omega
  constructor
  · intro h
    refine ⟨by simpa using h 0, fun k a b ha hb => ?_⟩
    rw [List.getElem?_drop, (hshift k).1] at ha
    rw [List.getElem?_drop, (hshift k).2] at hb
    exact h (k + 1) a b ha hb
  · rintro ⟨hfirst, hrest⟩ k a b ha hb
    cases k with
    | zero => exact hfirst a b (by simpa using ha) (by simpa using hb)
    | succ k =>
      refine hrest k a b ?_ ?_
      · rwa [List.getElem?_drop, (hshift k).1]
      · rwa [List.getElem?_drop, (hshift k).2]

/-! ### One page -/

/-- The last key of a page is its least, and the cursor of the next page. -/
theorem last_le_of_mem_page {s : List α} (hs : s.Pairwise fun a b => key b ≤ key a) {limit : Nat}
    {last : α} (hlast : (s.take limit).getLast? = some last) :
    ∀ a ∈ s.take limit, key last ≤ key a := by
  obtain ⟨front, hfront⟩ := List.getLast?_eq_some_iff.mp hlast
  have hpage := hs.sublist (List.take_sublist limit s)
  rw [hfront] at hpage ⊢
  intro a ha
  rcases List.mem_append.mp ha with ha | ha
  · exact (List.pairwise_append.mp hpage).2.2 a ha last (List.mem_singleton_self last)
  · rw [List.mem_singleton.mp ha]

/-- **What one page leaves**: with `c` the last key of a non-empty page of descending rows `s`, the
    rows below `c` are among those after the page, and all of them exactly if the cut is clean. -/
theorem filter_below_last {s : List α} (hs : s.Pairwise fun a b => key b ≤ key a) {limit : Nat}
    {last : α} (hlast : (s.take limit).getLast? = some last) :
    s.filter (fun a => key a < key last) = (s.drop limit).filter (fun a => key a < key last) ∧
    ((s.drop limit).filter (fun a => key a < key last) = s.drop limit ↔
      ∀ b, (s.drop limit).head? = some b → key b < key last) := by
  have hparts : s = s.take limit ++ s.drop limit := (List.take_append_drop limit s).symm
  have htail := hs.sublist (List.drop_sublist limit s)
  constructor
  · have hnone : (s.take limit).filter (fun a => key a < key last) = [] := by
      rw [List.filter_eq_nil_iff]
      intro a ha
      simpa using last_le_of_mem_page hs hlast a ha
    conv_lhs => rw [hparts]
    rw [List.filter_append, hnone, List.nil_append]
  · rw [List.filter_eq_self]
    constructor
    · intro h b hb
      simpa using h b (List.mem_of_mem_head? hb)
    · intro h b hb
      cases htl : s.drop limit with
      | nil => rw [htl] at hb; cases hb
      | cons c rest =>
        have hc : key c < key last := h c (by rw [htl]; rfl)
        rw [htl] at hb htail
        rcases List.mem_cons.mp hb with rfl | hb
        · simpa using hc
        · have hle : key b ≤ key c := (List.pairwise_cons.mp htail).1 b hb
          simpa using lt_of_le_of_lt hle hc

/-- The cut after the first page in terms of the rows: the last key of the page and the first key
    behind it. -/
theorem firstCut_iff {s : List α} {limit : Nat} (hlimit : 1 ≤ limit) {last : α}
    (hlast : (s.take limit).getLast? = some last) :
    (∀ a b, (s.map key)[limit - 1]? = some a → (s.map key)[limit]? = some b → b < a) ↔
      ∀ b, (s.drop limit).head? = some b → key b < key last := by
  have hhead : (s.drop limit).head? = s[limit]? := by rw [List.head?_drop]
  -- with something behind the page, the page is full and its last row is row `limit - 1`
  have hfull : ∀ b, s[limit]? = some b → s[limit - 1]? = some last := by
    intro b hb
    have hlen : limit < s.length := (List.getElem?_eq_some_iff.mp hb).1
    rw [List.getLast?_take, if_neg (by omega)] at hlast
    have hin : limit - 1 < s.length := by omega
    rw [List.getElem?_eq_getElem hin] at hlast ⊢
    simpa using hlast
  rw [hhead]
  simp only [List.getElem?_map, Option.map_eq_some_iff]
  constructor
  · intro h b hb
    exact h (key last) (key b) ⟨last, hfull b hb, rfl⟩ ⟨b, hb, rfl⟩
  · rintro h _ _ ⟨a, ha, rfl⟩ ⟨b, hb, rfl⟩
    rw [hfull b hb] at ha
    cases ha
    exact h b hb

/-- The rows below the next cursor are among those behind the page; the others behind it tie with
    its last row. -/
theorem perm_below_last {rows s : List α} {before : κ} {limit : Nat} {last : α}
    (hperm : s.Perm (rows.filter fun a => key a < before))
    (hs : s.Pairwise fun a b => key b ≤ key a) (hlast : (s.take limit).getLast? = some last) :
    (rows.filter fun a => key a < key last).Perm
      ((s.drop limit).filter fun a => key a < key last) := by
  have hmem : last ∈ s := List.mem_of_mem_take (List.mem_of_getLast? hlast)
  have hlt : key last < before := by
    have hrow := List.mem_filter.mp (hperm.subset hmem)
    simpa using hrow.2
  have hfilter : rows.filter (fun a => key a < key last) =
      (rows.filter fun a => key a < before).filter fun a => key a < key last := by
    rw [List.filter_filter]
    refine List.filter_congr fun a _ => ?_
    by_cases ha : key a < key last
    · simp [ha, ha.trans hlt]
    · simp [ha]
  rw [hfilter, ← (filter_below_last hs hlast).1]
  exact (hperm.filter _).symm

/-! ### All pages -/

/-- What reading pages below a cursor amounts to: it ends, in order, without a row twice, and
    completely if no cut falls between equal keys. -/
structure PagedOut (o : Descending key) (rows : List α) (limit : Nat) (before : κ)
    (out : List α) : Prop where
  /-- Reading ends, within one page more than there are rows. -/
  ends : ∀ fuel, (rows.filter fun a => key a < before).length < fuel →
    o.pages rows limit fuel before = some out
  /-- Newest first. -/
  sorted : out.Pairwise fun a b => key b ≤ key a
  /-- Rows below the cursor, none of them twice. -/
  subperm : out.Subperm (rows.filter fun a => key a < before)
  /-- All of them exactly if the cuts are clean. -/
  complete : out.Perm (rows.filter fun a => key a < before) ↔
    CleanCuts limit (descendingKeys key (rows.filter fun a => key a < before))

/-- Everything that a reader is shown lies below the key it started from. -/
theorem PagedOut.below {o : Descending key} {rows out : List α} {limit : Nat} {before : κ}
    (h : PagedOut o rows limit before out) : ∀ b ∈ out, key b < before := fun b hb => by
  simpa using (List.mem_filter.mp (h.subperm.subset hb)).2

/-- A page and what the pages after it give are all the rows exactly if the cuts are clean. -/
theorem PagedOut.complete_page {o : Descending key} {rows s out : List α} {limit : Nat}
    (hlimit : 1 ≤ limit) {before : κ} {last : α} (hout : PagedOut o rows limit (key last) out)
    (hperm : s.Perm (rows.filter fun a => key a < before))
    (hsorted : s.Pairwise fun a b => key b ≤ key a)
    (hlast : (s.take limit).getLast? = some last) :
    (s.take limit ++ out).Perm (rows.filter fun a => key a < before) ↔
      CleanCuts limit (descendingKeys key (rows.filter fun a => key a < before)) := by
  have hnext := perm_below_last hperm hsorted hlast
  have hwhole : (s.take limit ++ out).Perm (rows.filter fun a => key a < before) ↔
      out.Perm (s.drop limit) := by
    have hcancel : (s.take limit ++ out).Perm (s.take limit ++ s.drop limit) ↔
        out.Perm (s.drop limit) := List.perm_append_left_iff _
    rw [← hcancel, List.take_append_drop]
    exact ⟨fun h => h.trans hperm.symm, fun h => h.trans hperm⟩
  have hkeys : descendingKeys key (rows.filter fun a => key a < before) = s.map key := by
    rw [← descendingKeys_perm hperm, descendingKeys_of_sorted hsorted]
  -- the first cut is clean if everything behind the page is below its last key
  rw [hwhole, hkeys, cleanCuts_iff hlimit, firstCut_iff hlimit hlast,
    ← (filter_below_last hsorted hlast).2, ← List.map_drop,
    ← descendingKeys_of_sorted (hsorted.sublist (List.drop_sublist limit s))]
  constructor
  · intro h
    have hself : (s.drop limit).filter (fun a => key a < key last) = s.drop limit :=
      List.filter_eq_self.mpr fun a ha => by simpa using hout.below a (h.mem_iff.mpr ha)
    refine ⟨hself, ?_⟩
    rw [hself] at hnext
    rw [← descendingKeys_perm hnext]
    exact hout.complete.mp (h.trans hnext.symm)
  · rintro ⟨hself, hclean⟩
    rw [hself] at hnext
    rw [← descendingKeys_perm hnext] at hclean
    exact (hout.complete.mpr hclean).trans hnext

/-- **Reading pages ends**, and gives every row below the cursor exactly if no two equal keys meet
    at a page boundary. -/
theorem pagedOut (o : Descending key) (rows : List α) {limit : Nat} (hlimit : 1 ≤ limit)
    (before : κ) : ∃ out, PagedOut o rows limit before out := by
  -- on the number of rows below the cursor: the next cursor has fewer
  induction hn : (rows.filter fun a => key a < before).length using Nat.strongRecOn
    generalizing before with
  | _ n ih =>
    generalize hs : o.arrange limit (rows.filter fun a => key a < before) = s
    have hperm : s.Perm (rows.filter fun a => key a < before) := hs ▸ o.perm limit _
    have hsorted : s.Pairwise fun a b => key b ≤ key a := hs ▸ o.sorted limit _
    have hpage : o.page rows limit before = s.take limit := by rw [Descending.page, hs]
    cases hlast : (s.take limit).getLast? with
    | none =>
      -- an empty page: there was nothing left
      have hnil : s = [] := by
        have htake := List.getLast?_eq_none_iff.mp hlast
        rcases List.take_eq_nil_iff.mp htake with h | h
        · omega
        · exact h
      have hempty : rows.filter (fun a => key a < before) = [] :=
        List.perm_nil.mp (hnil ▸ hperm).symm
      refine ⟨[], ⟨fun fuel hfuel => ?_, List.Pairwise.nil, List.nil_subperm, ?_⟩⟩
      · obtain ⟨fuel, rfl⟩ := Nat.exists_eq_succ_of_ne_zero (Nat.ne_of_gt (Nat.zero_lt_of_lt hfuel))
        rw [Descending.pages, hpage, hlast]
      · rw [hempty]
        refine iff_of_true (List.Perm.refl _) fun k a b ha _ => ?_
        simp [descendingKeys] at ha
    | some last =>
      have hnext := perm_below_last hperm hsorted hlast
      have hparts : s = s.take limit ++ s.drop limit := (List.take_append_drop limit s).symm
      have hne : 0 < (s.take limit).length :=
        List.length_pos_iff.mpr fun h => by rw [h] at hlast; cases hlast
      have hfewer : (rows.filter fun a => key a < key last).length < n := by
        have hlen := congrArg List.length hparts
        rw [List.length_append, hperm.length_eq, hn] at hlen
        have hle := List.length_filter_le (fun a => decide (key a < key last)) (s.drop limit)
        rw [hnext.length_eq]
        omega
      obtain ⟨out, hout⟩ := ih _ hfewer (key last) rfl
      refine ⟨s.take limit ++ out, ⟨fun fuel hfuel => ?_, ?_, ?_,
        hout.complete_page hlimit hperm hsorted hlast⟩⟩
      · obtain ⟨fuel, rfl⟩ := Nat.exists_eq_succ_of_ne_zero (Nat.ne_of_gt (Nat.zero_lt_of_lt hfuel))
        rw [Descending.pages, hpage, hlast]
        dsimp only
        rw [hout.ends fuel (by omega)]
        rfl
      · -- everything on the page is at least its last key, everything later below it
        refine List.pairwise_append.mpr ⟨hsorted.sublist (List.take_sublist _ _), hout.sorted, ?_⟩
        intro a ha b hb
        exact ((hout.below b hb).trans_le (last_le_of_mem_page hsorted hlast a ha)).le
      · have hrest : out.Subperm (s.drop limit) :=
          hout.subperm.trans (hnext.subperm.trans (List.filter_sublist).subperm)
        have happend : (s.take limit ++ out).Subperm (s.take limit ++ s.drop limit) :=
          (List.subperm_append_left _).mpr hrest
        rw [← hparts] at happend
        exact happend.trans hperm.subperm

end PagingLib
