import Precall.Lib.Sorting
import Precall.Store.Semantic

namespace Precall.Store

open ByteLib TableLib SortLib

/-!
# What a vector scan returns

`SemanticIndex::search` of `precall-store/src/semantic.rs` as the head of a ranking, for scores that
are numbers.

* `SiDb.ranking` — every scored vector, best first, ties in row order; `SiDb.search_eq` — a search
  returns its first `k`;
* `SiDb.ranking_allowed` — the ranking inside an allow-list is the complete ranking, filtered;
* `SiDb.search_filtered` — so are the results of a search.
-/

/-! ### Scores as keys -/

/-- Among numbers, not being less is being at least. -/
theorem F32.lt_eq_false_iff {a b : F32} (ha : F32.isNan a = false) (hb : F32.isNan b = false) :
    F32.lt a b = false ↔ F32.key b ≤ F32.key a := by
  simp only [F32.lt, ha, hb, Bool.not_false, Bool.true_and, decide_eq_false_iff_not, not_lt]

/-- Two numbers compare by their keys. -/
theorem F32.le_iff {a b : F32} (ha : F32.isNan a = false) (hb : F32.isNan b = false) :
    F32.le a b = true ↔ F32.key a ≤ F32.key b := by
  simp only [F32.le, ha, hb, Bool.not_false, Bool.true_and, decide_eq_true_eq]

/-- Of two numbers the greater is not at most the lesser. -/
theorem F32.le_eq_false_of_lt {a b : F32} (h : F32.lt a b = true) : F32.le b a = false := by
  simp only [F32.lt, Bool.and_eq_true, Bool.not_eq_true', decide_eq_true_eq] at h
  obtain ⟨⟨ha, hb⟩, hkey⟩ := h
  rw [Bool.eq_false_iff, ne_eq, F32.le_iff hb ha]
  exact not_le.mpr hkey

/-- Best first, by keys: a total preorder, which the order of the code is only among numbers. -/
def EmbeddingHit.before (a b : EmbeddingHit) : Prop := F32.key b.score ≤ F32.key a.score

instance : DecidableRel EmbeddingHit.before := fun a b =>
  inferInstanceAs (Decidable (F32.key b.score ≤ F32.key a.score))

instance : Std.Total EmbeddingHit.before where
  total a b := le_total (F32.key b.score) (F32.key a.score)

instance : IsTrans EmbeddingHit EmbeddingHit.before where
  trans _ _ _ hab hbc := le_trans hbc hab

/-! ### The ranking -/

section
variable [VectorArith]

/-- The hit of a scored vector. -/
def hitOf (query : List F32) (r : Searchable) : EmbeddingHit where
  itemId := r.itemId
  regionId := r.regionId
  score := VectorArith.cosine query (VectorArith.norm query) (bytesToF32s r.embedding)

namespace SiDb

/-- Every vector the scan scores, best first, ties in row order: what a search returns with no
    bound on their number. -/
def ranking (db : SiDb) (dim : Nat) (query : List F32) (allowed : Option (List Int)) :
    List EmbeddingHit :=
  ((db.scanned dim allowed).map (hitOf query)).insertionSort fun a b =>
    F32.lt a.score b.score = false

/-- No vector of the handle's width has a score that is not a number; then the comparison of the
    code is that of the keys. -/
def NumberScores (db : SiDb) (dim : Nat) (query : List F32) : Prop :=
  ∀ r ∈ db.searchable, (bytesToF32s r.embedding).length = dim →
    F32.isNan (hitOf query r).score = false

variable {db : SiDb} {dim : Nat} {query : List F32}

omit [VectorArith] in
/-- Nothing is inside an empty list. -/
theorem scanned_nil : db.scanned dim (some []) = [] := by
  refine List.filter_eq_nil_iff.mpr fun r _ => ?_
  rw [allowedItem]
  cases captureIdForItem r.itemId <;> simp

/-- For an empty list a search returns early: it has no candidates, so it does not read the file. -/
theorem search_empty (hquery : query.length = dim) (k : Nat) :
    db.search dim query k (some []) = .ok [] := by
  rw [search, if_neg (not_not.mpr hquery), if_pos rfl]

/-- A search returns the first hits of the ranking; the early return is no exception. -/
theorem search_eq (hquery : query.length = dim) (k : Nat) (allowed : Option (List Int)) :
    db.search dim query k allowed = .ok ((db.ranking dim query allowed).take k) := by
  by_cases hempty : allowed = some []
  · rw [hempty, search_empty hquery, ranking, scanned_nil]
    exact congrArg Except.ok List.take_nil.symm
  · rw [search, if_neg (not_not.mpr hquery), if_neg hempty]
    rfl

variable (db dim query) in
/-- A ranking has the hits of the scan, in another order. -/
theorem ranking_perm (allowed : Option (List Int)) :
    (db.ranking dim query allowed).Perm ((db.scanned dim allowed).map (hitOf query)) :=
  List.perm_insertionSort _ _

/-- It is no longer than the list of vectors in the store. -/
theorem length_ranking_le (allowed : Option (List Int)) :
    (db.ranking dim query allowed).length ≤ db.searchable.length := by
  rw [(ranking_perm db dim query allowed).length_eq, List.length_map]
  exact List.length_filter_le _ _

/-- Where all similarities are numbers, so are those of the hits. -/
theorem isNan_of_mem_scanned (hscores : db.NumberScores dim query) {allowed : Option (List Int)}
    {h : EmbeddingHit} (hh : h ∈ (db.scanned dim allowed).map (hitOf query)) :
    F32.isNan h.score = false := by
  obtain ⟨r, hr, rfl⟩ := List.mem_map.mp hh
  obtain ⟨hmem, hcond⟩ := List.mem_filter.mp hr
  rw [Bool.and_eq_true, beq_iff_eq] at hcond
  exact hscores r hmem hcond.2

/-- The ranking is sorted by keys: among numbers `partial_cmp` is a comparison of keys, and the
    sort is stable. -/
theorem ranking_eq (hscores : db.NumberScores dim query) (allowed : Option (List Int)) :
    db.ranking dim query allowed
      = ((db.scanned dim allowed).map (hitOf query)).insertionSort EmbeddingHit.before :=
  insertionSort_congr fun _ ha _ hb =>
    F32.lt_eq_false_iff (isNan_of_mem_scanned hscores ha) (isNan_of_mem_scanned hscores hb)

/-- Is a hit about a capture of the list? -/
def insideList (ids : List Int) (h : EmbeddingHit) : Bool :=
  (captureIdForItem h.itemId).any ids.contains

omit [VectorArith] in
/-- A hit that is filed for a capture is inside the lists that have the capture. -/
theorem insideList_itemIdForCapture {ids : List Int} {h : EmbeddingHit} {captureId : Int}
    (hlo : -2 ^ 63 ≤ captureId) (hhi : captureId < 2 ^ 63)
    (hitem : h.itemId = itemIdForCapture captureId) :
    insideList ids h = true ↔ captureId ∈ ids := by
  rw [insideList, hitem, captureIdForItem_itemIdForCapture hlo hhi]
  exact List.contains_iff_mem

/-- **Filtering inside the scan** is filtering the complete ranking: a stable sort and a filter
    commute. -/
theorem ranking_allowed (hscores : db.NumberScores dim query) (ids : List Int) :
    db.ranking dim query (some ids) = (db.ranking dim query none).filter (insideList ids) := by
  have hscanned : (db.scanned dim (some ids)).map (hitOf query)
      = ((db.scanned dim none).map (hitOf query)).filter (insideList ids) := by
    rw [List.filter_map, scanned, scanned, List.filter_filter]
    refine congrArg (List.map _) (List.filter_congr fun r _ => ?_)
    show (allowedItem (some ids) r.itemId && _) = (insideList ids (hitOf query r) && (true && _))
    rw [Bool.true_and, allowedItem, insideList]
    show _ = ((captureIdForItem r.itemId).any ids.contains && _)
    cases captureIdForItem r.itemId <;> rfl
  rw [ranking_eq hscores, ranking_eq hscores, hscanned, filter_insertionSort]

/-- The ranking is sorted, best first. -/
theorem ranking_sorted (hscores : db.NumberScores dim query) (allowed : Option (List Int)) :
    (db.ranking dim query allowed).Pairwise fun a b => F32.le b.score a.score = true := by
  have hnumber : ∀ {h}, h ∈ db.ranking dim query allowed → F32.isNan h.score = false := fun hh =>
    isNan_of_mem_scanned hscores ((ranking_perm db dim query allowed).mem_iff.mp hh)
  have hsorted := List.pairwise_insertionSort EmbeddingHit.before
    ((db.scanned dim allowed).map (hitOf query))
  rw [← ranking_eq hscores] at hsorted
  refine hsorted.imp_of_mem fun ha hb hab => ?_
  exact (F32.le_iff (hnumber hb) (hnumber ha)).mpr hab

/-- **Filtering is part of the scan.**  For a query of the handle's width and scores that are
    numbers: a search inside a list of captures returns the first `k` hits of the complete ranking
    that are about them; these are, of the hits filed for captures, those whose capture is listed; a
    larger `k` only adds hits behind; the hits are sorted, best first; and with `k` at least the
    number of rows every eligible vector is among them. -/
theorem search_filtered (db : SiDb) (dim : Nat) (query : List F32) (hquery : query.length = dim)
    (hscores : db.NumberScores dim query) :
    (∀ (ids : List Int) (k n : Nat), db.searchable.length ≤ n →
      ∃ all, db.search dim query n none = .ok all ∧
        db.search dim query k (some ids) = .ok ((all.filter (insideList ids)).take k)) ∧
    (∀ (ids : List Int) (h : EmbeddingHit) (captureId : Int), -2 ^ 63 ≤ captureId →
      captureId < 2 ^ 63 → h.itemId = itemIdForCapture captureId →
        (insideList ids h = true ↔ captureId ∈ ids)) ∧
    (∀ (allowed : Option (List Int)) (k : Nat),
      ∃ hits more, db.search dim query k allowed = .ok hits ∧
        db.search dim query (k + 1) allowed = .ok more ∧ hits <+: more) ∧
    ∀ (allowed : Option (List Int)) (k : Nat),
      ∃ hits, db.search dim query k allowed = .ok hits ∧
        (hits.Pairwise fun a b => F32.le b.score a.score = true) ∧
        (db.searchable.length ≤ k → hits.Perm ((db.searchable.filter fun r =>
          allowedItem allowed r.itemId && (bytesToF32s r.embedding).length == dim).map
            (hitOf query))) := by
  refine ⟨fun ids k n hn => ⟨_, search_eq hquery n none, ?_⟩,
    fun _ _ _ hlo hhi hitem => insideList_itemIdForCapture hlo hhi hitem,
    fun allowed k => ⟨_, _, search_eq hquery k allowed, search_eq hquery (k + 1) allowed, ?_⟩,
    fun allowed k => ⟨_, search_eq hquery k allowed, ?_, fun hk => ?_⟩⟩
  · rw [search_eq hquery, ranking_allowed hscores,
      List.take_of_length_le (le_trans (length_ranking_le none) hn)]
  · exact List.take_prefix_take_left (Nat.le_succ k)
  · exact (ranking_sorted hscores allowed).sublist (List.take_sublist _ _)
  · rw [List.take_of_length_le (le_trans (length_ranking_le allowed) hk)]
    exact ranking_perm db dim query allowed

end SiDb

end

/-! ### The second of two ties -/

section

/-- Vectors of width 1 are similar if they are equal. -/
@[reducible]
def equalArith : VectorArith where
  norm := fun _ => 0x3f800000
  cosine := fun query _ other => if query = other then 0x3f800000 else 0

attribute [local instance] equalArith

/-- Two captures with the same vector, so that a scan ranks them in row order. -/
def twoEqual : SiDb :=
  ((SiDb.new.ensureInfo 1 "T").insertRows (itemIdForCapture 1) none none [5]).insertRows
    (itemIdForCapture 2) none none [5]

/-- The first hit inside the list is the second of the complete ranking. -/
theorem SiDb.search_filtered_twoEqual :
    ∃ all, twoEqual.search 1 [5] 2 none = .ok all ∧ all.map EmbeddingHit.itemId
        = [itemIdForCapture 1, itemIdForCapture 2] ∧
      twoEqual.search 1 [5] 1 (some [2]) = .ok ((all.filter (insideList [2])).take 1) ∧
      twoEqual.search 1 [5] 1 (some [2]) = .ok [⟨itemIdForCapture 2, none, 0x3f800000⟩] := by
  have hscores : twoEqual.NumberScores 1 [5] := by
    intro r _ _
    show F32.isNan (if _ then _ else _) = false
    split <;> rfl
  obtain ⟨all, hall, hsome⟩ :=
    (SiDb.search_filtered twoEqual 1 [5] rfl hscores).1 [2] 1 2 (by decide +kernel)
  refine ⟨all, hall, ?_, hsome, by decide +kernel⟩
  have hids : (twoEqual.search 1 [5] 2 none).map (List.map EmbeddingHit.itemId)
      = .ok [itemIdForCapture 1, itemIdForCapture 2] := by
    decide +kernel
  rw [hall] at hids
  exact Except.ok.inj hids

end

end Precall.Store
