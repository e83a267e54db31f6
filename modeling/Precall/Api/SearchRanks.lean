import Mathlib.Algebra.Order.Field.Rat
import Mathlib.Tactic.Positivity
import Mathlib.Tactic.Linarith
import Precall.Api.SearchOrder
import Precall.Lib.FusedScores

namespace Precall.Api

open ByteLib TextLib TableLib SortLib FusionLib Precall.Proto Precall.Store Precall.Broker

/-!
# Ranks that agree

What `reciprocal_rank_fusion` and the comparator of `search` (`precall-api/src/routes.rs`) make of
legs that agree about two captures, with scores taken as exact rationals.

* `score_of_mem_rankedHits` — a ranked capture carries its fused score;
* `agreed_before` — a capture that all legs place before another is returned before it;
* `FullTie` — all that the comparator cannot tell apart;
* `fusion_respects_agreement` — scores, order, and the comparator as a strict weak order.
-/

section
variable {S : Type} [FusionArith S] {db : Ukg} {run : LegsRun}

/-- A ranked capture carries its fused score, the sum over the legs that rank it. -/
theorem score_of_mem_rankedHits (hfts : ∀ h ∈ run.fts.getD [], db.Shows h) {r : Ranked S}
    (hr : r ∈ rankedHits db run) : r.score = fusedScore S run.legRanks r.captureId := by
  obtain ⟨e, he, rfl⟩ := List.mem_map.mp hr
  have hentry : (run.hits db).lookup e.1 = some e.2 :=
    AList.mem_lookup_iff.mpr (List.mem_of_mem_filter he)
  obtain ⟨hid, -⟩ := (run.hits_spec hfts).1 e.1 e.2 hentry
  show _ = fusedScore S run.legRanks e.2.windowCaptureId
  rw [hid]
  rfl

/-- A stored capture that some leg ranks is in the merge, under whichever leg brought it in. -/
theorem mem_rankedHits_of_stored (hfts : ∀ h ∈ run.fts.getD [], db.Shows h) {a : Int}
    (hranked : ∃ ids ∈ run.legRanks, a ∈ ids)
    (hstored : ∃ w, (a, w) ∈ db.windowCapture.rows) :
    ∃ r ∈ (rankedHits db run : List (Ranked S)), r.captureId = a := by
  obtain ⟨ids, hids, ha⟩ := hranked
  have hhits : a ∈ run.hits db := by
    rw [(run.hits_spec hfts).2]
    rcases List.mem_append.mp hids with hlex | hsem
    · refine Or.inl ?_
      obtain ⟨hits, hrun, rfl⟩ := Option.map_eq_some_iff.mp (Option.mem_toList.mp hlex)
      rw [LegsRun.ftsIds, hrun]
      exact ha
    · exact Or.inr ⟨⟨ids, hsem, ha⟩, hstored⟩
  exact List.mem_map.mp (((rankedHits_spec hfts).2 a).mpr hhits)

variable [AddCommMonoid S] [LinearOrder S] [ExactFusion S]

/-- Scores that compare as a linear order: what the sort of the results relies on. -/
theorem transCmp_exact : Std.TransCmp (scoreOrder : S → S → Ordering) := by
  have h : (scoreOrder : S → S → Ordering) = compare := by
    funext a b
    rw [scoreOrder, ExactFusion.compare_eq]
    rfl
  rw [h]
  infer_instance

/-- The greater score comes first, whatever else tells the two captures apart. -/
theorem compareRanked_of_score_lt {lexical : List Int} {r s : Ranked S} (h : s.score < r.score) :
    compareRanked lexical r s = .lt := by
  have hscore : (FusionArith.compare s.score r.score).getD .eq = .lt := by
    rw [ExactFusion.compare_eq]
    exact compare_lt_iff_lt.mpr h
  unfold compareRanked
  rw [hscore]
  rfl

variable [IsOrderedCancelAddMonoid S]

/-- **Agreed order.**  If the legs agree on `a` before `b`, and `a` is stored, then every list of
    results that shows `b` shows `a` in front of it. -/
theorem agreed_before (hfts : ∀ h ∈ run.fts.getD [], db.Shows h)
    (hlegs : ∀ ids ∈ run.legRanks, ids.Nodup) {a b : Int} (h : Agrees run.legRanks a b)
    (hstored : ∃ w, (a, w) ∈ db.windowCapture.rows) (order : HashOrder (Ranked S)) (limit : Int)
    {front behind : List Int}
    (hsplit : (orderedHits order db run limit).map Ranked.captureId = front ++ b :: behind) :
    a ∈ front := by
  have := transCmp_exact (S := S)
  have := transCmp_compareRanked (S := S) run.ftsIds
  obtain ⟨before, rest, hresults, rfl, hrest⟩ := List.map_eq_append_iff.mp hsplit
  obtain ⟨rb, after, rfl, rfl, rfl⟩ := List.map_eq_cons_iff.mp hrest
  obtain ⟨ra, hra, rfl⟩ := mem_rankedHits_of_stored (S := S) hfts h.ranked hstored
  have hperm := order.sorted_perm (compareRanked run.ftsIds) (rankedHits db run)
  have hrb : rb ∈ rankedHits db run := by
    refine hperm.mem_iff.mp (List.mem_of_mem_take (i := limit.toNat) ?_)
    rw [orderedHits_eq_take] at hresults
    exact hresults ▸ List.mem_append_right _ List.mem_cons_self
  have hlt : compareRanked run.ftsIds ra rb = .lt := by
    refine compareRanked_of_score_lt ?_
    rw [score_of_mem_rankedHits hfts hra, score_of_mem_rankedHits hfts hrb]
    exact h.fusedScore_lt hlegs
  exact List.mem_map_of_mem (mem_before_of_lt (pairwise_insertionSort _)
    (hperm.mem_iff.mpr hra) hresults hlt)

end

/-! ### Ties -/

section
variable {S : Type} [FusionArith S] [AddCommMonoid S] [LinearOrder S] [ExactFusion S]

/-- Two captures that nothing the comparator looks at tells apart: equal scores, both lexical or
    neither, one moment. -/
structure FullTie (lexical : List Int) (r s : Ranked S) : Prop where
  score : r.score = s.score
  lexical : r.captureId ∈ lexical ↔ s.captureId ∈ lexical
  time : r.hit.timestamp100ns = s.hit.timestamp100ns

/-- Where scores compare as they are, two captures that compare as equal have the same score, leg
    and time. -/
theorem fullTie_of_compareRanked {lexical : List Int} {r s : Ranked S}
    (h : compareRanked lexical r s = .eq) : FullTie lexical r s := by
  rw [compareRanked_eq_lex] at h
  obtain ⟨hboth, htime⟩ := Ordering.then_eq_eq.mp h
  obtain ⟨hscore, hleg⟩ := Ordering.then_eq_eq.mp hboth
  have hequal : (FusionArith.compare s.score r.score).getD .eq = .eq := hscore
  rw [ExactFusion.compare_eq] at hequal
  refine ⟨(compare_eq_iff_eq.mp hequal).symm, ?_, (compare_eq_iff_eq.mp htime).symm⟩
  have hfound := compare_eq_iff_eq.mp hleg
  rw [← List.contains_iff_mem, ← List.contains_iff_mem]
  show lexical.contains r.hit.windowCaptureId = true ↔ lexical.contains s.hit.windowCaptureId = true
  rw [hfound]

/-- **One order up to ties.**  In whatever orders the hash map hands out the captures, the results
    are the same, place by place, up to full ties. -/
theorem orderedHits_tied (order order' : HashOrder (Ranked S)) (db : Ukg) (run : LegsRun)
    (limit : Int) :
    List.Forall₂ (FullTie run.ftsIds) (orderedHits order db run limit)
      (orderedHits order' db run limit) := by
  have := transCmp_exact (S := S)
  have := transCmp_compareRanked (S := S) run.ftsIds
  have hperm := (order.sorted_perm (compareRanked run.ftsIds) (rankedHits db run)).trans
    (order'.sorted_perm (compareRanked run.ftsIds) (rankedHits db run)).symm
  have htied := forall₂_tied_of_perm hperm (pairwise_insertionSort _) (pairwise_insertionSort _)
  rw [orderedHits_eq_take, orderedHits_eq_take]
  exact (List.forall₂_take _ htied).imp fun _ _ => fullTie_of_compareRanked

end

/-! ### Rational scores -/

section
attribute [local instance] rationalFusion

/-- Rational scores are added and compared as they are. -/
theorem exactFusion_rational : ExactFusion ℚ where
  zero_eq := rfl
  add_eq _ _ := rfl
  compare_eq _ _ := rfl
  contribution_pos rank := by
    show (0 : ℚ) < 1 / (60 + rank + 1)
    positivity
  contribution_anti := by
    intro m n hmn
    show (1 : ℚ) / (60 + n + 1) < 1 / (60 + m + 1)
    have hcast : (m : ℚ) < n := by exact_mod_cast hmn
    exact one_div_lt_one_div_of_lt (by positivity) (by linarith)

variable [TextTables] [HostText] [UuidText] [Fts5] [VectorArith]

/-- **Rank fusion respects agreement.**  A capture's fused score is the sum of `1/(60 + rank)` over
    the legs that contain it; if the legs agree on one capture before another, it has the greater
    score, and if it is stored every answer that shows the other shows it in front; the comparator
    of the results is a strict weak order, so the results are determined up to full ties. -/
theorem fusion_respects_agreement :
    (∀ legRanks : List (List Int), (∀ ids ∈ legRanks, ids.Nodup) →
      (∀ id, fusedScore ℚ legRanks id = ((legRanks.filter fun ids => id ∈ ids).map fun ids =>
        1 / (60 + ((ids.idxOf id + 1 : Nat) : ℚ))).sum) ∧
      ∀ a b, Agrees legRanks a b → fusedScore ℚ legRanks b < fusedScore ℚ legRanks a) ∧
    (∀ (q : SearchInput) (root : DataRoot) (run : LegsRun) (order : HashOrder (Ranked ℚ))
      (out : SearchAnswer ℚ), q.Accepted root run → (∀ ids ∈ run.legRanks, ids.Nodup) →
      search order q.dim root q.body q.answer = .ok out →
      ∀ (a b : Int) (front behind : List Int), Agrees run.legRanks a b →
        (∃ w, (a, w) ∈ q.dir.ukg.windowCapture.rows) →
        out.results.map SearchResult.windowCaptureId = front ++ b :: behind → a ∈ front) ∧
    (∀ lexical : List Int,
      IsStrictWeakOrder (Ranked ℚ) fun r s => compareRanked lexical r s = .lt) ∧
    ∀ (order order' : HashOrder (Ranked ℚ)) (db : Ukg) (run : LegsRun) (limit : Int),
      List.Forall₂ (FullTie run.ftsIds) (orderedHits order db run limit)
        (orderedHits order' db run limit) := by
  have := exactFusion_rational
  refine ⟨fun legRanks hlegs => ⟨fun id => ?_, fun a b h => h.fusedScore_lt hlegs⟩, ?_, ?_, ?_⟩
  · rw [fusedScore_eq_sum hlegs, sum_legScore]
    refine congrArg List.sum (List.map_congr_left fun ids _ => ?_)
    show (1 : ℚ) / (60 + (ids.idxOf id : ℚ) + 1) = _
    rw [Nat.cast_succ, add_assoc]
  · intro q root run order out haccepted hlegs hout a b front behind h hstored hsplit
    rw [search_accepted haccepted order] at hout
    obtain rfl := Except.ok.inj hout
    have hids : (orderedHits order q.dir.ukg run q.request.resultLimit).map Ranked.captureId
        = front ++ b :: behind := by
      rw [← hsplit]
      show _ = ((orderedHits order q.dir.ukg run q.request.resultLimit).map
        (searchResult q.body.client)).map SearchResult.windowCaptureId
      rw [List.map_map]
      rfl
    exact agreed_before (fun hit hhit => (SearchInput.fts_hit haccepted.legs hhit).2) hlegs h
      hstored order q.request.resultLimit hids
  · intro lexical
    have := transCmp_rational
    have := transCmp_compareRanked (S := ℚ) lexical
    exact isStrictWeakOrder_of_cmp
  · exact fun order order' db run limit => orderedHits_tied order order' db run limit

end

/-! ### Two captures in one leg -/

section
attribute [local instance] TextTables.ascii UuidText.crate Ukg.matchAll noHostText rationalFusion
  hugeArith

/-- Both captures have their text embedded, as one and the same vector. -/
def twoTexts : ClientDir :=
  { twoCaptures with
    text := twoCaptures.text.insertRows (itemIdForCapture 2) none none [0x3f800000] }

/-- A query of the text store. -/
def twoTextsQuery : SearchInput :=
  { semanticQuery 0x3f800000 with dir := twoTexts }

/-- The one leg that runs ranks the first capture first. -/
def twoTextsRun : LegsRun where
  fts := none
  semantic := [.listed .textSemantic
      [⟨itemIdForCapture 1, none, 0x3f800000⟩, ⟨itemIdForCapture 2, none, 0x3f800000⟩] [1, 2],
    .noted "text→image leg skipped: needs a CLIP-backed AI service (/embed/image-text)"]

/-- The data directory of their client. -/
def twoTextsRoot : DataRoot := Function.update (fun _ => none) smallId (some twoTexts)

/-- The second capture of the leg has the smaller score, and comes second although the hash map
    hands it out first. -/
theorem fusion_respects_agreement_twoTexts :
    fusedScore ℚ [[1, 2]] 2 < fusedScore ℚ [[1, 2]] (1 : Int) ∧
    ∃ out : SearchAnswer ℚ,
      search ⟨List.reverse, List.reverse_perm⟩ 1 twoTextsRoot twoTextsQuery.body
        twoTextsQuery.answer = .ok out ∧
      out.results.map SearchResult.windowCaptureId = [1] ++ 2 :: [] ∧ (1 : Int) ∈ [1] := by
  have hagrees : Agrees [[1, 2]] (1 : Int) 2 :=
    ⟨by decide, Or.inl ⟨[1, 2], by decide, by decide, by decide⟩⟩
  have haccepted : twoTextsQuery.Accepted twoTextsRoot twoTextsRun :=
    ⟨by decide +kernel, clientDir_known (UuidText.parseStr_text smallId) (Function.update_self ..),
      by decide +kernel⟩
  have hids : (searchAnswer (⟨List.reverse, List.reverse_perm⟩ : HashOrder (Ranked ℚ))
      twoTextsQuery.dir.ukg twoTextsQuery.body twoTextsRun
      twoTextsQuery.request.resultLimit).results.map SearchResult.windowCaptureId
        = [1] ++ 2 :: [] := by
    decide +kernel
  refine ⟨(fusion_respects_agreement.1 [[1, 2]] (by decide)).2 1 2 hagrees, _,
    search_accepted haccepted _, hids, ?_⟩
  exact fusion_respects_agreement.2.1 twoTextsQuery twoTextsRoot twoTextsRun _ _ haccepted
    (by decide) (search_accepted haccepted _) 1 2 [1] [] hagrees
    ⟨⟨"n", some "t", true, 0, "", "t", none, 5, false, none, none, none⟩, by decide +kernel⟩ hids

end

end Precall.Api
