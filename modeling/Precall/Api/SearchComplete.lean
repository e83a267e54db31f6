import Precall.Api.SearchOrder
import Precall.Store.Scan

namespace Precall.Api

open ByteLib TextLib TableLib SortLib FusionLib Precall.Proto Precall.Store Precall.Broker

/-!
# What a search leaves out

The complement of soundness for the route `search` of `precall-api/src/routes.rs`: a match goes
missing at two cuts, the candidate window of its leg and the limit of the results, or because
`search_fts` binds the application filter to its marks in the wrong order; and a leg that does not
run is noted.

* `Accounts` — every leg of a list has run or has its note, each once and in order;
* `SearchInput.TextMatch`, `SearchInput.VectorMatch` — what the stores have for the request inside
  its filters, whatever the legs make of them;
* `SearchInput.PassedOver` — what the full-text leg loses of it;
* `SearchInput.lexical_or_full`, `SearchInput.similarity_or_full` — the legs find the rest, or their
  window is full of what comes first;
* `shown_or_cutOff` — what some leg ranks is a result unless the limit is used up in front of it;
* `search_accounts` — so this is all that a search leaves out.
-/

/-! ### Legs and notes -/

/-- Of the legs that are wanted, each has run or has a note, in the order of the legs; the two
    lists hold nothing else. -/
inductive Accounts : List LegName → List String → List String → Prop
  | nil : Accounts [] [] []
  | ran {name names legs notes} (rest : Accounts names legs notes) :
      Accounts (name :: names) (name.listed :: legs) notes
  | noted {name names legs notes} (why : String) (rest : Accounts names legs notes) :
      Accounts (name :: names) legs ((name.skipped ++ why) :: notes)

/-- The names of the semantic legs that ran, as the answer lists them. -/
def listedLegs (answers : List LegAnswer) : List String :=
  answers.filterMap fun a => match a with
    | .listed name _ _ => some name.listed
    | .noted _ => none

/-- The notes of those that did not. -/
def legNotes (answers : List LegAnswer) : List String :=
  answers.filterMap fun a => match a with
    | .listed .. => none
    | .noted note => some note

section
variable [VectorArith] {dim : Nat} {req : LegRequest} {answer : LegName → EmbedOutcome}
  {reads : LegName → LegReads}

/-- The legs of a request run in order, so that their answers stand in order.  The induction is
    on the legs: the head has run or is noted, the rest by hypothesis. -/
theorem accounts_mapM {names : List LegName} {out : List LegAnswer}
    (h : (names.mapM fun name => runLeg dim req (reads name) name (answer name)) = .ok out) :
    Accounts names (listedLegs out) (legNotes out) := by
  induction names generalizing out with
  | nil =>
    obtain rfl := Except.ok.inj h
    exact .nil
  | cons name names ih =>
    rw [List.mapM_cons] at h
    cases hone : runLeg dim req (reads name) name (answer name) with
    | error e =>
      rw [hone] at h
      cases h
    | ok one =>
      cases hrest : names.mapM fun name => runLeg dim req (reads name) name (answer name) with
      | error e =>
        rw [hone, hrest] at h
        cases h
      | ok rest =>
        rw [hone, hrest] at h
        obtain rfl := Except.ok.inj h
        cases one with
        | listed name' found ids =>
          obtain ⟨rfl, -⟩ := runLeg_listed hone
          exact .ran (ih hrest)
        | noted note =>
          obtain ⟨why, rfl⟩ := runLeg_noted hone
          exact .noted why (ih hrest)

end

/-! ### What the legs could find -/

namespace SearchInput

variable [TextTables] [HostText] (q : SearchInput)

/-- Does the request call for the full-text leg? -/
def WantsText : Prop :=
  (q.request.mode = "hybrid" ∨ q.request.mode = "fts") ∧ q.request.hasQuery = true

instance : Decidable q.WantsText := inferInstanceAs (Decidable (_ ∧ _))

/-- The number of candidates a leg can have; for a semantic leg these are vectors, of which a
    capture may have several. -/
def window : Nat := (fusionPool q.request.resultLimit).toNat

/-- The text of a capture inside the filters matches the query, and the full-text leg is wanted. -/
structure TextMatch [Fts5] (id : Int) : Prop where
  wanted : q.WantsText
  text : q.dir.ukg.TextMatches (ftsEscape q.body.query) id
  inside : q.Inside id

/-- No application of the capture has its path in the first half of the application filter or its
    name in the second (an entry in the middle counts to both).  The marks of `search_fts` are all
    paths and then all names, and its parameters each entry twice, so these are the captures that
    its condition passes over. -/
structure PassedOver (id : Int) : Prop where
  filtered : 2 ≤ q.body.appFilter.length
  halves : q.dir.ukg.relatedTo
    (q.body.appFilter.take ((q.body.appFilter.length + 1) / 2))
    (q.body.appFilter.drop (q.body.appFilter.length / 2)) id = false

/-- A vector of a capture inside the filters has this similarity to the query, and a wanted leg can
    compare the two: the embedder answered in the space and width of the store. -/
structure VectorMatch [VectorArith] (name : LegName) (embedding : List F32) (id : Int)
    (score : F32) : Prop where
  wanted : q.request.wants name = true
  inside : q.Inside id
  width : embedding.length = q.dim
  space : ∃ space, q.answer name = .ok embedding space ∧
    indexSpaceVerdict (q.dir.index name.store) space = none
  vector : ∃ r ∈ (q.dir.index name.store).searchable, captureIdForItem r.itemId = some id ∧
    (bytesToF32s r.embedding).length = q.dim ∧ (hitOf embedding r).score = score

variable {q}

/-! ### The window of a leg -/

/-- The full-text leg of an accepted request runs if it is wanted. -/
theorem fts_isSome_iff [Fts5] [VectorArith] {run : LegsRun}
    (h : runLegs q.dim q.dir q.body q.answer = .ok run) :
    run.fts.isSome = true ↔ q.WantsText := by
  have hleg := (runLegs_ok h).1
  unfold ftsLeg at hleg
  split at hleg
  · rename_i hwants
    refine iff_of_true ?_ hwants
    split at hleg
    · rw [← Except.ok.inj hleg]
      rfl
    · cases hleg
  · rename_i hwants
    refine iff_of_false ?_ hwants
    rw [← Except.ok.inj hleg]
    exact Bool.false_ne_true

/-- The clamp of `search_fts` does not touch the window. -/
theorem clamp_window :
    (max 1 (min ((ftsOptions q.request q.body.query).limit.getD 50) 500)).toNat = q.window := by
  have hlimit : 1 ≤ q.request.resultLimit ∧ q.request.resultLimit ≤ 200 := by
    unfold LegRequest.resultLimit
    omega
  show (max 1 (min (fusionPool q.request.resultLimit) 500)).toNat = _
  unfold window fusionPool
  omega

/-- A match is a row of the full-text query unless the misplaced parameters of its filter pass it
    over. -/
theorem mem_ftsCaptures_or_passedOver [Fts5] {id : Int} (hmatch : q.TextMatch id) :
    id ∈ q.dir.ukg.ftsCaptures (ftsOptions q.request q.body.query) ∨ q.PassedOver id := by
  by_cases hlength : q.body.appFilter.length ≤ 1
  · have hagree : q.dir.ukg.FiltersAgree (ftsOptions q.request q.body.query) :=
      Ukg.filters_agree_of_length_le_one _ _ hlength
    exact Or.inl ((hagree id).mpr ⟨hmatch.text, inside_iff.mp hmatch.inside⟩)
  · obtain ⟨w, hw, htime, -⟩ := hmatch.inside
    cases hhalves : q.dir.ukg.relatedTo
        (q.body.appFilter.take ((q.body.appFilter.length + 1) / 2))
        (q.body.appFilter.drop (q.body.appFilter.length / 2)) id with
    | false => exact Or.inr ⟨by omega, hhalves⟩
    | true =>
      refine Or.inl (Ukg.mem_ftsCaptures.mpr ⟨hmatch.text, w, hw, htime, ?_⟩)
      exact (Ukg.ftsAppCondition_iff _ _ _).mpr (Or.inr hhalves)

/-- The full-text leg finds the rows of its query unless its window is full of other hits. -/
theorem lexical_or_full [Fts5] [VectorArith] {run : LegsRun}
    (h : runLegs q.dim q.dir q.body q.answer = .ok run) {id : Int} (hwants : q.WantsText)
    (hmem : id ∈ q.dir.ukg.ftsCaptures (ftsOptions q.request q.body.query)) :
    q.Lexical id ∨ ∃ hits, run.fts = some hits ∧ hits.length = q.window := by
  have hleg := (runLegs_ok h).1
  rw [ftsLeg, if_pos (And.intro hwants.1 hwants.2), Ukg.searchFts, clamp_window] at hleg
  rw [Ukg.ftsCaptures] at hmem
  cases hrows : q.dir.ukg.ftsRows (ftsOptions q.request q.body.query) with
  | none =>
    rw [hrows] at hmem
    cases hmem
  | some rows =>
    rw [hrows] at hmem hleg
    obtain ⟨r, hr, rfl⟩ := List.mem_map.mp hmem
    have hfts := (Except.ok.inj hleg).symm
    rw [lexical_iff h, LegsRun.ftsIds, hfts]
    by_cases hfound : r ∈ (Fts5.byRank (fun r => Fts5.bm25
        (ftsOptions q.request q.body.query).query q.dir.ukg.textIndex r.1) rows).take q.window
    · exact Or.inl (List.mem_map.mpr ⟨_, List.mem_map_of_mem hfound, rfl⟩)
    · refine Or.inr ⟨_, rfl, ?_⟩
      rw [List.length_map]
      -- whatever the ranks, a row that is cut off leaves a full window behind
      refine (behind_of_not_mem_take (R := fun _ _ => True) ?_ ?_ hfound).1
      · exact List.pairwise_of_forall fun _ _ => trivial
      · exact (Fts5.byRank_perm _ rows).mem_iff.mpr hr

/-- A leg finds the vector unless its window is full of vectors that are no less similar, where
    all similarities are numbers. -/
theorem similarity_or_full [VectorArith] {name : LegName} {embedding : List F32} {id : Int}
    {score : F32} (hmatch : q.VectorMatch name embedding id score) :
    q.Similarity name id score ∨ ∃ found, q.Scans name found ∧ found.length = q.window ∧
      ((q.dir.index name.store).NumberScores q.dim embedding →
        ∀ hit ∈ found, F32.le score hit.score = true) := by
  obtain ⟨space, hanswer, hverdict⟩ := hmatch.space
  obtain ⟨r, hr, hcapture, hwidth, rfl⟩ := hmatch.vector
  have hscans : q.Scans name (((q.dir.index name.store).ranking q.dim embedding
      (q.dir.ukg.captureIdsMatchingFilters q.request.start100ns q.request.end100ns
        q.request.appFilter)).take q.window) :=
    ⟨hmatch.wanted, embedding, space, hanswer, hverdict, SiDb.search_eq hmatch.width _ _⟩
  have hallowed : allowedItem (q.dir.ukg.captureIdsMatchingFilters q.request.start100ns
      q.request.end100ns q.request.appFilter) r.itemId = true := by
    have heligible : q.dir.ukg.Eligible (ftsOptions q.request q.body.query) id :=
      inside_iff.mp hmatch.inside
    unfold Ukg.Eligible at heligible
    split at heligible
    · rename_i ids hids
      have hids' : q.dir.ukg.captureIdsMatchingFilters q.request.start100ns q.request.end100ns
        q.request.appFilter = some ids := hids
      rw [hids', allowedItem, hcapture]
      exact List.contains_iff_mem.mpr heligible
    · rename_i hnone
      have hnone' : q.dir.ukg.captureIdsMatchingFilters q.request.start100ns q.request.end100ns
        q.request.appFilter = none := hnone
      rw [hnone']
      rfl
  have hranked : hitOf embedding r ∈ (q.dir.index name.store).ranking q.dim embedding
      (q.dir.ukg.captureIdsMatchingFilters q.request.start100ns q.request.end100ns
        q.request.appFilter) := by
    rw [(SiDb.ranking_perm _ _ _ _).mem_iff]
    refine List.mem_map_of_mem (List.mem_filter.mpr ⟨hr, ?_⟩)
    rw [hallowed, hwidth]
    exact Bool.and_eq_true_iff.mpr ⟨rfl, beq_self_eq_true _⟩
  by_cases hfound : hitOf embedding r ∈ ((q.dir.index name.store).ranking q.dim embedding
      (q.dir.ukg.captureIdsMatchingFilters q.request.start100ns q.request.end100ns
        q.request.appFilter)).take q.window
  · exact Or.inl ⟨_, hscans, hitOf embedding r, hfound, hcapture, rfl⟩
  · refine Or.inr ⟨_, hscans, ?_, fun hscores => ?_⟩
    · refine (behind_of_not_mem_take (R := fun _ _ => True) ?_ hranked hfound).1
      exact List.pairwise_of_forall fun _ _ => trivial
    · exact (behind_of_not_mem_take (SiDb.ranking_sorted hscores _) hranked hfound).2

end SearchInput

/-! ### The limit -/

section
variable {S : Type} [FusionArith S]

/-- The limit is used up by results none of which comes behind the capture in the order of the
    answer. -/
def CutOff (order : HashOrder (Ranked S)) (db : Ukg) (run : LegsRun) (limit id : Int) : Prop :=
  ∃ r ∈ (rankedHits db run : List (Ranked S)), r.captureId = id ∧
    (orderedHits order db run limit).length = limit.toNat ∧
    ∀ s ∈ orderedHits order db run limit, compareRanked run.ftsIds s r ≠ .gt

/-- A capture of the merge is a result unless it is cut off: what the limit leaves of a sorted
    list is its head. -/
theorem shown_or_cutOff [Std.TransCmp (scoreOrder : S → S → Ordering)]
    (order : HashOrder (Ranked S)) {db : Ukg} {run : LegsRun} (limit : Int)
    (hfts : ∀ h ∈ run.fts.getD [], db.Shows h) {id : Int} (hid : id ∈ run.hits db) :
    id ∈ (orderedHits order db run limit).map Ranked.captureId ∨
      CutOff order db run limit id := by
  have := transCmp_compareRanked (S := S) run.ftsIds
  obtain ⟨r, hr, rfl⟩ := List.mem_map.mp (((rankedHits_spec (S := S) hfts).2 id).mpr hid)
  have hsorted := order.sorted_perm (compareRanked run.ftsIds) (rankedHits db run)
  by_cases hshown : r ∈ orderedHits order db run limit
  · exact Or.inl (List.mem_map_of_mem hshown)
  · refine Or.inr ⟨r, hr, rfl, ?_⟩
    exact behind_of_not_mem_take (pairwise_insertionSort _) (hsorted.mem_iff.mpr hr) hshown

end

/-! ### The answer -/

section
variable [TextTables] [HostText] [UuidText] [Fts5] [VectorArith]

/-- What an answer owes the stores: the legs that are wanted, and each match, with what excuses its
    absence.  A vector is excused by vectors no less similar, a text by other texts, whose ranks are
    the engine's, or by being passed over. -/
structure SearchInput.Complete {S : Type} [FusionArith S] (q : SearchInput) (run : LegsRun)
    (order : HashOrder (Ranked S)) (out : SearchAnswer S) : Prop where
  accounts : ∃ legs, out.legs = (if q.WantsText then ["fts"] else []) ++ legs ∧
    Accounts ([.textSemantic, .imageSemantic, .imageText].filter q.request.wants) legs out.notes
  text : ∀ id, q.TextMatch id → id ∈ out.results.map SearchResult.windowCaptureId ∨
    CutOff order q.dir.ukg run q.request.resultLimit id ∨
    (∃ hits, run.fts = some hits ∧ hits.length = q.window) ∨ q.PassedOver id
  vectors : ∀ name embedding id score, q.VectorMatch name embedding id score →
    F32.lt 0 score = true → id ∈ out.results.map SearchResult.windowCaptureId ∨
    CutOff order q.dir.ukg run q.request.resultLimit id ∨
    ∃ found, q.Scans name found ∧ found.length = q.window ∧
      ((q.dir.index name.store).NumberScores q.dim embedding →
        ∀ hit ∈ found, F32.le score hit.score = true)

/-- **What a search leaves out.**  Whatever the stores hold and the embedder answers, each wanted
    leg has run or has its note, and a capture inside the filters whose text or whose vector matches
    is a result unless the limit or the leg's window is used up by what comes no later, or the
    capture matches by its text and the full-text leg passes it over. -/
theorem search_accounts {S : Type} [FusionArith S] [Std.TransCmp (scoreOrder : S → S → Ordering)]
    (q : SearchInput) (root : DataRoot) (run : LegsRun) (h : q.Accepted root run)
    (order : HashOrder (Ranked S)) :
    ∃ out, search order q.dim root q.body q.answer = .ok out ∧ q.Complete run order out := by
  have hfts : ∀ hit ∈ run.fts.getD [], q.dir.ukg.Shows hit :=
    fun hit hhit => (SearchInput.fts_hit h.legs hhit).2
  have hshown : ∀ id, id ∈ run.hits q.dir.ukg →
      id ∈ (searchAnswer order q.dir.ukg q.body run q.request.resultLimit).results.map
        SearchResult.windowCaptureId ∨ CutOff order q.dir.ukg run q.request.resultLimit id := by
    intro id hid
    have hresults : (searchAnswer order q.dir.ukg q.body run q.request.resultLimit).results.map
        SearchResult.windowCaptureId
        = (orderedHits order q.dir.ukg run q.request.resultLimit).map Ranked.captureId :=
      List.map_map
    rw [hresults]
    exact shown_or_cutOff order _ hfts hid
  refine ⟨_, search_accepted h order, ?_, ?_, ?_⟩
  · refine ⟨listedLegs run.semantic, ?_, accounts_mapM (SearchInput.runLegs_ok h.legs).2⟩
    show (run.fts.map fun _ => "fts").toList ++ listedLegs run.semantic = _
    have hwants := SearchInput.fts_isSome_iff h.legs
    cases hrun : run.fts with
    | none =>
      rw [hrun] at hwants
      rw [if_neg fun hw => Bool.false_ne_true (hwants.mpr hw)]
      rfl
    | some hits =>
      rw [hrun] at hwants
      rw [if_pos (hwants.mp rfl)]
      rfl
  · intro id hmatch
    rcases SearchInput.mem_ftsCaptures_or_passedOver hmatch with hmem | hpassed
    · rcases SearchInput.lexical_or_full h.legs hmatch.wanted hmem with hlexical | hfull
      · exact (hshown id ((SearchInput.mem_hits h.legs).mpr (Or.inl hlexical))).imp_right Or.inl
      · exact Or.inr (Or.inr (Or.inl hfull))
    · exact Or.inr (Or.inr (Or.inr hpassed))
  · intro name embedding id score hmatch hpositive
    rcases SearchInput.similarity_or_full hmatch with hsimilar | hfull
    · obtain ⟨w, hstored, -⟩ := hmatch.inside
      have hmerged : id ∈ run.hits q.dir.ukg := (SearchInput.mem_hits h.legs).mpr (Or.inr
        ⟨⟨name, score, hsimilar, F32.le_eq_false_of_lt hpositive⟩, w, hstored⟩)
      exact (hshown id hmerged).imp_right Or.inl
    · exact Or.inr (Or.inr hfull)

end

/-! ### A window full of one capture -/

section
attribute [local instance] TextTables.ascii UuidText.crate Ukg.matchAll noHostText rationalFusion
  hugeArith

/-- The query with one capture to find. -/
theorem search_accounts_unit :
    ∃ out : SearchAnswer ℚ,
      search ⟨id, fun _ => List.Perm.refl _⟩ 1 (embeddedRoot 0x3f800000)
        (semanticQuery 0x3f800000).body (semanticQuery 0x3f800000).answer = .ok out ∧
      (semanticQuery 0x3f800000).Complete (semanticRun 0x3f800000)
        ⟨id, fun _ => List.Perm.refl _⟩ out :=
  have := transCmp_rational
  search_accounts (semanticQuery 0x3f800000) (embeddedRoot 0x3f800000) (semanticRun 0x3f800000)
    semanticQuery_accepted ⟨id, fun _ => List.Perm.refl _⟩

/-- Two captures with one vector, which the first has for each of eight chunks of its text, so
    that a search meets the first one eight times. -/
def longCapture : ClientDir :=
  { twoCaptures with
    text := (List.replicate 8 (itemIdForCapture 1) ++ [itemIdForCapture 2]).foldl
      (fun db item => db.insertRows item none none [0x3f800000]) (SiDb.new.ensureInfo 1 "T") }

/-- A query for two results that both captures match. -/
def floodedQuery : SearchInput where
  dim := 1
  dir := longCapture
  body := { (semanticQuery 0x3f800000).body with limit := some 2 }
  answer := (semanticQuery 0x3f800000).answer

/-- The answer has one result, for the chunks of the first capture fill the window: a window is one
    of vectors, not of captures. -/
example :
    (∃ out : SearchAnswer ℚ,
      search ⟨id, fun _ => List.Perm.refl _⟩ 1
        (Function.update (fun _ => none) smallId (some longCapture)) floodedQuery.body
        floodedQuery.answer = .ok out ∧ out.results.map SearchResult.windowCaptureId = [1]) ∧
      floodedQuery.VectorMatch .textSemantic [0x3f800000] 2 0x3f800000 := by
  constructor
  · have hids : (search (S := ℚ) ⟨id, fun _ => List.Perm.refl _⟩ 1
        (Function.update (fun _ => none) smallId (some longCapture)) floodedQuery.body
        floodedQuery.answer).map (fun out => out.results.map SearchResult.windowCaptureId)
          = .ok [1] := by
      decide +kernel
    cases hout : search (S := ℚ) ⟨id, fun _ => List.Perm.refl _⟩ 1
        (Function.update (fun _ => none) smallId (some longCapture)) floodedQuery.body
        floodedQuery.answer with
    | error e =>
      rw [hout] at hids
      cases hids
    | ok out =>
      rw [hout] at hids
      exact ⟨out, rfl, Except.ok.inj hids⟩
  · refine ⟨by decide +kernel, ?_, rfl, ⟨"T", rfl, by decide +kernel⟩, ?_⟩
    · exact ⟨⟨"m", some "u", true, 0, "", "u", none, 5, false, none, none, none⟩,
        by decide +kernel, rfl, Or.inl rfl⟩
    · exact ⟨⟨f32sToBytes [0x3f800000], itemIdForCapture 2, none⟩, by decide +kernel,
        by decide +kernel, by decide +kernel, by decide +kernel⟩

end

end Precall.Api
