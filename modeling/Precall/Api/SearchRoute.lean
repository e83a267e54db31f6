import Precall.Api.Search
import Precall.Api.Snapshot
import Precall.Lib.RankFusion
import Precall.Store.Fulltext

namespace Precall.Api

open ByteLib TextLib TableLib SortLib FusionLib Precall.Proto Precall.Store Precall.Broker

/-!
# The search route

`search` of `precall-api/src/routes.rs` on one state of a client's stores: the checks of the
request, the full-text leg, the three semantic legs, the merge of their captures, rank fusion and
the order of the results.

* `LegsRun` — what the legs that ran have found; `runLegs` runs them;
* `LegsRun.hits` — the captures of all legs, each once;
* `searchAnswer` — fusion, order, truncation;
* `SearchInput.Sound` — what an answer owes its request;
* `sound_iff` — an answer is sound unless it shows a capture that only similarities that are not
  numbers speak for;
* `search_sound_iff` — so every answer is sound exactly if the limit cuts such captures off.
-/

/-! ### The request -/

/-- The JSON body of a request.  Only the client and the query have to be there; a time range may
    leave either end open. -/
structure SearchBody where
  client : String
  query : String := ""
  timeRange : Option (Option Int × Option Int) := none
  appFilter : List String := []
  limit : Option Int := none
  mode : Option String := none
  image : Option String := none
  deriving DecidableEq, Repr

/-- What the route takes from libraries: a base64 decoder with its error texts, and the text of a
    string as the debug formatter prints it. -/
class HostText where
  decodeBase64 : String → Except String Bytes
  debugText : String → String

section
variable [TextTables] [HostText]

/-- `decode_image_query` — plain base64 or a data URL, of which everything up to `base64,` is
    dropped.  Blanks around either are trimmed. -/
def decodeImageQuery (s : String) : Except ApiError Bytes :=
  let s := trim s
  let payload : Except ApiError String := match stripPrefix? s "data:" with
    | some rest => match after? rest "base64," with
      | some b64 => .ok b64
      | none => .error (.badRequest "data URL must be base64-encoded")
    | none => .ok s
  match payload with
  | .error e => .error e
  | .ok b64 => match HostText.decodeBase64 (trim b64) with
    | .ok bytes => .ok bytes
    | .error e => .error (.badRequest ("image is not valid base64: " ++ e))

/-- The image of a request; one that is blank counts as none. -/
def imageText (body : SearchBody) : Option String :=
  (body.image.map trim).filter fun s => s ≠ ""

/-- The mode of a request, `hybrid` if it names none. -/
def SearchBody.modeText (body : SearchBody) : String := body.mode.getD "hybrid"

/-- Is there a text query, other than blanks? -/
def hasQuery (body : SearchBody) : Bool := trim body.query != ""

/-- The checks at the head of `search`, in their order: something to search for, a known mode,
    and an image where the mode needs one and none where it has no use for it. -/
def checkRequest (body : SearchBody) : Except ApiError Unit :=
  if !hasQuery body && (imageText body).isNone then
    .error (.badRequest "query must not be empty (or supply an image)")
  else if ¬ body.modeText ∈ ["hybrid", "fts", "semantic", "image"] then
    .error (.badRequest ("unknown mode " ++ HostText.debugText body.modeText))
  else if body.modeText = "image" ∧ (imageText body).isNone then
    .error (.badRequest "mode=image requires an image query")
  else if body.modeText = "fts" ∧ (imageText body).isSome then
    .error (.badRequest "an image query needs mode hybrid, semantic or image")
  else .ok ()

/-- The part of the request the semantic legs read, with the decoded image; the time range is
    split into its two bounds. -/
def legRequest (body : SearchBody) (image : Option Bytes) : LegRequest where
  mode := body.modeText
  hasQuery := hasQuery body
  image := image
  start100ns := body.timeRange.bind Prod.fst
  end100ns := body.timeRange.bind Prod.snd
  appFilter := body.appFilter
  limit := body.limit

/-! ### The legs -/

/-- What the legs of a request have found: the hits of the full-text leg if it ran, and the
    answers of the semantic legs. -/
structure LegsRun where
  fts : Option (List SearchHit)
  semantic : List LegAnswer
  deriving DecidableEq, Repr

/-- The options of the full-text leg: the query quoted for `MATCH`, the filters as they are, and
    the candidate window for a limit. -/
def ftsOptions (req : LegRequest) (query : String) : SearchOptions where
  query := ftsEscape query
  start100ns := req.start100ns
  end100ns := req.end100ns
  appFilter := req.appFilter
  limit := some (fusionPool req.resultLimit)

section
variable [Fts5] [VectorArith]

/-- The full-text leg.  It runs for the modes `hybrid` and `fts` if there is a query; an
    expression the engine cannot parse fails the request. -/
def ftsLeg (db : Ukg) (req : LegRequest) (query : String) :
    Except ApiError (Option (List SearchHit)) :=
  if (req.mode = "hybrid" ∨ req.mode = "fts") ∧ req.hasQuery = true then
    match db.searchFts (ftsOptions req query) with
    | some hits => .ok (some hits)
    | none => .error (.store (.matchSyntax (ftsEscape query)))
  else .ok none

/-- The decoded image of a request; a request without one is no error. -/
def decodedImage (body : SearchBody) : Except ApiError (Option Bytes) :=
  match imageText body with
  | none => .ok none
  | some b64 => (decodeImageQuery b64).map some

/-- All legs on one state of the client's stores.  The image is decoded before the text leg, which
    cannot fail. -/
def runLegs (dim : Nat) (dir : ClientDir) (body : SearchBody) (answer : LegName → EmbedOutcome) :
    Except ApiError LegsRun := do
  let fts ← ftsLeg dir.ukg (legRequest body none) body.query
  let image ← decodedImage body
  let semantic ← semanticLegs dim (legRequest body image) answer fun name =>
    { label := dir.index name.store, filter := dir.ukg, scan := dir.index name.store }
  pure { fts := fts, semantic := semantic }

end

end

/-! ### The merge -/

/-- How the answer names a leg that ran. -/
def LegName.listed : LegName → String
  | .textSemantic => "text-semantic"
  | .imageSemantic => "image-semantic"
  | .imageText => "image-text"

/-- The captures found so far, by id. -/
abbrev Hits := AList fun _ : Int => SearchHit

/-- The merge of `absorb_semantic_leg`: a capture that is stored enters unless it is there
    already, so the full-text leg's snippet is not overwritten. -/
def absorbIds (db : Ukg) (hits : Hits) (ids : List Int) : Hits :=
  let found := db.capturesByIds ids
  ids.foldl (fun hits id =>
    match (found.find? fun m => m.1 == id).map Prod.snd with
    | some h => if id ∈ hits then hits else hits.insert id h
    | none => hits) hits

namespace LegsRun

variable (run : LegsRun)

/-- The captures the full-text leg found, best first; none if it did not run. -/
def ftsIds : List Int := (run.fts.getD []).map SearchHit.windowCaptureId

/-- The captures of a listed semantic leg, in its order; a leg that was noted ranks nothing. -/
def idsOf : LegAnswer → Option (List Int)
  | .listed _ _ ids => some ids
  | .noted _ => none

/-- `leg_ranks` — one id list per leg that ran, the full-text leg first; rank fusion sees these
    and no scores. -/
def legRanks : List (List Int) :=
  (run.fts.map fun hits => hits.map SearchHit.windowCaptureId).toList ++
    run.semantic.filterMap idsOf

/-- `legs` — the names of the legs that ran. -/
def legs : List String :=
  (run.fts.map fun _ => "fts").toList ++ run.semantic.filterMap fun a => match a with
    | .listed name _ _ => some name.listed
    | .noted _ => none

/-- `notes` — the legs that did not run. -/
def notes : List String :=
  run.semantic.filterMap fun a => match a with
    | .listed .. => none
    | .noted note => some note

/-- `hits` — the captures of all legs, each once.  The full-text leg's entries come first and
    stay. -/
def hits (db : Ukg) : Hits :=
  (run.semantic.filterMap idsOf).foldl (absorbIds db)
    ((run.fts.getD []).foldl (fun hits h => hits.insert h.windowCaptureId h) ∅)

end LegsRun

/-! ### The answer -/

/-- A capture with its fused score, as the results are sorted. -/
structure Ranked (S : Type) where
  hit : SearchHit
  score : S
  deriving DecidableEq, Repr

/-- One result of the answer, with the address its screenshot is served at. -/
structure SearchResult (S : Type) where
  windowCaptureId : Int
  timestamp100ns : Int
  windowTitle : Option String
  appName : Option String
  screenshotUrl : String
  ocrTextPreview : Option String
  relevanceScore : S
  activationUri : Option String
  deriving DecidableEq, Repr

/-- The answer to a search: the results, the legs that ran, and a note for each that did not. -/
structure SearchAnswer (S : Type) where
  results : List (SearchResult S)
  legs : List String
  notes : List String
  deriving DecidableEq, Repr

section
variable {S : Type} [FusionArith S]

/-- The comparator of the results: fused score, then captures the full-text leg found, then newer
    first.  Scores that cannot be compared count as equal. -/
def compareRanked (lexical : List Int) (a b : Ranked S) : Ordering :=
  let byScore := (FusionArith.compare b.score a.score).getD .eq
  let found (r : Ranked S) : Bool := lexical.contains r.hit.windowCaptureId
  let byLeg := match found b, found a with
    | true, false => .gt
    | false, true => .lt
    | _, _ => .eq
  (byScore.then byLeg).then (compare b.hit.timestamp100ns a.hit.timestamp100ns)

/-- The captures some leg ranks, with their fused scores.  A capture of the merge that no leg
    ranks has no fused score and is left out. -/
def rankedHits (db : Ukg) (run : LegsRun) : List (Ranked S) :=
  let fused : AList fun _ : Int => S := reciprocalRankFusion run.legRanks
  ((run.hits db).entries.filter fun e => e.1 ∈ fused).map fun e =>
    ⟨e.2, (fused.lookup e.1).getD FusionArith.zero⟩

/-- The results in order, cut off at the limit.  The hash map hands the captures out in any
    order; the sort is stable on what it hands out. -/
def orderedHits (order : HashOrder (Ranked S)) (db : Ukg) (run : LegsRun) (limit : Int) :
    List (Ranked S) :=
  ((order.arrange (rankedHits db run)).insertionSort fun a b =>
    compareRanked run.ftsIds a b ≠ .gt).take limit.toNat

/-- The result as the answer shows it; the address repeats the request's own spelling of the
    client. -/
def searchResult (client : String) (r : Ranked S) : SearchResult S where
  windowCaptureId := r.hit.windowCaptureId
  timestamp100ns := r.hit.timestamp100ns
  windowTitle := r.hit.windowTitle
  appName := r.hit.appName
  screenshotUrl := "/api/v1/snapshot/" ++ toString r.hit.windowCaptureId ++ "?client=" ++ client
  ocrTextPreview := r.hit.ocrPreview
  relevanceScore := r.score
  activationUri := r.hit.activationUri

/-- The answer once all legs have run: the ordered results, and the legs by name or by note. -/
def searchAnswer (order : HashOrder (Ranked S)) (db : Ukg) (body : SearchBody) (run : LegsRun)
    (limit : Int) : SearchAnswer S where
  results := (orderedHits order db run limit).map (searchResult body.client)
  legs := run.legs
  notes := run.notes

/-- The route `search` on one state of the server: the checks, the client, the legs, then the
    answer. -/
def search [TextTables] [HostText] [UuidText] [Fts5] [VectorArith] (order : HashOrder (Ranked S))
    (dim : Nat) (root : DataRoot) (body : SearchBody) (answer : LegName → EmbedOutcome) :
    Except ApiError (SearchAnswer S) := do
  checkRequest body
  let dir ← clientDir root body.client
  let run ← runLegs dim dir body answer
  pure (searchAnswer order dir.ukg body run (legRequest body none).resultLimit)

end

/-! ### What a search owes -/

/-- What one search is given: the width of the vectors, the client's stores, the request and the
    embedder's answers. -/
structure SearchInput where
  dim : Nat
  dir : ClientDir
  body : SearchBody
  answer : LegName → EmbedOutcome

namespace SearchInput

variable [TextTables] [HostText] (q : SearchInput)

/-- The request as the legs read it, with its image if that decodes. -/
def request : LegRequest := legRequest q.body (decodedImage q.body).toOption.join

/-- A stored capture inside the time range and the application filter of the request, each of
    which may be absent. -/
def Inside (id : Int) : Prop :=
  ∃ w, (id, w) ∈ q.dir.ukg.windowCapture.rows ∧
    Ukg.inTimeRange q.request.start100ns q.request.end100ns w = true ∧
    (q.body.appFilter = [] ∨ q.dir.ukg.relatedTo q.body.appFilter q.body.appFilter id = true)

/-- The full-text leg runs, without an error, and finds the capture. -/
def Lexical [Fts5] (id : Int) : Prop :=
  ∃ hits, ftsLeg q.dir.ukg q.request q.body.query = .ok (some hits) ∧
    id ∈ hits.map SearchHit.windowCaptureId

/-- What the scan of a leg finds, if the request wants the leg and the embedder answers in the
    space of its store. -/
def Scans [VectorArith] (name : LegName) (found : List EmbeddingHit) : Prop :=
  q.request.wants name = true ∧ ∃ embedding space, q.answer name = .ok embedding space ∧
    indexSpaceVerdict (q.dir.index name.store) space = none ∧
    (q.dir.index name.store).search q.dim embedding (fusionPool q.request.resultLimit).toNat
      (q.dir.ukg.captureIdsMatchingFilters q.request.start100ns q.request.end100ns
        q.request.appFilter) = .ok found

/-- A leg scans its store and finds a vector of the capture at a similarity; the vector's item id
    says whose it is. -/
def Similarity [VectorArith] (name : LegName) (id : Int) (score : F32) : Prop :=
  ∃ found, q.Scans name found ∧
    ∃ hit ∈ found, captureIdForItem hit.itemId = some id ∧ hit.score = score

variable [Fts5] [VectorArith]

/-- A stored capture that nothing speaks for but similarities that are not numbers: the full-text
    leg has not found it, and no leg found it at a positive similarity. -/
def OnlyNan (id : Int) : Prop :=
  (∃ w, (id, w) ∈ q.dir.ukg.windowCapture.rows) ∧ ¬ q.Lexical id ∧
    (∃ name score, q.Similarity name id score ∧ F32.isNan score = true) ∧
    ∀ name score, q.Similarity name id score → F32.lt 0 score = false

/-- Some leg the answer names ranks the capture: the full-text leg, or a semantic leg with a
    positive similarity. -/
def RankedBy (legs : List String) (id : Int) : Prop :=
  ("fts" ∈ legs ∧ q.Lexical id) ∨
    ∃ (name : LegName) (score : F32), name.listed ∈ legs ∧ q.Similarity name id score ∧
      F32.lt 0 score = true

/-- What an answer owes its request: every result inside the filters and ranked by a leg that the
    answer names, none twice, and no more than the limit. -/
structure Sound {S : Type} (out : SearchAnswer S) : Prop where
  inside : ∀ r ∈ out.results, q.Inside r.windowCaptureId
  ranked : ∀ r ∈ out.results, q.RankedBy out.legs r.windowCaptureId
  once : (out.results.map SearchResult.windowCaptureId).Nodup
  bounded : (out.results.length : Int) ≤ q.request.resultLimit

end SearchInput

/-! ### The semantic legs -/

/-- What one hit adds to the candidates: its capture, unless the score is at most zero or the
    capture is among them. -/
def addCandidate (ids : List Int) (h : EmbeddingHit) : List Int :=
  if F32.le h.score 0 then ids
  else match captureIdForItem h.itemId with
    | some id => if ids.contains id then ids else ids ++ [id]
    | none => ids

/-- The candidates of a scan are the captures of its hits that are not at most zero.  Comparisons
    with a score that is no number fail, so such a hit is a candidate. -/
theorem mem_semanticCandidates {found : List EmbeddingHit} {id : Int} :
    id ∈ semanticCandidates found ↔
      ∃ hit ∈ found, captureIdForItem hit.itemId = some id ∧ F32.le hit.score 0 = false := by
  have key : ∀ ids : List Int, id ∈ found.foldl addCandidate ids ↔ id ∈ ids ∨
      ∃ hit ∈ found, captureIdForItem hit.itemId = some id ∧ F32.le hit.score 0 = false := by
    induction found with
    | nil => simp
    | cons h found ih =>
      intro ids
      rw [List.foldl_cons, ih, addCandidate]
      simp only [List.mem_cons, exists_eq_or_imp, ← or_assoc]
      refine or_congr_left ?_
      by_cases hle : F32.le h.score 0 = true
      · simp [hle]
      · rw [if_neg hle]
        cases hcid : captureIdForItem h.itemId with
        | none => simp
        | some cid =>
          by_cases hmem : cid ∈ ids
          · have hsame : cid = id → id ∈ ids := fun heq => heq ▸ hmem
            simpa [hmem, hle] using hsame
          · simp [hmem, hle, eq_comm]
  show id ∈ found.foldl addCandidate [] ↔ _
  rw [key]
  simp

/-! ### The merge keeps every capture under its id -/

/-- Every capture found so far is stored, and kept under its own id. -/
def Keyed (db : Ukg) (hits : Hits) : Prop :=
  ∀ id h, hits.lookup id = some h → h.windowCaptureId = id ∧ db.Shows h

/-- A hit that shows what is stored joins the merge under its own id. -/
theorem Keyed.insert {db : Ukg} {hits : Hits} {id : Int} {h : SearchHit} (hkeyed : Keyed db hits)
    (hid : h.windowCaptureId = id) (hshows : db.Shows h) : Keyed db (hits.insert id h) := by
  intro id' h' hlookup
  by_cases heq : id' = id
  · rw [heq, AList.lookup_insert] at hlookup
    obtain rfl := Option.some.inj hlookup
    exact ⟨hid.trans heq.symm, hshows⟩
  · rw [AList.lookup_insert_ne heq] at hlookup
    exact hkeyed id' h' hlookup

/-- One candidate of a leg enters unless it is there or is not stored. -/
def absorbOne (found : List (Int × SearchHit)) (hits : Hits) (id : Int) : Hits :=
  match (found.find? fun m => m.1 == id).map Prod.snd with
  | some h => if id ∈ hits then hits else hits.insert id h
  | none => hits

/-- One id of a semantic leg joins the merge if it is that of a stored capture, and changes no
    hit that is there. -/
theorem absorbOne_spec {db : Ukg} {hits : Hits} {ids : List Int} {x : Int} (hx : x ∈ ids)
    (hkeyed : Keyed db hits) :
    Keyed db (absorbOne (db.capturesByIds ids) hits x) ∧
      ∀ id, id ∈ absorbOne (db.capturesByIds ids) hits x ↔
        id ∈ hits ∨ id = x ∧ ∃ w, (x, w) ∈ db.windowCapture.rows := by
  have hstored := Ukg.capturesByIds_isSome db hx
  unfold absorbOne
  cases hfind : ((db.capturesByIds ids).find? fun m => m.1 == x).map Prod.snd with
  | none =>
    rw [hfind] at hstored
    have hnone : ¬ ∃ w, (x, w) ∈ db.windowCapture.rows := fun h => by
      have hsome := hstored.mpr h
      cases hsome
    exact ⟨hkeyed, fun id => by simp [hnone]⟩
  | some h =>
    rw [hfind] at hstored
    have hsome : ∃ w, (x, w) ∈ db.windowCapture.rows := hstored.mp rfl
    obtain ⟨hid, hshows⟩ := Ukg.capturesByIds_find hfind
    dsimp only
    by_cases hmem : x ∈ hits
    · rw [if_pos hmem]
      refine ⟨hkeyed, fun id => ⟨Or.inl, ?_⟩⟩
      rintro (hin | ⟨rfl, -⟩)
      · exact hin
      · exact hmem
    · rw [if_neg hmem]
      refine ⟨hkeyed.insert hid hshows, fun id => ?_⟩
      rw [AList.mem_insert, or_comm, and_iff_left hsome]

/-- The captures after one leg: those before it and its stored candidates, all kept under their
    own ids. -/
theorem absorbIds_spec {db : Ukg} {hits : Hits} (ids : List Int) (hkeyed : Keyed db hits) :
    Keyed db (absorbIds db hits ids) ∧ ∀ id, id ∈ absorbIds db hits ids ↔
      id ∈ hits ∨ id ∈ ids ∧ ∃ w, (id, w) ∈ db.windowCapture.rows := by
  -- the metadata is read for all candidates at once, so the induction is on a part of them
  have key : ∀ (part : List Int) (hits : Hits), (∀ id ∈ part, id ∈ ids) → Keyed db hits →
      Keyed db (part.foldl (absorbOne (db.capturesByIds ids)) hits) ∧
        ∀ id, id ∈ part.foldl (absorbOne (db.capturesByIds ids)) hits ↔
          id ∈ hits ∨ id ∈ part ∧ ∃ w, (id, w) ∈ db.windowCapture.rows := by
    intro part
    induction part with
    | nil => exact fun hits _ hkeyed => ⟨hkeyed, fun id => by simp⟩
    | cons x part ih =>
      intro hits hpart hkeyed
      rw [List.foldl_cons]
      obtain ⟨hone, hmem⟩ := absorbOne_spec (hpart x List.mem_cons_self) hkeyed
      obtain ⟨hkeyed', hmem'⟩ := ih _ (fun id hid => hpart id (List.mem_cons_of_mem x hid)) hone
      refine ⟨hkeyed', fun id => ?_⟩
      rw [hmem', hmem, List.mem_cons]
      constructor
      · rintro ((hid | ⟨rfl, hw⟩) | ⟨hid, hw⟩)
        · exact Or.inl hid
        · exact Or.inr ⟨Or.inl rfl, hw⟩
        · exact Or.inr ⟨Or.inr hid, hw⟩
      · rintro (hid | ⟨rfl | hid, hw⟩)
        · exact Or.inl (Or.inl hid)
        · exact Or.inl (Or.inr ⟨rfl, hw⟩)
        · exact Or.inr ⟨hid, hw⟩
  exact key ids hits (fun _ hid => hid) hkeyed

/-- The captures of all legs: those of the full-text leg and the stored candidates of the
    semantic legs.  The induction is on the legs, from the merge that the full-text leg starts. -/
theorem LegsRun.hits_spec {db : Ukg} (run : LegsRun)
    (hfts : ∀ h ∈ run.fts.getD [], db.Shows h) :
    Keyed db (run.hits db) ∧ ∀ id, id ∈ run.hits db ↔ id ∈ run.ftsIds ∨
      (∃ ids ∈ run.semantic.filterMap LegsRun.idsOf, id ∈ ids) ∧
        ∃ w, (id, w) ∈ db.windowCapture.rows := by
  have hlexical : ∀ (found : List SearchHit) (hits : Hits), (∀ h ∈ found, db.Shows h) →
      Keyed db hits →
      Keyed db (found.foldl (fun hits h => hits.insert h.windowCaptureId h) hits) ∧
        ∀ id, id ∈ found.foldl (fun hits h => hits.insert h.windowCaptureId h) hits ↔
          id ∈ hits ∨ id ∈ found.map SearchHit.windowCaptureId := by
    intro found
    induction found with
    | nil => exact fun hits _ hkeyed => ⟨hkeyed, fun id => by simp⟩
    | cons h found ih =>
      intro hits hshows hkeyed
      obtain ⟨hkeyed', hmem'⟩ := ih (hits.insert h.windowCaptureId h)
        (fun h' hh' => hshows h' (List.mem_cons_of_mem h hh'))
        (hkeyed.insert rfl (hshows h List.mem_cons_self))
      refine ⟨hkeyed', fun id => ?_⟩
      rw [List.foldl_cons, hmem', AList.mem_insert, List.map_cons, List.mem_cons]
      tauto
  have hsemantic : ∀ (legs : List (List Int)) (hits : Hits), Keyed db hits →
      Keyed db (legs.foldl (absorbIds db) hits) ∧
        ∀ id, id ∈ legs.foldl (absorbIds db) hits ↔ id ∈ hits ∨
          (∃ ids ∈ legs, id ∈ ids) ∧ ∃ w, (id, w) ∈ db.windowCapture.rows := by
    intro legs
    induction legs with
    | nil => exact fun hits hkeyed => ⟨hkeyed, fun id => by simp⟩
    | cons ids legs ih =>
      intro hits hkeyed
      obtain ⟨hone, hmem⟩ := absorbIds_spec ids hkeyed
      obtain ⟨hkeyed', hmem'⟩ := ih _ hone
      refine ⟨hkeyed', fun id => ?_⟩
      rw [List.foldl_cons, hmem', hmem]
      simp only [List.mem_cons, exists_eq_or_imp]
      tauto
  have hempty : Keyed db ∅ := fun id h hlookup => by
    rw [AList.lookup_empty] at hlookup
    cases hlookup
  obtain ⟨hkeyed, hmem⟩ := hlexical _ ∅ hfts hempty
  obtain ⟨hkeyed', hmem'⟩ := hsemantic (run.semantic.filterMap LegsRun.idsOf) _ hkeyed
  refine ⟨hkeyed', fun id => ?_⟩
  rw [LegsRun.hits, hmem', hmem]
  simp [LegsRun.ftsIds]

/-! ### Fusion and order lose no capture and repeat none -/

/-- The capture a ranked entry is about. -/
def Ranked.captureId {S : Type} (r : Ranked S) : Int := r.hit.windowCaptureId

section
variable {S : Type} [FusionArith S] {db : Ukg} {run : LegsRun}

/-- Every capture of the merge is ranked, each once: whatever entered came from a list that the
    fusion sees. -/
theorem rankedHits_spec (hfts : ∀ h ∈ run.fts.getD [], db.Shows h) :
    ((rankedHits db run : List (Ranked S)).map Ranked.captureId).Nodup ∧
      ∀ id, id ∈ (rankedHits db run : List (Ranked S)).map Ranked.captureId ↔ id ∈ run.hits db := by
  obtain ⟨hkeyed, hmem⟩ := run.hits_spec hfts
  have hfused : ∀ e ∈ (run.hits db).entries,
      e.1 ∈ (reciprocalRankFusion run.legRanks : AList fun _ : Int => S) := by
    intro e he
    rw [mem_fusion]
    have hin : e.1 ∈ run.hits db := AList.mem_keys.mpr (List.mem_map_of_mem he)
    rcases (hmem e.1).mp hin with hlex | ⟨⟨ids, hids, hid⟩, -⟩
    · cases hrun : run.fts with
      | none => simp [LegsRun.ftsIds, hrun] at hlex
      | some hits =>
        refine ⟨run.ftsIds, ?_, hlex⟩
        simp [LegsRun.legRanks, LegsRun.ftsIds, hrun]
    · exact ⟨ids, List.mem_append_right _ hids, hid⟩
  -- so `retain` keeps everything, and the ids are the keys of the map
  have hids : (rankedHits db run : List (Ranked S)).map Ranked.captureId = (run.hits db).keys := by
    rw [rankedHits, List.map_map,
      List.filter_eq_self.mpr fun e he => decide_eq_true (hfused e he)]
    refine List.map_congr_left fun e he => ?_
    exact (hkeyed e.1 e.2 (AList.mem_lookup_iff.mpr he)).1
  rw [hids]
  exact ⟨AList.keys_nodup _, fun id => AList.mem_keys.symm⟩

end

/-! ### The legs of a run -/

namespace SearchInput

variable [TextTables] [HostText] [Fts5] [VectorArith] {q : SearchInput} {run : LegsRun}

/-- The reads of a leg, all on the one state of the stores. -/
def reads (q : SearchInput) (name : LegName) : LegReads :=
  { label := q.dir.index name.store, filter := q.dir.ukg, scan := q.dir.index name.store }

/-- The legs of a run that succeeds. -/
theorem runLegs_ok (h : runLegs q.dim q.dir q.body q.answer = .ok run) :
    ftsLeg q.dir.ukg q.request q.body.query = .ok run.fts ∧
      semanticLegs q.dim q.request q.answer q.reads = .ok run.semantic := by
  unfold runLegs at h
  cases hfts : ftsLeg q.dir.ukg (legRequest q.body none) q.body.query with
  | error e =>
    rw [hfts] at h
    cases h
  | ok fts =>
    cases himage : decodedImage q.body with
    | error e =>
      rw [hfts, himage] at h
      cases h
    | ok image =>
      rw [hfts, himage] at h
      have hrequest : q.request = legRequest q.body image := by
        rw [request, himage]
        cases image <;> rfl
      have hrest : (semanticLegs q.dim q.request q.answer q.reads >>= fun semantic =>
          pure ⟨fts, semantic⟩) = Except.ok run := hrequest ▸ h
      cases hsem : semanticLegs q.dim q.request q.answer q.reads with
      | error e =>
        rw [hsem] at hrest
        cases hrest
      | ok semantic =>
        rw [hsem] at hrest
        obtain rfl := Except.ok.inj hrest
        exact ⟨hfts, rfl⟩

/-- The full-text leg of a run: what it found is what the ids of the run say. -/
theorem lexical_iff (h : runLegs q.dim q.dir q.body q.answer = .ok run) {id : Int} :
    q.Lexical id ↔ id ∈ run.ftsIds := by
  unfold Lexical LegsRun.ftsIds
  rw [(runLegs_ok h).1]
  cases run.fts <;> simp

/-- The listed legs of a run are those that scan their stores, with the candidates of what they
    find. -/
theorem listed_iff (h : runLegs q.dim q.dir q.body q.answer = .ok run) {name : LegName}
    {found : List EmbeddingHit} {ids : List Int} :
    .listed name found ids ∈ run.semantic ↔
      q.Scans name found ∧ ids = semanticCandidates found := by
  obtain ⟨hfrom, hto⟩ := mapM_ok (runLegs_ok h).2
  constructor
  · intro hmem
    obtain ⟨name', hname, hrun⟩ := hfrom _ hmem
    obtain ⟨rfl, embedding, space, hanswer, hverdict, hsearch, hids⟩ := runLeg_listed hrun
    exact ⟨⟨(List.mem_filter.mp hname).2, embedding, space, hanswer, hverdict, hsearch⟩, hids⟩
  · rintro ⟨⟨hwants, embedding, space, hanswer, hverdict, hsearch⟩, rfl⟩
    have hname :
        name ∈ [LegName.textSemantic, .imageSemantic, .imageText].filter q.request.wants := by
      rw [List.mem_filter]
      exact ⟨by cases name <;> simp, hwants⟩
    obtain ⟨out, hmem, hrun⟩ := hto name hname
    rw [hanswer] at hrun
    obtain rfl := listed_of_runLeg (q.reads name) hverdict hsearch hrun
    exact hmem

/-- The captures the listed legs rank are those found at some similarity that is not at most
    zero. -/
theorem similar_iff (h : runLegs q.dim q.dir q.body q.answer = .ok run) {id : Int} :
    (∃ ids ∈ run.semantic.filterMap LegsRun.idsOf, id ∈ ids) ↔
      ∃ name score, q.Similarity name id score ∧ F32.le score 0 = false := by
  constructor
  · rintro ⟨ids, hids, hid⟩
    obtain ⟨answer, hmem, heq⟩ := List.mem_filterMap.mp hids
    cases answer with
    | noted note => cases heq
    | listed name found ids' =>
      obtain rfl : ids' = ids := Option.some.inj heq
      obtain ⟨hscans, rfl⟩ := (listed_iff h).mp hmem
      obtain ⟨hit, hhit, hcapture, hle⟩ := mem_semanticCandidates.mp hid
      exact ⟨name, hit.score, ⟨found, hscans, hit, hhit, hcapture, rfl⟩, hle⟩
  · rintro ⟨name, score, ⟨found, hscans, hit, hhit, hcapture, rfl⟩, hle⟩
    refine ⟨semanticCandidates found, ?_, mem_semanticCandidates.mpr ⟨hit, hhit, hcapture, hle⟩⟩
    exact List.mem_filterMap.mpr ⟨_, (listed_iff h).mpr ⟨hscans, rfl⟩, rfl⟩

/-- The answer names the full-text leg if that has run. -/
theorem fts_mem_legs (h : runLegs q.dim q.dir q.body q.answer = .ok run) {id : Int}
    (hid : q.Lexical id) : "fts" ∈ run.legs := by
  obtain ⟨hits, hleg, -⟩ := hid
  rw [(runLegs_ok h).1] at hleg
  have hfts : run.fts = some hits := Except.ok.inj hleg
  rw [LegsRun.legs, hfts]
  exact List.mem_append_left _ (List.mem_singleton_self _)

/-- The answer names every leg that found a vector. -/
theorem listed_mem_legs (h : runLegs q.dim q.dir q.body q.answer = .ok run) {name : LegName}
    {id : Int} {score : F32} (hsim : q.Similarity name id score) : name.listed ∈ run.legs := by
  obtain ⟨found, hscans, -⟩ := hsim
  refine List.mem_append_right _ (List.mem_filterMap.mpr ?_)
  exact ⟨_, (listed_iff h).mpr ⟨hscans, rfl⟩, rfl⟩

/-! ### The filters hold on every path -/

omit [Fts5] [VectorArith] in
/-- To be inside the filters is what the query for the set of ids asks. -/
theorem inside_iff {id : Int} :
    q.Inside id ↔ q.dir.ukg.Eligible (ftsOptions q.request q.body.query) id := by
  rw [Ukg.eligible_iff]
  rfl

/-- A hit of the full-text leg is inside the filters and shows what is stored; both are the
    query's own conditions. -/
theorem fts_hit (h : runLegs q.dim q.dir q.body q.answer = .ok run) {hit : SearchHit}
    (hmem : hit ∈ run.fts.getD []) : q.Inside hit.windowCaptureId ∧ q.dir.ukg.Shows hit := by
  have hleg := (runLegs_ok h).1
  unfold ftsLeg at hleg
  split at hleg
  · cases hfts : q.dir.ukg.searchFts (ftsOptions q.request q.body.query) with
    | none =>
      rw [hfts] at hleg
      cases hleg
    | some hits =>
      rw [hfts] at hleg
      obtain hrun : some hits = run.fts := Except.ok.inj hleg
      rw [← hrun] at hmem
      obtain ⟨heligible, hshows⟩ := Ukg.searchFts_mem hfts hmem
      exact ⟨inside_iff.mpr heligible, hshows⟩
  · obtain hrun : none = run.fts := Except.ok.inj hleg
    rw [← hrun] at hmem
    cases hmem

omit [Fts5] in
/-- A stored capture that a scan finds is in the allow-list of the scan, so inside the filters. -/
theorem inside_of_similarity {name : LegName} {id : Int} {score : F32}
    (hstored : ∃ w, (id, w) ∈ q.dir.ukg.windowCapture.rows)
    (hsim : q.Similarity name id score) : q.Inside id := by
  obtain ⟨found, ⟨-, embedding, space, -, -, hsearch⟩, hit, hhit, hcapture, -⟩ := hsim
  have hallowed := SiDb.search_allowed hsearch hhit
  refine inside_iff.mpr (Ukg.eligible_of_listed hstored fun ids hids => ?_)
  have hids' : q.dir.ukg.captureIdsMatchingFilters q.request.start100ns q.request.end100ns
    q.request.appFilter = some ids := hids
  rw [hids', allowedItem, hcapture] at hallowed
  exact List.contains_iff_mem.mp hallowed

/-- The captures of the merge: found by the full-text leg, or stored and found at a similarity
    that is not at most zero. -/
theorem mem_hits (h : runLegs q.dim q.dir q.body q.answer = .ok run) {id : Int} :
    id ∈ run.hits q.dir.ukg ↔ q.Lexical id ∨
      (∃ name score, q.Similarity name id score ∧ F32.le score 0 = false) ∧
        ∃ w, (id, w) ∈ q.dir.ukg.windowCapture.rows := by
  rw [(run.hits_spec fun _ hmem => (fts_hit h hmem).2).2, lexical_iff h, similar_iff h]

/-- Whatever the legs found is inside them, each by the filter of its own leg. -/
theorem inside_of_mem_hits (h : runLegs q.dim q.dir q.body q.answer = .ok run) {id : Int}
    (hid : id ∈ run.hits q.dir.ukg) : q.Inside id := by
  rcases (mem_hits h).mp hid with hlex | ⟨⟨name, score, hsim, -⟩, hstored⟩
  · obtain ⟨hit, hmem, rfl⟩ := List.mem_map.mp ((lexical_iff h).mp hlex)
    exact (fts_hit h hmem).1
  · exact inside_of_similarity hstored hsim

/-- A capture of the merge is ranked by a leg of the answer, or only by similarities that are not
    numbers. -/
theorem rankedBy_or_onlyNan (h : runLegs q.dim q.dir q.body q.answer = .ok run) {id : Int}
    (hid : id ∈ run.hits q.dir.ukg) : q.RankedBy run.legs id ∨ q.OnlyNan id := by
  by_cases hlex : q.Lexical id
  · exact Or.inl (Or.inl ⟨fts_mem_legs h hlex, hlex⟩)
  by_cases hpositive : ∃ name score, q.Similarity name id score ∧ F32.lt 0 score = true
  · obtain ⟨name, score, hsim, hlt⟩ := hpositive
    exact Or.inl (Or.inr ⟨name, score, listed_mem_legs h hsim, hsim, hlt⟩)
  obtain ⟨⟨name, score, hsim, hle⟩, hstored⟩ := ((mem_hits h).mp hid).resolve_left hlex
  have hnone : ∀ name score, q.Similarity name id score → F32.lt 0 score = false := by
    intro name score hsim
    by_contra hlt
    exact hpositive ⟨name, score, hsim, Bool.not_eq_false _ |>.mp hlt⟩
  exact Or.inr ⟨hstored, hlex,
    ⟨name, score, hsim, F32.isNan_of_le_of_lt hle (hnone name score hsim)⟩, hnone⟩

/-- A capture whose similarities are no numbers is ranked by no leg. -/
theorem not_rankedBy_of_onlyNan {legs : List String} {id : Int} (h : q.OnlyNan id) :
    ¬ q.RankedBy legs id := by
  obtain ⟨-, hlex, -, hnone⟩ := h
  rintro (⟨-, hlex'⟩ | ⟨name, score, -, hsim, hlt⟩)
  · exact hlex hlex'
  · rw [hnone name score hsim] at hlt
    cases hlt

/-- And yet it is among the hits, since a score that is no number is not at most zero either. -/
theorem mem_hits_of_onlyNan (h : runLegs q.dim q.dir q.body q.answer = .ok run) {id : Int}
    (hid : q.OnlyNan id) : id ∈ run.hits q.dir.ukg := by
  obtain ⟨hstored, -, ⟨name, score, hsim, hnan⟩, -⟩ := hid
  refine (mem_hits h).mpr (Or.inr ⟨⟨name, score, hsim, ?_⟩, hstored⟩)
  simp [F32.le, hnan]

end SearchInput

/-! ### The answer -/

section
variable {S : Type} [FusionArith S]

/-- The comparator compares scores, then the full-text leg, then times, greatest first; as a
    lexicographic order it is transitive if its parts are. -/
theorem compareRanked_eq_lex (lexical : List Int) :
    (compareRanked lexical : Ranked S → Ranked S → Ordering)
      = compareLex (compareLex (fun a b => scoreOrder b.score a.score)
          fun a b => compare (lexical.contains b.hit.windowCaptureId)
            (lexical.contains a.hit.windowCaptureId))
          fun a b => compare b.hit.timestamp100ns a.hit.timestamp100ns := by
  funext a b
  simp only [compareRanked, compareLex, scoreOrder]
  cases lexical.contains b.hit.windowCaptureId <;>
    cases lexical.contains a.hit.windowCaptureId <;> rfl

/-- The comparator is a strict weak order if that of the scores is one: it compares score, leg
    and time one after the other. -/
theorem transCmp_compareRanked [Std.TransCmp (scoreOrder : S → S → Ordering)]
    (lexical : List Int) :
    Std.TransCmp (compareRanked lexical : Ranked S → Ranked S → Ordering) := by
  have hscore := transCmp_swap (scoreOrder : S → S → Ordering) (Ranked.score : Ranked S → S)
  have hleg := transCmp_swap (compare : Bool → Bool → Ordering)
    fun r : Ranked S => lexical.contains r.hit.windowCaptureId
  have htime := transCmp_swap (compare : Int → Int → Ordering)
    fun r : Ranked S => r.hit.timestamp100ns
  rw [compareRanked_eq_lex]
  infer_instance

/-- So many captures of the merge come before this one that the cut drops it, wherever the hash
    order puts it among its equals. -/
def Outranked (S : Type) [FusionArith S] (db : Ukg) (run : LegsRun) (limit id : Int) : Prop :=
  ∃ r ∈ (rankedHits db run : List (Ranked S)), r.captureId = id ∧
    limit.toNat ≤ (rankedHits db run).countP fun b => compareRanked run.ftsIds r b = .gt

variable {db : Ukg} {run : LegsRun} {limit : Int}

/-- The results are captures of the merge, each once, and no more than the limit, for every hash
    order. -/
theorem orderedHits_spec (order : HashOrder (Ranked S)) (limit : Int)
    (hfts : ∀ h ∈ run.fts.getD [], db.Shows h) :
    (∀ r ∈ orderedHits order db run limit, r.captureId ∈ run.hits db) ∧
      ((orderedHits order db run limit).map Ranked.captureId).Nodup ∧
        (orderedHits order db run limit).length ≤ limit.toNat := by
  obtain ⟨hnodup, hmem⟩ := rankedHits_spec (S := S) hfts
  have hperm := (List.perm_insertionSort (fun a b => compareRanked run.ftsIds a b ≠ .gt)
    (order.arrange (rankedHits db run))).trans (order.perm _)
  refine ⟨fun r hr => ?_, ?_, List.length_take_le _ _⟩
  · rw [← hmem]
    exact List.mem_map_of_mem (hperm.mem_iff.mp (List.mem_of_mem_take hr))
  · exact ((hperm.map Ranked.captureId).nodup_iff.mpr hnodup).sublist
      ((List.take_sublist _ _).map _)

/-- A capture that is outranked is not among the results, whatever the hash order. -/
theorem not_mem_of_outranked [Std.TransCmp (scoreOrder : S → S → Ordering)]
    (order : HashOrder (Ranked S)) (hfts : ∀ h ∈ run.fts.getD [], db.Shows h) {id : Int}
    (hout : Outranked S db run limit id) :
    id ∉ (orderedHits order db run limit).map Ranked.captureId := by
  obtain ⟨r, hr, rfl, hcount⟩ := hout
  intro hmem
  obtain ⟨r', hr', hid⟩ := List.mem_map.mp hmem
  have := transCmp_compareRanked (S := S) run.ftsIds
  have hperm := (List.perm_insertionSort (fun a b => compareRanked run.ftsIds a b ≠ .gt)
    (order.arrange (rankedHits db run))).trans (order.perm _)
  -- the ids of the merge are distinct, so it is the same entry
  have hsame : r' = r := List.inj_on_of_nodup_map (rankedHits_spec (S := S) hfts).1
    (hperm.mem_iff.mp (List.mem_of_mem_take hr')) hr hid
  have hfew := countP_gt_of_mem_take (pairwise_insertionSort _) hr'
  rw [hperm.countP_eq, hsame] at hfew
  exact absurd hcount (not_le.mpr hfew)

/-- A capture of the merge that is not outranked is among the results for some hash order, the
    one that hands it out first. -/
theorem mem_of_not_outranked (hfts : ∀ h ∈ run.fts.getD [], db.Shows h) {id : Int}
    (hid : id ∈ run.hits db) (hout : ¬ Outranked S db run limit id) :
    ∃ order : HashOrder (Ranked S),
      ∃ r ∈ orderedHits order db run limit, r.captureId = id := by
  classical
  obtain ⟨r, hr, rfl⟩ := List.mem_map.mp (((rankedHits_spec (S := S) hfts).2 id).mpr hid)
  refine ⟨HashOrder.first r, r, ?_, rfl⟩
  have hfew : (rankedHits db run).countP (fun b => compareRanked run.ftsIds r b = .gt)
      < limit.toNat := by
    by_contra hmany
    exact hout ⟨r, hr, rfl, not_lt.mp hmany⟩
  have harrange : (HashOrder.first r).arrange (rankedHits db run)
      = r :: (rankedHits db run).erase r := if_pos hr
  rw [orderedHits, harrange]
  exact mem_take_insertionSort (lt_of_le_of_lt List.erase_sublist.countP_le hfew)

section
variable [TextTables] [HostText] [UuidText] [Fts5] [VectorArith]

/-- A request the route accepts: the checks pass, the client is there, its image decodes, and the
    legs end in the given run. -/
structure SearchInput.Accepted (q : SearchInput) (root : DataRoot) (run : LegsRun) : Prop where
  checked : checkRequest q.body = .ok ()
  client : clientDir root q.body.client = .ok q.dir
  legs : runLegs q.dim q.dir q.body q.answer = .ok run

/-- Whatever the route answers is sound, in whatever order its hash map hands out the captures. -/
def SearchInput.AnsweredSoundly (S : Type) [FusionArith S] (q : SearchInput) (root : DataRoot) :
    Prop :=
  ∀ (order : HashOrder (Ranked S)) (out : SearchAnswer S),
    search order q.dim root q.body q.answer = .ok out → q.Sound out

variable {q : SearchInput} {root : DataRoot}

/-- The answer to an accepted request. -/
theorem search_accepted (h : q.Accepted root run) (order : HashOrder (Ranked S)) :
    search order q.dim root q.body q.answer
      = .ok (searchAnswer order q.dir.ukg q.body run q.request.resultLimit) := by
  unfold search
  rw [h.checked, h.client]
  show (runLegs q.dim q.dir q.body q.answer >>= fun run =>
    pure (searchAnswer order q.dir.ukg q.body run q.request.resultLimit)) = _
  rw [h.legs]
  rfl

/-- One answer is sound exactly if nothing but similarities that are not numbers speaks for none of
    its results. -/
theorem sound_iff (h : q.Accepted root run) (order : HashOrder (Ranked S)) :
    q.Sound (searchAnswer order q.dir.ukg q.body run q.request.resultLimit) ↔
      ∀ r ∈ orderedHits order q.dir.ukg run q.request.resultLimit, ¬ q.OnlyNan r.captureId := by
  obtain ⟨hmem, hnodup, hlength⟩ := orderedHits_spec order q.request.resultLimit
    fun hit hhit => (SearchInput.fts_hit h.legs hhit).2
  constructor
  · intro hsound r hr hnan
    exact SearchInput.not_rankedBy_of_onlyNan hnan (hsound.ranked _ (List.mem_map_of_mem hr))
  · intro hnone
    refine ⟨?_, ?_, ?_, ?_⟩
    · intro result hresult
      obtain ⟨r, hr, rfl⟩ := List.mem_map.mp hresult
      exact SearchInput.inside_of_mem_hits h.legs (hmem r hr)
    · intro result hresult
      obtain ⟨r, hr, rfl⟩ := List.mem_map.mp hresult
      exact (SearchInput.rankedBy_or_onlyNan h.legs (hmem r hr)).resolve_right (hnone r hr)
    · show ((List.map (searchResult q.body.client) _).map _).Nodup
      rw [List.map_map]
      exact hnodup
    · have hpositive : 1 ≤ q.request.resultLimit := le_max_left _ _
      show ((List.map (searchResult q.body.client) _).length : Int) ≤ q.request.resultLimit
      rw [List.length_map]
      omega

/-- **When the results of a search are sound.**  An accepted request is answered soundly exactly if
    every capture that only similarities that are not numbers speak for is outranked, so that the
    limit cuts it off. -/
theorem search_sound_iff [Std.TransCmp (scoreOrder : S → S → Ordering)] (q : SearchInput)
    (root : DataRoot) (run : LegsRun) (h : q.Accepted root run) :
    q.AnsweredSoundly S root ↔
      ∀ id, q.OnlyNan id → Outranked S q.dir.ukg run q.request.resultLimit id := by
  have hfts : ∀ hit ∈ run.fts.getD [], q.dir.ukg.Shows hit :=
    fun hit hhit => (SearchInput.fts_hit h.legs hhit).2
  constructor
  · intro hsound id hnan
    by_contra hout
    -- some hash order shows the capture
    obtain ⟨order, r, hr, rfl⟩ := mem_of_not_outranked (S := S) hfts
      (SearchInput.mem_hits_of_onlyNan h.legs hnan) hout
    exact (sound_iff h order).mp (hsound order _ (search_accepted h order)) r hr hnan
  · intro hout order out hrun
    rw [search_accepted h order] at hrun
    obtain rfl := Except.ok.inj hrun
    refine (sound_iff h order).mpr fun r hr hnan => ?_
    exact not_mem_of_outranked order hfts (hout _ hnan) (List.mem_map_of_mem hr)

end

end

/-! ### One capture in the text store -/

section

attribute [local instance] TextTables.ascii UuidText.crate Ukg.matchAll

/-- No base64 and no formatter. -/
@[reducible]
def noHostText : HostText where
  decodeBase64 := fun _ => .error "unsupported"
  debugText := id

/-- Fused scores as rational numbers. -/
@[reducible]
def rationalFusion : FusionArith ℚ where
  zero := 0
  contribution := fun rank => 1 / (60 + rank + 1)
  add := (· + ·)
  compare := fun a b => some (compare a b)

/-- The bits of `1e20`, whose square no 32-bit float holds: the cosine of such a vector with
    itself is no number. -/
def hugeEntry : F32 := 0x60ad78ec

/-- Arithmetic on vectors of width 1 that are units or `1e20`: a huge vector has an infinite norm,
    and is as similar to itself as infinity divided by infinity. -/
@[reducible]
def hugeArith : VectorArith where
  norm := fun v => if v = [hugeEntry] then 0x7f800000 else 0x3f800000
  cosine := fun query qnorm other =>
    if qnorm = 0x7f800000 ∧ other = [hugeEntry] then 0x7fc00000
    else if query = other then 0x3f800000 else 0xbf800000

attribute [local instance] noHostText rationalFusion hugeArith

/-- A client with one capture, whose text was embedded as one number; the entry decides what the
    scan makes of it. -/
def embeddedCapture (entry : F32) : ClientDir :=
  { ClientDir.new with
    ukg := Ukg.notesCapture
    text := (SiDb.new.ensureInfo 1 "T").insertRows (itemIdForCapture 1) none none [entry] }

/-- A text query that the embedder maps to the same number. -/
def semanticQuery (entry : F32) : SearchInput where
  dim := 1
  dir := embeddedCapture entry
  body := { client := smallId.text, query := "hello", mode := some "semantic" }
  answer := fun name => match name with
    | .textSemantic => .ok [entry] "T"
    | _ => .disabled

/-- The scan of the text store. -/
def semanticRun (score : F32) : LegsRun where
  fts := none
  semantic := [.listed .textSemantic [⟨itemIdForCapture 1, none, score⟩] [1],
    .noted "text→image leg skipped: needs a CLIP-backed AI service (/embed/image-text)"]

/-- The data directory with the one client. -/
def embeddedRoot (entry : F32) : DataRoot :=
  Function.update (fun _ => none) smallId (some (embeddedCapture entry))

/-- The route accepts it. -/
theorem semanticQuery_accepted :
    (semanticQuery 0x3f800000).Accepted (embeddedRoot 0x3f800000) (semanticRun 0x3f800000) where
  checked := by decide +kernel
  client := clientDir_known (UuidText.parseStr_text smallId) (Function.update_self ..)
  legs := by decide +kernel

/-- The one similarity of the query is that of the scan. -/
theorem semanticQuery_score {entry score : F32} {name : LegName} {id : Int} {score' : F32}
    (hscan : (embeddedCapture entry).text.search 1 [entry] 80 none
      = .ok [⟨itemIdForCapture 1, none, score⟩])
    (h : (semanticQuery entry).Similarity name id score') :
    score' = score := by
  obtain ⟨found, ⟨-, embedding, space, hanswer, -, hsearch⟩, hit, hhit, -, rfl⟩ := h
  cases name with
  | textSemantic =>
    obtain ⟨rfl, rfl⟩ := EmbedOutcome.ok.inj hanswer
    have hfound : found = [⟨itemIdForCapture 1, none, score⟩] :=
      Except.ok.inj (hsearch.symm.trans hscan)
    rw [hfound, List.mem_singleton] at hhit
    rw [hhit]
  | _ => cases hanswer

/-- Scores that are rational numbers compare as a linear order. -/
theorem transCmp_rational : Std.TransCmp (scoreOrder : ℚ → ℚ → Ordering) := by
  have h : (scoreOrder : ℚ → ℚ → Ordering) = compare := rfl
  rw [h]
  infer_instance

/-- A capture found at similarity 1 is a sound result. -/
theorem search_sound_unit :
    (semanticQuery 0x3f800000).AnsweredSoundly ℚ (embeddedRoot 0x3f800000) := by
  have := transCmp_rational
  refine (search_sound_iff (semanticQuery 0x3f800000) (embeddedRoot 0x3f800000)
    (semanticRun 0x3f800000) semanticQuery_accepted).mpr ?_
  rintro id ⟨-, -, ⟨name, score, hsim, hnan⟩, -⟩
  have hscan : (embeddedCapture 0x3f800000).text.search 1 [0x3f800000] 80 none
      = .ok [⟨itemIdForCapture 1, none, 0x3f800000⟩] := by
    decide +kernel
  rw [semanticQuery_score hscan hsim] at hnan
  cases hnan

/-- A capture whose vector overflows is a result, at a similarity that is not a number, though
    the answer names the text leg for it. -/
theorem search_unsound_huge :
    ∃ out : SearchAnswer ℚ,
      search ⟨id, fun _ => List.Perm.refl _⟩ 1 (embeddedRoot hugeEntry)
        (semanticQuery hugeEntry).body (semanticQuery hugeEntry).answer = .ok out ∧
      out.results.map SearchResult.windowCaptureId = [1] ∧ out.legs = ["text-semantic"] ∧
      ¬ (semanticQuery hugeEntry).Sound out := by
  have haccepted : (semanticQuery hugeEntry).Accepted (embeddedRoot hugeEntry)
      (semanticRun 0x7fc00000) :=
    ⟨by decide +kernel, clientDir_known (UuidText.parseStr_text smallId) (Function.update_self ..),
      by decide +kernel⟩
  refine ⟨_, search_accepted haccepted _, by decide +kernel, by decide +kernel, fun hsound => ?_⟩
  obtain ⟨r, hr⟩ : ∃ r, r ∈ (searchAnswer (⟨id, fun _ => List.Perm.refl _⟩ : HashOrder (Ranked ℚ))
      (semanticQuery hugeEntry).dir.ukg (semanticQuery hugeEntry).body (semanticRun 0x7fc00000)
      (semanticQuery hugeEntry).request.resultLimit).results :=
    List.exists_mem_of_ne_nil _ (by decide +kernel)
  rcases hsound.ranked r hr with ⟨hfts, -⟩ | ⟨name, score, -, hsim, hlt⟩
  · have hmissing : "fts" ∉ (semanticRun 0x7fc00000).legs := by decide +kernel
    exact hmissing hfts
  · have hscan : (embeddedCapture hugeEntry).text.search 1 [hugeEntry] 80 none
        = .ok [⟨itemIdForCapture 1, none, 0x7fc00000⟩] := by
      decide +kernel
    rw [semanticQuery_score hscan hsim] at hlt
    cases hlt

end

end Precall.Api
