import Precall.Api.Spaces

namespace Precall.Api

open ByteLib TextLib Durable Precall.Proto Precall.Store

/-!
# The semantic legs of a search

The part of the search route that ranks vectors (`precall-api/src/routes.rs`).  A leg takes three
steps on its own connections: it reads the store's label, it reads the ids inside the request's
filters, it scans the vectors.  The enricher may commit writes in between, so a leg is a function
of three snapshots (`LegReads`), and a `LegSchedule` places them on the log of a history.

* `label_after` — the label a scan meets is the last one written since the label was read;
* `search_comparable` — if, for each leg that passes the check, that is the query's, every listed
  leg holds vectors of the query's space only;
* `search_incomparable` — a rebuild between the two reads breaks it.
-/

/-- The semantic legs, in the order the route runs them: text against the texts of captures, an
    image against their images, and text against their images. -/
inductive LegName where
  | textSemantic
  | imageSemantic
  | imageText
  deriving DecidableEq, Repr

/-- The store a leg scans.  Two legs share the image store, so one rebuild of it can fall into
    the reads of both. -/
def LegName.store : LegName → Leg
  | .textSemantic => .text
  | .imageSemantic | .imageText => .image

/-- How the notes call a leg. -/
def LegName.skipped : LegName → String
  | .textSemantic => "text-semantic leg skipped: "
  | .imageSemantic => "image-semantic leg skipped: "
  | .imageText => "text→image leg skipped: "

/-- The file name of a leg's store, as the notes spell it. -/
def storeFile : Leg → String
  | .text => "SemanticTextStore.db"
  | .image => "SemanticImageStore.db"

/-- `ApiError` — the refusals of a route, by status.  What the stores refuse with is passed on as
    it is; the first three carry the text of the reply. -/
inductive ApiError where
  | badRequest (text : String)
  | notFound (text : String)
  | unavailable (text : String)
  | semantic (e : SemanticError)
  | store (e : UkgError)
  | objects (e : ObjectError)
  deriving DecidableEq, Repr

/-- The part of a request the semantic legs read; `image` is the image query once decoded, and
    the limit is the one of the body, not yet bounded. -/
structure LegRequest where
  mode : String
  hasQuery : Bool
  image : Option Bytes
  start100ns : Option Int
  end100ns : Option Int
  appFilter : List String
  limit : Option Int

/-- The snapshots one leg reads: the store at the label check, the metadata database at the
    filter query, the store at the scan. -/
structure LegReads where
  label : SiDb
  filter : Ukg
  scan : SiDb

/-- What a leg contributes to the answer: its hits and the ids they rank, under its name, or the
    note that says why it was left out. -/
inductive LegAnswer where
  | listed (name : LegName) (found : List EmbeddingHit) (ids : List Int)
  | noted (note : String)
  deriving DecidableEq, Repr

/-- `index_space_verdict` — the label a store was built with, if that is another than the
    query's.  A store without a label, or one labelled unknown, is let through. -/
def indexSpaceVerdict (idx : SiDb) (querySpace : String) : Option String :=
  match idx.spaceId with
  | some stored => if stored ≠ querySpace ∧ stored ≠ spaceUnknown then some stored else none
  | none => none

/-- The number of results a request gets: what it asks for, or 20, kept between 1 and 200. -/
def LegRequest.resultLimit (req : LegRequest) : Int := max 1 (min (req.limit.getD 20) 200)

/-- `fusion_pool` — the candidate window of a leg: four times the limit, though no more than 500
    and no less than the limit. -/
def fusionPool (limit : Int) : Int := max limit (min (limit * 4) 500)

/-- `semantic_candidates` — the captures behind the hits of positive similarity, each once, in
    the order of the hits.  A score that is no number is not at most zero and stays. -/
def semanticCandidates (found : List EmbeddingHit) : List Int :=
  found.foldl (fun ids h =>
    if F32.le h.score 0 then ids
    else match captureIdForItem h.itemId with
      | some id => if ids.contains id then ids else ids ++ [id]
      | none => ids) []

section
variable [VectorArith] (dim : Nat) (req : LegRequest) (reads : LegReads)

/-- What the three legs have in common, in this order: label check, width check, the set of
    allowed captures, the scan.  Each reads the store anew. -/
def scanLeg (name : LegName) (embedding : List F32) (space : String)
    (wrongWidth : Except ApiError LegAnswer) : Except ApiError LegAnswer :=
  match indexSpaceVerdict reads.label space with
  | some stored =>
      .ok (.noted (name.skipped ++ storeFile name.store ++ " was built with " ++ stored ++ ", not "
        ++ space ++ "; the enricher will rebuild it"))
  | none =>
      if embedding.length ≠ dim then wrongWidth
      else
        let allowed :=
          reads.filter.captureIdsMatchingFilters req.start100ns req.end100ns req.appFilter
        match reads.scan.search dim embedding (fusionPool req.resultLimit).toNat allowed with
        | .ok found => .ok (.listed name found (semanticCandidates found))
        | .error e => .error (.semantic e)

/-- Text query against the text store.  Whatever the embedder says other than a vector, the leg
    is left out with a note and the request goes on. -/
def textSemanticLeg : EmbedOutcome → Except ApiError LegAnswer
  | .ok embedding space =>
      scanLeg dim req reads .textSemantic embedding space
        (.ok (.noted (LegName.textSemantic.skipped ++ "the embedder returned "
          ++ toString embedding.length ++ " values, the store holds " ++ toString dim)))
  | .disabled => .ok (.noted (LegName.textSemantic.skipped ++ "no embedder configured"))
  | .rejected | .retry =>
      .ok (.noted (LegName.textSemantic.skipped
        ++ "the AI service did not answer (FTS results only)"))

/-- Supplied image against the image store.  The caller asked for nothing else, so a failure here
    fails the request. -/
def imageSemanticLeg (answer : EmbedOutcome) : Except ApiError LegAnswer :=
  if req.image = some [] then .error (.badRequest "image query is empty")
  else match answer with
  | .ok embedding space =>
      scanLeg dim req reads .imageSemantic embedding space
        (.error (.unavailable ("the AI service returned " ++ toString embedding.length
          ++ " values for this image, expected " ++ toString dim)))
  | .disabled => .error (.badRequest "image embedding unavailable (no embedder configured)")
  | .rejected => .error (.badRequest "the AI service refused this image (undecodable frame?)")
  | .retry => .error (.unavailable "the AI service is not answering; image search needs it")

/-- Text query against the image store, through the service's joint space; its failures are
    notes, as in the text leg. -/
def imageTextLeg : EmbedOutcome → Except ApiError LegAnswer
  | .ok embedding space =>
      scanLeg dim req reads .imageText embedding space
        (.ok (.noted (LegName.imageText.skipped ++ "the service returned "
          ++ toString embedding.length ++ " values, the store holds " ++ toString dim)))
  | .disabled =>
      .ok (.noted (LegName.imageText.skipped
        ++ "needs a CLIP-backed AI service (/embed/image-text)"))
  | .rejected | .retry =>
      .ok (.noted (LegName.imageText.skipped
        ++ "the AI service did not answer (/embed/image-text)"))

/-- One leg on its snapshots, given the embedder's answer to the query; an error fails the whole
    request. -/
def runLeg (name : LegName) (answer : EmbedOutcome) : Except ApiError LegAnswer :=
  match name with
  | .textSemantic => textSemanticLeg dim req reads answer
  | .imageSemantic => imageSemanticLeg dim req reads answer
  | .imageText => imageTextLeg dim req reads answer

end

/-- Does the request call for a leg? The two text legs go by the mode and the query, the image
    leg by the image alone. -/
def LegRequest.wants (req : LegRequest) : LegName → Bool
  | .textSemantic | .imageText => (req.mode == "hybrid" || req.mode == "semantic") && req.hasQuery
  | .imageSemantic => req.image.isSome

/-- The semantic legs of one request, in order, each on its own snapshots; the first error fails
    the request. -/
def semanticLegs [VectorArith] (dim : Nat) (req : LegRequest) (answer : LegName → EmbedOutcome)
    (reads : LegName → LegReads) : Except ApiError (List LegAnswer) :=
  ([.textSemantic, .imageSemantic, .imageText].filter req.wants).mapM fun name =>
    runLeg dim req (reads name) name (answer name)

/-! ### One leg -/

section
variable [VectorArith] {dim : Nat} {req : LegRequest} {reads : LegReads} {name : LegName}

/-- What a scan that does not fail ends in: a note on the label, the leg's own answer to a wrong
    width, or the hits of the store inside the filters. -/
theorem scanLeg_cases {embedding : List F32} {space : String}
    {wrongWidth : Except ApiError LegAnswer} {out : LegAnswer}
    (h : scanLeg dim req reads name embedding space wrongWidth = .ok out) :
    (indexSpaceVerdict reads.label space ≠ none ∧ ∃ why, out = .noted (name.skipped ++ why)) ∨
    (embedding.length ≠ dim ∧ wrongWidth = .ok out) ∨
    (indexSpaceVerdict reads.label space = none ∧ ∃ found,
      reads.scan.search dim embedding (fusionPool req.resultLimit).toNat
        (reads.filter.captureIdsMatchingFilters req.start100ns req.end100ns req.appFilter)
          = .ok found ∧ out = .listed name found (semanticCandidates found)) := by
  unfold scanLeg at h
  split at h
  · rename_i stored hverdict
    refine Or.inl ⟨by rw [hverdict]; exact Option.some_ne_none stored, ?_⟩
    rw [← Except.ok.inj h]
    simp only [String.append_assoc]
    exact ⟨_, rfl⟩
  · rename_i hverdict
    split at h
    · rename_i hwidth
      exact Or.inr (Or.inl ⟨hwidth, h⟩)
    · dsimp only at h
      split at h
      · rename_i found hsearch
        exact Or.inr (Or.inr ⟨hverdict, found, hsearch, (Except.ok.inj h).symm⟩)
      · cases h

/-- What a leg ends in: the end of its scan, where a wrong width is at most noted, or a note that
    there is no embedding. -/
theorem runLeg_cases {answer : EmbedOutcome} {out : LegAnswer}
    (h : runLeg dim req reads name answer = .ok out) :
    (∃ embedding space wrongWidth, answer = .ok embedding space ∧
      scanLeg dim req reads name embedding space wrongWidth = .ok out ∧
      ∀ noted, wrongWidth = .ok noted → ∃ why, noted = .noted (name.skipped ++ why)) ∨
    ((∀ embedding space, answer ≠ .ok embedding space) ∧
      ∃ why, out = .noted (name.skipped ++ why)) := by
  have hnote : ∀ {why : String} {noted : LegAnswer},
      (Except.ok (.noted (name.skipped ++ why)) : Except ApiError LegAnswer) = .ok noted →
      ∃ why, noted = .noted (name.skipped ++ why) :=
    fun heq => ⟨_, (Except.ok.inj heq).symm⟩
  cases name with
  | textSemantic =>
    cases answer with
    | ok embedding space =>
      refine Or.inl ⟨embedding, space, _, rfl, h, fun noted heq => ?_⟩
      simp only [String.append_assoc] at heq
      exact hnote heq
    | _ => exact Or.inr ⟨by simp, hnote h⟩
  | imageSemantic =>
    simp only [runLeg, imageSemanticLeg] at h
    split at h
    · cases h
    · cases answer with
      | ok embedding space =>
        exact Or.inl ⟨embedding, space, _, rfl, h, fun noted heq => by cases heq⟩
      | _ => cases h
  | imageText =>
    cases answer with
    | ok embedding space =>
      refine Or.inl ⟨embedding, space, _, rfl, h, fun noted heq => ?_⟩
      simp only [String.append_assoc] at heq
      exact hnote heq
    | _ => exact Or.inr ⟨by simp, hnote h⟩

/-- A leg is listed only after its label check passed, with the hits of its scan inside the
    request's filters. -/
theorem runLeg_listed {name' : LegName} {answer : EmbedOutcome} {found : List EmbeddingHit}
    {ids : List Int} (h : runLeg dim req reads name answer = .ok (.listed name' found ids)) :
    name' = name ∧ ∃ embedding space, answer = .ok embedding space ∧
      indexSpaceVerdict reads.label space = none ∧
      reads.scan.search dim embedding (fusionPool req.resultLimit).toNat
        (reads.filter.captureIdsMatchingFilters req.start100ns req.end100ns req.appFilter)
          = .ok found ∧ ids = semanticCandidates found := by
  rcases runLeg_cases h with ⟨embedding, space, wrongWidth, hanswer, hscan, hwrong⟩ | ⟨-, why, hout⟩
  · rcases scanLeg_cases hscan with ⟨-, why, hout⟩ | ⟨-, hown⟩ | ⟨hverdict, hits, hsearch, hout⟩
    · cases hout
    · obtain ⟨why, hout⟩ := hwrong _ hown
      cases hout
    · obtain ⟨rfl, rfl, rfl⟩ := LegAnswer.listed.inj hout
      exact ⟨rfl, embedding, space, hanswer, hverdict, hsearch, rfl⟩
  · cases hout

/-- A leg that neither is listed nor fails the request is named in its note, so the caller can
    tell which one is missing. -/
theorem runLeg_noted {answer : EmbedOutcome} {note : String}
    (h : runLeg dim req reads name answer = .ok (.noted note)) :
    ∃ why, note = name.skipped ++ why := by
  have hout : ∃ why, LegAnswer.noted note = .noted (name.skipped ++ why) := by
    rcases runLeg_cases h with ⟨embedding, space, wrongWidth, -, hscan, hwrong⟩ | ⟨-, hout⟩
    · rcases scanLeg_cases hscan with ⟨-, hout⟩ | ⟨-, hown⟩ | ⟨-, hits, -, hlisted⟩
      · exact hout
      · exact hwrong _ hown
      · cases hlisted
    · exact hout
  obtain ⟨why, heq⟩ := hout
  exact ⟨why, LegAnswer.noted.inj heq⟩

/-- A leg that answers on a store in its space, with a scan that succeeds, is listed. -/
theorem listed_of_runLeg (reads : LegReads) {embedding : List F32} {space : String}
    {found : List EmbeddingHit} {out : LegAnswer}
    (hverdict : indexSpaceVerdict reads.label space = none)
    (hsearch : reads.scan.search dim embedding (fusionPool req.resultLimit).toNat
      (reads.filter.captureIdsMatchingFilters req.start100ns req.end100ns req.appFilter)
        = .ok found)
    (h : runLeg dim req reads name (.ok embedding space) = .ok out) :
    out = .listed name found (semanticCandidates found) := by
  have hwidth : embedding.length = dim := by
    by_contra hne
    rw [SiDb.search, if_pos hne] at hsearch
    cases hsearch
  rcases runLeg_cases h with ⟨embedding', space', wrongWidth, hanswer, hscan, -⟩ | ⟨hnone, -⟩
  · obtain ⟨rfl, rfl⟩ := EmbedOutcome.ok.inj hanswer
    rcases scanLeg_cases hscan with ⟨hother, -⟩ | ⟨hwrong, -⟩ | ⟨-, hits, hsearch', rfl⟩
    · exact absurd hverdict hother
    · exact absurd hwidth hwrong
    · obtain rfl : found = hits := Except.ok.inj (hsearch.symm.trans hsearch')
      rfl
  · exact absurd rfl (hnone embedding space)

end

/-! ### Reads between writes -/

section
variable [TextTables]

/-- The last label that a run of writes gives a store, if any of them is a label of that store. -/
def lastLabel (leg : Leg) (window : List Event) : Option String :=
  window.foldl (fun last e => match e with
    | .setSpaceId l _ space => if l = leg then some space else last
    | _ => last) none

/-- Where the three reads of a leg fall on a log of committed writes.  The leg opens the store
    first, so by its label check the store has been stamped. -/
structure LegSchedule (log : List Event) (leg : Leg) where
  label : Nat
  filter : Nat
  scan : Nat
  label_le : label ≤ filter
  filter_le : filter ≤ scan
  scan_le : scan ≤ log.length
  opened : ((ClientDir.after (log.take label)).index leg).info.isSome = true

namespace LegSchedule

variable {log : List Event} {leg : Leg} (s : LegSchedule log leg)

/-- The snapshots the leg sees, each after the writes that were committed by the time of its
    read. -/
def reads : LegReads where
  label := (ClientDir.after (log.take s.label)).index leg
  filter := (ClientDir.after (log.take s.filter)).ukg
  scan := (ClientDir.after (log.take s.scan)).index leg

/-- The writes committed between the label check and the scan. -/
def window : List Event := (log.take s.scan).drop s.label

/-- The last label written to the store in the window is the query's, if one is written at all.
    Passes that embed in the same space leave the scan undisturbed. -/
def Undisturbed (space : String) : Prop :=
  ∀ written, lastLabel leg s.window = some written → written = space

/-- What is committed until the scan: what was until the label check, and the window between the
    two. -/
theorem take_scan : log.take s.scan = log.take s.label ++ s.window := by
  have hsplit := (List.take_append_drop s.label (log.take s.scan)).symm
  rwa [List.take_take, Nat.min_eq_left (s.label_le.trans s.filter_le)] at hsplit

end LegSchedule

/-- On a stamped store only `set_space_id` moves the label: inserts, deletes and the other
    store's writes leave it. -/
theorem spaceId_apply {e : Event} {dir : ClientDir} {leg : Leg}
    (hinfo : (dir.index leg).info.isSome = true) (he : ∀ d space, e ≠ .setSpaceId leg d space) :
    ((e.apply dir).index leg).info = (dir.index leg).info := by
  cases htargets : e.targets leg with
  | false => rw [Event.index_apply htargets]
  | true =>
    cases e with
    | ensureInfo l d space =>
      obtain rfl := beq_iff_eq.mp htargets
      obtain ⟨info, hsome⟩ := Option.isSome_iff_exists.mp hinfo
      simp [Event.apply, SiDb.ensureInfo, hsome]
    | setSpaceId l d space =>
      obtain rfl := beq_iff_eq.mp htargets
      exact absurd rfl (he d space)
    | clearMetadata l | clearGraph l | clearItems l | insertVector l item v =>
      obtain rfl := beq_iff_eq.mp htargets
      simp [Event.apply, SiDb.clearMetadata, SiDb.clearGraph, SiDb.clearItems, SiDb.insertRows]
    | _ => cases htargets

/-- After a run of writes on a stamped store, the label is the last one written, or the old one
    if there was none. -/
theorem label_after {dir : ClientDir} {leg : Leg} (hinfo : (dir.index leg).info.isSome = true)
    (window : List Event) :
    ((replay Event.apply dir window).index leg).info.isSome = true ∧
      ((replay Event.apply dir window).index leg).spaceId
        = (lastLabel leg window).or (dir.index leg).spaceId := by
  induction window using List.reverseRecOn with
  | nil => exact ⟨hinfo, rfl⟩
  | append_singleton window e ih =>
    obtain ⟨hsome, hlabel⟩ := ih
    rw [replay_concat]
    -- only `set_space_id` on this store adds to `lastLabel`
    by_cases he : ∃ d space, e = .setSpaceId leg d space
    · obtain ⟨d, space, rfl⟩ := he
      have hnew : ((Event.setSpaceId leg d space).apply
          (replay Event.apply dir window)).index leg
            = ((replay Event.apply dir window).index leg).setSpaceId d space := by
        simp [Event.apply]
      rw [hnew]
      constructor
      · unfold SiDb.setSpaceId
        split <;> rfl
      · rw [SiDb.spaceId_setSpaceId]
        simp [lastLabel]
    · push Not at he
      have hsame := spaceId_apply hsome he
      have hlast : lastLabel leg (window ++ [e]) = lastLabel leg window := by
        rw [lastLabel, List.foldl_append]
        cases e with
        | setSpaceId l d space =>
          have hne : l ≠ leg := fun heq => he d space (heq ▸ rfl)
          exact if_neg hne
        | _ => rfl
      rw [SiDb.spaceId, hsame, hlast]
      exact ⟨hsome, hlabel⟩

/-- **What a scan meets.**  If the label check passed and the last label written until the scan,
    if any, is the query's, every searchable vector is an answer in the query's space. -/
theorem made_at_scan (cfg : EnrichConfig) (steps : List (Step cfg)) (leg : Leg)
    (hknown : KnownSpaces (history cfg steps)) (s : LegSchedule (history cfg steps) leg)
    {space : String} (hverdict : indexSpaceVerdict s.reads.label space = none)
    (hcond : s.Undisturbed space) :
    ∀ r ∈ s.reads.scan.searchable,
      Made cfg.dim leg ((history cfg steps).take s.scan) space r := by
  intro r hr
  have hparts : history cfg steps
      = (history cfg steps).take s.scan ++ (history cfg steps).drop s.scan :=
    (List.take_append_drop _ _).symm
  have hguarded : Guarded Event.apply (Guard cfg.client cfg.dim) ClientDir.new
      ((history cfg steps).take s.scan) := by
    have h := history_guarded cfg steps
    rw [hparts] at h
    exact h.of_append
  have hknown' : KnownSpaces ((history cfg steps).take s.scan) :=
    fun l id v sp hmem => hknown l id v sp (List.mem_of_mem_take hmem)
  -- the invariant gives the label at the scan, which is never the placeholder
  obtain ⟨label, hlabel, hmade⟩ := (storeInv_of_guarded leg hguarded hknown').made r hr
  have hne : label ≠ spaceUnknown := by
    obtain ⟨wcId, embedding, -, -, -, hmem⟩ := hmade
    exact hknown' leg wcId embedding label hmem
  -- the label at the scan is the checked one, or one written in the window
  have hafter : ClientDir.after ((history cfg steps).take s.scan)
      = replay Event.apply (ClientDir.after ((history cfg steps).take s.label)) s.window := by
    rw [s.take_scan]
    exact replay_append _ _ _ _
  rw [hafter, (label_after s.opened s.window).2] at hlabel
  suffices hspace : label = space from hspace ▸ hmade
  cases hlast : lastLabel leg s.window with
  | none =>
    rw [hlast, Option.none_or] at hlabel
    have hchecked : s.reads.label.spaceId = some label := hlabel
    simp only [indexSpaceVerdict, hchecked] at hverdict
    by_contra hdiff
    rw [if_pos ⟨hdiff, hne⟩] at hverdict
    cases hverdict
  | some written =>
    rw [hlast, Option.some_or] at hlabel
    obtain rfl := Option.some.inj hlabel
    exact hcond written hlast

end

/-! ### Whole requests -/

/-- A hit whose stored vector is an answer the embedder gave in `space`, so that its similarity
    to a query of that space means something. -/
def Comparable (dim : Nat) (leg : Leg) (log : List Event) (db : SiDb) (space : String)
    (hit : EmbeddingHit) : Prop :=
  ∃ r ∈ db.searchable, r.itemId = hit.itemId ∧ Made dim leg log space r

/-- The legs `out` of one request compare like with like.  For every leg that is listed the
    embedder answered the query in some space, and each hit of the leg is a vector searchable in
    the scanned store that the embedder had answered for its capture in the same space, by an
    event before the scan; every leg that the request wants and that is not listed is named in a
    note. -/
def SearchComparable (dim : Nat) (log : List Event) (req : LegRequest)
    (answer : LegName → EmbedOutcome) (scan : LegName → Nat) (store : LegName → SiDb)
    (out : List LegAnswer) : Prop :=
  (∀ name found ids, .listed name found ids ∈ out → ∃ embedding space,
    answer name = .ok embedding space ∧
      ∀ hit ∈ found, Comparable dim name.store (log.take (scan name)) (store name) space hit) ∧
  ∀ name, req.wants name = true → (∃ found ids, .listed name found ids ∈ out) ∨
    ∃ note why, .noted note ∈ out ∧ note = name.skipped ++ why

/-- A traversal that finishes has run its step on every element, and what it returns are the
    results of these runs and nothing else. -/
theorem mapM_ok {α β ε : Type} {f : α → Except ε β} {xs : List α} {ys : List β}
    (h : xs.mapM f = .ok ys) :
    (∀ y ∈ ys, ∃ x ∈ xs, f x = .ok y) ∧ ∀ x ∈ xs, ∃ y ∈ ys, f x = .ok y := by
  induction xs generalizing ys with
  | nil =>
    obtain rfl := Except.ok.inj h
    exact ⟨fun y hy => absurd hy List.not_mem_nil, fun x hx => absurd hx List.not_mem_nil⟩
  | cons x xs ih =>
    rw [List.mapM_cons] at h
    cases hx : f x with
    | error e =>
      rw [hx] at h
      cases h
    | ok y =>
      cases hxs : xs.mapM f with
      | error e =>
        rw [hx, hxs] at h
        cases h
      | ok rest =>
        rw [hx, hxs] at h
        obtain rfl := Except.ok.inj h
        obtain ⟨hfrom, hto⟩ := ih hxs
        constructor
        · intro z hz
          rcases List.mem_cons.mp hz with rfl | hz
          · exact ⟨x, List.mem_cons_self, hx⟩
          · obtain ⟨x', hmem, hrun⟩ := hfrom z hz
            exact ⟨x', List.mem_cons_of_mem x hmem, hrun⟩
        · intro x' hx'
          rcases List.mem_cons.mp hx' with rfl | hx'
          · exact ⟨y, List.mem_cons_self, hx⟩
          · obtain ⟨z, hz, hrun⟩ := hto x' hx'
            exact ⟨z, List.mem_cons_of_mem y hz, hrun⟩

section
variable [TextTables] [VectorArith]

/-- **When a search ranks comparable vectors.**  Whatever passes run between the three reads of
    its legs: it is enough that each leg whose label check passes finds no label but the query's
    written to its store from the check to the scan. -/
theorem search_comparable (cfg : EnrichConfig) (steps : List (Step cfg))
    (hknown : KnownSpaces (history cfg steps)) (req : LegRequest)
    (answer : LegName → EmbedOutcome)
    (s : (name : LegName) → LegSchedule (history cfg steps) name.store)
    (hcond : ∀ name embedding space, req.wants name = true → answer name = .ok embedding space →
      indexSpaceVerdict (s name).reads.label space = none → (s name).Undisturbed space)
    (out : List LegAnswer)
    (hout : semanticLegs cfg.dim req answer (fun name => (s name).reads) = .ok out) :
    SearchComparable cfg.dim (history cfg steps) req answer (fun name => (s name).scan)
      (fun name => (s name).reads.scan) out := by
  obtain ⟨hfrom, hto⟩ := mapM_ok hout
  constructor
  · intro name found ids hmem
    obtain ⟨name', hname, hrun⟩ := hfrom _ hmem
    obtain ⟨rfl, embedding, space, hanswer, hverdict, hsearch, -⟩ := runLeg_listed hrun
    have hwants := (List.mem_filter.mp hname).2
    refine ⟨embedding, space, hanswer, fun hit hhit => ?_⟩
    -- a hit is a vector of the scan's snapshot, so `made_at_scan` speaks about it
    obtain ⟨r, hr, hitem⟩ := SiDb.search_mem hsearch hhit
    exact ⟨r, hr, hitem, made_at_scan cfg steps _ hknown (s name) hverdict
      (hcond _ embedding space hwants hanswer hverdict) r hr⟩
  · intro name hwants
    have hmem : name ∈ [LegName.textSemantic, .imageSemantic, .imageText].filter req.wants := by
      rw [List.mem_filter]
      exact ⟨by cases name <;> simp, hwants⟩
    obtain ⟨y, hy, hrun⟩ := hto name hmem
    cases y with
    | listed name' found ids =>
      obtain ⟨rfl, -⟩ := runLeg_listed hrun
      exact Or.inl ⟨found, ids, hy⟩
    | noted note =>
      obtain ⟨why, hwhy⟩ := runLeg_noted hrun
      exact Or.inr ⟨note, why, hy, hwhy⟩

end

section

attribute [local instance] TextTables.ascii

/-- Arithmetic that suffices for vectors of width 1: a vector is as similar to another as it is
    equal to it. -/
@[reducible]
def exactArith : VectorArith where
  norm := fun _ => 0x3f800000
  cosine := fun query _ other => if query = other then 0x3f800000 else 0x3f000000

attribute [local instance] exactArith

/-- One capture, embedded in `A`; then the service reports `B`, and the next pass clears the
    store and embeds the capture again. -/
def rebuiltStore : List (Step smallConfig) :=
  [smallArrival,
    .pass (smallEnv 1000000000 (some ("T", "A")) .retry (.ok [0x3f800000] "A")) 100,
    .pass (smallEnv 2000000000 (some ("T", "B")) .retry (.ok [0xbf800000] "B")) 100]

/-- A search by image only. -/
def imageRequest : LegRequest where
  mode := "hybrid"
  hasQuery := false
  image := some smallJpeg
  start100ns := none
  end100ns := none
  appFilter := []
  limit := none

/-- The query image is embedded in `A`. -/
def answerInA : LegName → EmbedOutcome
  | .imageSemantic => .ok [0x3f800000] "A"
  | _ => .retry

/-- One capture, embedded in `A`; then a second one arrives and a pass embeds it in `A` too.  The
    store changes, its space does not. -/
def steadyStore : List (Step smallConfig) :=
  [smallArrival,
    .pass (smallEnv 1000000000 (some ("T", "A")) .retry (.ok [0x3f800000] "A")) 100,
    laterArrival,
    .pass (smallEnv 2000000000 (some ("T", "A")) .retry (.ok [0xbf800000] "A")) 100]

/-- The label is read after the first pass, the filter after the second arrival and the vectors
    after the second pass. -/
def steadySchedule (name : LegName) : LegSchedule (history smallConfig steadyStore) name.store where
  label := (history smallConfig (steadyStore.take 2)).length
  filter := (history smallConfig (steadyStore.take 3)).length
  scan := (history smallConfig steadyStore).length
  label_le := by decide +kernel
  filter_le := by decide +kernel
  scan_le := le_refl _
  opened := by cases name <;> decide +kernel

/-- The label and the filter are read after the first pass, the vectors after the second, so
    whatever the second pass writes lies in the window. -/
def racingSchedule (name : LegName) :
    LegSchedule (history smallConfig rebuiltStore) name.store where
  label := (history smallConfig (rebuiltStore.take 2)).length
  filter := (history smallConfig (rebuiltStore.take 2)).length
  scan := (history smallConfig rebuiltStore).length
  label_le := le_refl _
  filter_le := by decide +kernel
  scan_le := le_refl _
  opened := by cases name <;> decide +kernel

/-- A pass that writes the label `A` again and a new vector, between the label check and the scan:
    both captures are ranked, in the query's space. -/
theorem search_comparable_steady :
    SearchComparable smallConfig.dim (history smallConfig steadyStore) imageRequest answerInA
      (fun name => (steadySchedule name).scan) (fun name => (steadySchedule name).reads.scan)
      [.listed .imageSemantic
        [⟨itemIdForCapture 1, none, 0x3f800000⟩, ⟨itemIdForCapture 2, none, 0x3f000000⟩] [1, 2]] :=
  search_comparable smallConfig steadyStore (by decide +kernel) imageRequest answerInA
    steadySchedule
    (by
      intro name embedding space _ hanswer _ written hwritten
      cases name with
      | imageSemantic =>
        obtain ⟨rfl, rfl⟩ := EmbedOutcome.ok.inj hanswer
        have hagain : lastLabel .image (steadySchedule .imageSemantic).window = some "A" := by
          decide +kernel
        exact Option.some.inj (hwritten.symm.trans hagain)
      | textSemantic | imageText => cases hanswer)
    _ (by decide +kernel)

/-- The event is no image answer in `A` but that of the first pass. -/
def firstInA : Event → Bool
  | .embedded .image _ (.ok v space) => space != "A" || v == [0x3f800000]
  | _ => true

/-- A rebuild between the label check and the scan: the leg is listed with a vector of `B` for a
    query in `A`. -/
theorem search_incomparable :
    ∃ out, semanticLegs smallConfig.dim imageRequest answerInA
        (fun name => (racingSchedule name).reads) = .ok out ∧
      ¬ SearchComparable smallConfig.dim (history smallConfig rebuiltStore) imageRequest answerInA
        (fun name => (racingSchedule name).scan) (fun name => (racingSchedule name).reads.scan)
        out := by
  refine ⟨[.listed .imageSemantic [⟨itemIdForCapture 1, none, 0x3f000000⟩] [1]],
    by decide +kernel, fun h => ?_⟩
  obtain ⟨embedding, space, hanswer, hhits⟩ := h.1 _ _ _ (List.mem_singleton_self _)
  obtain ⟨rfl, rfl⟩ := EmbedOutcome.ok.inj hanswer
  obtain ⟨r, hr, -, wcId, answer, -, hbytes, hwidth, hmem⟩ := hhits _ (List.mem_singleton_self _)
  -- the stored vector is the answer in `B`; the only answer in `A` is another
  have hstored : ∀ r ∈ (racingSchedule .imageSemantic).reads.scan.searchable,
      r.embedding = f32sToBytes [0xbf800000] := by
    decide +kernel
  have hanswers : (history smallConfig rebuiltStore).all firstInA = true := by
    decide +kernel
  have hfirst : ("A" != "A" || answer == [0x3f800000]) = true :=
    List.all_eq_true.mp hanswers _ (List.mem_of_mem_take hmem)
  obtain rfl : answer = [0x3f800000] := by simpa using hfirst
  rw [hstored r hr] at hbytes
  revert hbytes
  decide

end

end Precall.Api
