import Precall.Api.SearchRoute

namespace Precall.Api

open ByteLib TextLib TableLib SortLib FusionLib Precall.Proto Precall.Store Precall.Broker

/-!
# What decides the order of the results

The route `search` drains its hash map of hits in an order of the map's own choosing, sorts it by
score, full-text membership and time, and cuts it off (`precall-api/src/routes.rs`).

* `sortedHits` — the results before the cut;
* `search_determined_iff` — the answer is the same for every hash order, cut or not, exactly if no
  two captures of the merge tie in all three;
* `search_undetermined` — two captures that do: each first in one semantic leg, at one time.
-/

section
variable {S : Type} [FusionArith S]

/-- The results in order, before the cut, as one hash order has them. -/
def sortedHits (order : HashOrder (Ranked S)) (db : Ukg) (run : LegsRun) : List (Ranked S) :=
  order.sorted (compareRanked run.ftsIds) (rankedHits db run)

/-- The results are the first of these. -/
theorem orderedHits_eq_take (order : HashOrder (Ranked S)) (db : Ukg) (run : LegsRun)
    (limit : Int) : orderedHits order db run limit = (sortedHits order db run).take limit.toNat :=
  rfl

variable (S) in
/-- Two captures of the merge that the comparator cannot tell apart: same fused score, both or
    neither found by the full-text leg, same time. -/
def Tied (db : Ukg) (run : LegsRun) : Prop :=
  ∃ a ∈ (rankedHits db run : List (Ranked S)), ∃ b ∈ (rankedHits db run : List (Ranked S)),
    a ≠ b ∧ compareRanked run.ftsIds a b = .eq

/-- The results are the same in every hash order exactly if no two captures tie.  Where two tie,
    handing out either one first gives two orders. -/
theorem not_tied_iff [DecidableEq S] [Std.TransCmp (scoreOrder : S → S → Ordering)] (db : Ukg)
    (run : LegsRun) :
    ¬ Tied S db run ↔ ∀ order order' : HashOrder (Ranked S),
      sortedHits order db run = sortedHits order' db run := by
  have := transCmp_compareRanked (S := S) run.ftsIds
  unfold sortedHits Tied
  rw [HashOrder.sorted_eq_iff]
  constructor
  · intro hnone a ha b hb htie
    by_contra hne
    exact hnone ⟨a, ha, b, hb, hne, htie⟩
  · rintro hties ⟨a, ha, b, hb, hne, htie⟩
    exact hne (hties a ha b hb htie)

section
variable [TextTables] [HostText] [UuidText] [Fts5] [VectorArith]

variable (S) in
/-- The answer to a request is the same in every hash order, and so are the results of an accepted
    request before they are cut off. -/
def Determined (dim : Nat) (root : DataRoot) (body : SearchBody)
    (answer : LegName → EmbedOutcome) : Prop :=
  ∀ order order' : HashOrder (Ranked S),
    search order dim root body answer = search order' dim root body answer ∧
      ∀ dir run, SearchInput.Accepted ⟨dim, dir, body, answer⟩ root run →
        sortedHits order dir.ukg run = sortedHits order' dir.ukg run

/-- A request that is not accepted gets the same refusal in every hash order. -/
theorem search_refused {dim : Nat} {root : DataRoot} {body : SearchBody}
    {answer : LegName → EmbedOutcome}
    (h : ∀ dir run, ¬ SearchInput.Accepted ⟨dim, dir, body, answer⟩ root run)
    (order order' : HashOrder (Ranked S)) :
    search order dim root body answer = search order' dim root body answer := by
  unfold search
  cases hcheck : checkRequest body with
  | error e => rfl
  | ok _ =>
    cases hdir : clientDir root body.client with
    | error e => rfl
    | ok dir =>
      have hlegs : ∀ run, runLegs dim dir body answer ≠ .ok run := fun run hrun =>
        h dir run ⟨hcheck, hdir, hrun⟩
      show (runLegs dim dir body answer >>= fun run =>
          pure (searchAnswer order dir.ukg body run (legRequest body none).resultLimit))
        = (runLegs dim dir body answer >>= fun run =>
          pure (searchAnswer order' dir.ukg body run (legRequest body none).resultLimit))
      generalize runLegs dim dir body answer = legs at hlegs ⊢
      cases legs with
      | error e => rfl
      | ok run => exact absurd rfl (hlegs run)

/-- **When a search answer is a function of the store and the request.**  Whatever is stored, asked
    and answered by the embedder, the ordered results are the same in every hash order, before and
    after the cut, exactly if no two captures of the merge tie. -/
theorem search_determined_iff [DecidableEq S] [Std.TransCmp (scoreOrder : S → S → Ordering)]
    (dim : Nat) (root : DataRoot) (body : SearchBody) (answer : LegName → EmbedOutcome) :
    Determined S dim root body answer ↔
      ∀ dir run, SearchInput.Accepted ⟨dim, dir, body, answer⟩ root run →
        ¬ Tied S dir.ukg run := by
  constructor
  · intro hdet dir run haccepted
    exact (not_tied_iff dir.ukg run).mpr fun order order' => (hdet order order').2 dir run haccepted
  · intro hnone order order'
    refine ⟨?_, fun dir run haccepted =>
      (not_tied_iff dir.ukg run).mp (hnone dir run haccepted) order order'⟩
    by_cases hrefused : ∀ dir run, ¬ SearchInput.Accepted ⟨dim, dir, body, answer⟩ root run
    · exact search_refused hrefused order order'
    · push Not at hrefused
      obtain ⟨dir, run, haccepted⟩ := hrefused
      -- the accepted answer is cut from results that are the same in both orders
      have hsame := (not_tied_iff dir.ukg run).mp (hnone dir run haccepted) order order'
      refine (search_accepted haccepted order).trans
        (Eq.trans ?_ (search_accepted haccepted order').symm)
      unfold searchAnswer
      rw [orderedHits_eq_take, orderedHits_eq_take, hsame]

end

end

/-! ### Two captures of one moment -/

section
attribute [local instance] TextTables.ascii UuidText.crate Ukg.matchAll noHostText rationalFusion
  hugeArith

/-- Two captures at these times, the first with its text embedded and the second with its image,
    so that each leg ranks one of them first. -/
def capturesAt (first second : Int) : ClientDir :=
  { ClientDir.new with
    ukg :=
      { Ukg.new with
        windowCapture :=
          (Table.empty.insert
            ⟨"n", some "t", true, 0, "", "t", none, first, false, none, none, none⟩).insert
            ⟨"m", some "u", true, 0, "", "u", none, second, false, none, none, none⟩ }
    text := (SiDb.new.ensureInfo 1 "T").insertRows (itemIdForCapture 1) none none [0x3f800000]
    image := (SiDb.new.ensureInfo 1 "I").insertRows (itemIdForCapture 2) none none [0x3f800000] }

/-- Two captures of one moment, each first in a leg of its own: nothing the comparator looks at
    tells them apart. -/
def twoCaptures : ClientDir := capturesAt 5 5

/-- A semantic query that both stores are searched for. -/
def twoLegQuery : SearchInput where
  dim := 1
  dir := twoCaptures
  body := { client := smallId.text, query := "hello", mode := some "semantic" }
  answer := fun name => match name with
    | .textSemantic => .ok [0x3f800000] "T"
    | .imageText => .ok [0x3f800000] "I"
    | .imageSemantic => .disabled

/-- The data directory of their client. -/
def twoCapturesRoot : DataRoot := Function.update (fun _ => none) smallId (some twoCaptures)

/-- Each capture is first in one leg, and both are of one moment: which comes first in the answer
    is up to the hash map. -/
theorem search_undetermined :
    ¬ ∀ order order' : HashOrder (Ranked ℚ),
      search order 1 twoCapturesRoot twoLegQuery.body twoLegQuery.answer
        = search order' 1 twoCapturesRoot twoLegQuery.body twoLegQuery.answer := by
  intro h
  have hids := congrArg (Except.map fun out => out.results.map SearchResult.windowCaptureId)
    (h ⟨id, fun _ => List.Perm.refl _⟩ ⟨List.reverse, List.reverse_perm⟩)
  have hfirst : (search (⟨id, fun _ => List.Perm.refl _⟩ : HashOrder (Ranked ℚ)) 1 twoCapturesRoot
      twoLegQuery.body twoLegQuery.answer).map
        (fun out => out.results.map SearchResult.windowCaptureId) = .ok [2, 1] := by
    decide +kernel
  have hsecond : (search (⟨List.reverse, List.reverse_perm⟩ : HashOrder (Ranked ℚ)) 1
      twoCapturesRoot twoLegQuery.body twoLegQuery.answer).map
        (fun out => out.results.map SearchResult.windowCaptureId) = .ok [1, 2] := by
    decide +kernel
  have hsame := hfirst.symm.trans (hids.trans hsecond)
  exact absurd (Except.ok.inj hsame) (by decide)

/-- What the legs of that query find whenever the captures were taken: one of them in each store,
    at the same similarity. -/
def twoLegRun : LegsRun where
  fts := none
  semantic := [.listed .textSemantic [⟨itemIdForCapture 1, none, 0x3f800000⟩] [1],
    .listed .imageText [⟨itemIdForCapture 2, none, 0x3f800000⟩] [2]]

/-- Captures of two moments do not tie, though both are first in their leg: the later one comes
    first in every hash order. -/
theorem search_determined_unit :
    Determined ℚ 1 (Function.update (fun _ => none) smallId (some (capturesAt 5 9)))
      twoLegQuery.body twoLegQuery.answer := by
  have := transCmp_rational
  refine (search_determined_iff _ _ _ _).mpr fun dir run haccepted => ?_
  have hdir := haccepted.client.symm.trans
    (clientDir_known (UuidText.parseStr_text smallId) (Function.update_self ..))
  obtain rfl : dir = capturesAt 5 9 := Except.ok.inj hdir
  have hlegs : runLegs 1 (capturesAt 5 9) twoLegQuery.body twoLegQuery.answer
      = .ok twoLegRun := by
    decide +kernel
  obtain rfl : run = twoLegRun := Except.ok.inj (haccepted.legs.symm.trans hlegs)
  -- the fused scores are equal, the times decide
  unfold Tied
  decide +kernel

end

end Precall.Api
