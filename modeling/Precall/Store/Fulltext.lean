import Mathlib.Data.List.Perm.Basic
import Precall.Store.Ukg

namespace Precall.Store

open TableLib TextLib Precall.Proto

/-!
# The full-text leg of a search

`Ukg::search_fts`, `fts_escape` and `Ukg::captures_by_ids` of `precall-store/src/ukg.rs`.  What
FTS5 makes of a `MATCH` expression, its snippets and its ranks are a parameter (`Fts5`).

The application filter of `search_fts` is SQL text with two lists of marks, one for the paths and
one for the names, and a parameter list that holds every entry twice in a row; so with two entries
or more the marks of the paths are filled from the first half of the filter and the marks of the
names from the second (`mem_take_doubled`, `mem_drop_doubled`).

* `mem_ftsRows` — the captures the leg can return;
* `filters_agree_iff` — when these are the matching captures among
  `capture_ids_matching_filters`, the set the semantic legs use.
-/

/-- SQLite's FTS5: what a `MATCH` expression accepts (`none` if it does not parse), the snippet and
    the rank of a row, and `ORDER BY rank`; and the order of the joins beside it. -/
class Fts5 extends Ukg.JoinOrder where
  compile : String → Option (TextIndexRow → Bool)
  snippet : String → TextIndexRow → Option String
  bm25 : String → List TextIndexRow → TextIndexRow → F64
  byRank : {α : Type} → (α → F64) → List α → List α
  byRank_perm : ∀ {α : Type} (rank : α → F64) (rows : List α), (byRank rank rows).Perm rows

/-- `SearchOptions` — what `search_fts` is asked: the expression, the bounds, the applications
    and how many hits are wanted at most. -/
structure SearchOptions where
  query : String
  start100ns : Option Int
  end100ns : Option Int
  appFilter : List String
  limit : Option Int
  deriving DecidableEq, Repr

/-- `SearchHit` — one capture of an answer, with what a list of results shows of it and its
    score. -/
structure SearchHit where
  windowCaptureId : Int
  timestamp100ns : Int
  windowTitle : Option String
  appName : Option String
  imageToken : Option String
  ocrPreview : Option String
  score : F64
  activationUri : Option String
  deriving DecidableEq, Repr

/-- `fts_escape` — every word in double quotes, its own quotes doubled, so that no letter of the
    user's text is taken for syntax. -/
def ftsEscape [TextTables] (query : String) : String :=
  let words := (query.toList.splitOnP TextTables.isWhitespace).filter fun w => !w.isEmpty
  " ".intercalate (words.map fun w =>
    String.ofList ('"' :: (w.flatMap fun c => if c = '"' then ['"', '"'] else [c]) ++ ['"']))

namespace Ukg

/-- Is a capture related to an application with one of the paths or one of the names? The filter
    of the semantic legs asks it of all entries, that of the full-text leg of two parts of them. -/
def relatedTo (db : Ukg) (paths names : List String) (wcId : Int) : Bool :=
  db.appRelation.rows.any fun r => r.2.1 == wcId &&
    ((db.app.rows.filter fun a =>
      (a.2.path.any paths.contains) || names.contains a.2.name).map Prod.fst).contains r.2.2

/-- The parameters `search_fts` binds for an application filter: every entry twice in a row. -/
def doubled (appFilter : List String) : List String := appFilter.flatMap fun app => [app, app]

/-- The application condition of `search_fts`: as many marks for the paths as there are entries,
    then as many for the names. -/
def ftsAppCondition (db : Ukg) (appFilter : List String) (wcId : Int) : Bool :=
  appFilter.isEmpty ||
    db.relatedTo ((doubled appFilter).take appFilter.length)
      ((doubled appFilter).drop appFilter.length) wcId

/-- A capture inside the time bounds, both of which are included and may be missing. -/
def inTimeRange (start100ns end100ns : Option Int) (w : WindowCaptureRow) : Bool :=
  start100ns.all (· ≤ w.timeStamp) && end100ns.all (w.timeStamp ≤ ·)

/-- The rows of `search_fts` before `ORDER BY` and `LIMIT`: index rows that match, with their
    captures, inside the filters. -/
def ftsRows [Fts5] (db : Ukg) (opts : SearchOptions) :
    Option (List (TextIndexRow × Int × WindowCaptureRow)) :=
  (Fts5.compile opts.query).map fun accepts =>
    db.textIndex.flatMap fun f => if accepts f then
        (db.windowCapture.rows.filter fun w => w.1 == f.rowid &&
          inTimeRange opts.start100ns opts.end100ns w.2 &&
            db.ftsAppCondition opts.appFilter w.1).map fun w => (f, w)
      else []

/-- The hit of a row: the columns of its capture, its application and the snippet of the text
    that matched. -/
def ftsHit [Fts5] (db : Ukg) (query : String) (r : TextIndexRow × Int × WindowCaptureRow) :
    SearchHit where
  windowCaptureId := r.2.1
  timestamp100ns := r.2.2.timeStamp
  windowTitle := some r.2.2.windowTitle
  appName := (db.captureAppNames r.2.1).head?
  imageToken := r.2.2.imageToken
  ocrPreview := Fts5.snippet query r.1
  score := Fts5.bm25 query db.textIndex r.1 ^^^ 0x8000000000000000
  activationUri := r.2.2.activationUri

/-- `Ukg::search_fts` — `none` if the expression does not parse.  The limit is the caller's or
    fifty, but at least one and at most 500. -/
def searchFts [Fts5] (db : Ukg) (opts : SearchOptions) : Option (List SearchHit) :=
  let limit := max 1 (min (opts.limit.getD 50) 500)
  (db.ftsRows opts).map fun rows =>
    ((Fts5.byRank (fun r => Fts5.bm25 opts.query db.textIndex r.1) rows).take limit.toNat).map
      (db.ftsHit opts.query)

/-- `Ukg::captures_by_ids` — the captures under some ids, with no rank and no snippet; the
    semantic legs turn their ids into hits with it. -/
def capturesByIds (db : Ukg) (ids : List Int) : List (Int × SearchHit) :=
  (db.windowCapture.rows.filter fun w => ids.contains w.1).map fun w =>
    (w.1, {
      windowCaptureId := w.1
      timestamp100ns := w.2.timeStamp
      windowTitle := some w.2.windowTitle
      imageToken := w.2.imageToken
      activationUri := w.2.activationUri
      appName := none
      ocrPreview := some w.2.name
      score := 0 })

/-! ### The doubled parameters -/

/-- The first parameters are the first half of the filter, rounded up: a mark for the paths is
    filled from here. -/
theorem mem_take_doubled {appFilter : List String} {app : String} (m : Nat) :
    app ∈ (doubled appFilter).take m ↔ app ∈ appFilter.take ((m + 1) / 2) := by
  induction appFilter generalizing m with
  | nil => simp [doubled]
  | cons x xs ih =>
    have hcons : doubled (x :: xs) = x :: x :: doubled xs := rfl
    rw [hcons]
    match m with
    | 0 => simp
    | 1 => simp
    | m + 2 =>
      have hhalf : (m + 2 + 1) / 2 = (m + 1) / 2 + 1 := by omega
      rw [hhalf, List.take_succ_cons, List.take_succ_cons, List.take_succ_cons]
      simp only [List.mem_cons, ih]
      exact ⟨fun h => h.elim Or.inl id, Or.inr⟩

/-- The last parameters are what remains of the filter behind its first half, rounded down: a
    mark for the names is filled from here. -/
theorem mem_drop_doubled {appFilter : List String} {app : String} (m : Nat) :
    app ∈ (doubled appFilter).drop m ↔ app ∈ appFilter.drop (m / 2) := by
  induction appFilter generalizing m with
  | nil => simp [doubled]
  | cons x xs ih =>
    have hcons : doubled (x :: xs) = x :: x :: doubled xs := rfl
    rw [hcons]
    match m with
    | 0 =>
      have hall : app ∈ doubled xs ↔ app ∈ xs := ih 0
      simp [hall]
    | 1 =>
      have hall : app ∈ doubled xs ↔ app ∈ xs := ih 0
      simp [hall]
    | m + 2 =>
      have hhalf : (m + 2) / 2 = m / 2 + 1 := by omega
      rw [hhalf, List.drop_succ_cons, List.drop_succ_cons, List.drop_succ_cons]
      exact ih m

/-- Both conditions look at the set of paths and the set of names alone. -/
theorem relatedTo_mono {db : Ukg} {paths paths' names names' : List String} {wcId : Int}
    (hpaths : ∀ app ∈ paths, app ∈ paths') (hnames : ∀ app ∈ names, app ∈ names')
    (h : db.relatedTo paths names wcId = true) : db.relatedTo paths' names' wcId = true := by
  simp only [relatedTo, List.any_eq_true, Bool.and_eq_true, List.contains_iff_mem, List.mem_map,
    List.mem_filter, Bool.or_eq_true, Option.any_eq_true] at h ⊢
  obtain ⟨r, hr, hwc, a, ⟨ha, hlisted⟩, hid⟩ := h
  refine ⟨r, hr, hwc, a, ⟨ha, ?_⟩, hid⟩
  rcases hlisted with ⟨path, hpath, hmem⟩ | hmem
  · exact Or.inl ⟨path, hpath, hpaths path hmem⟩
  · exact Or.inr (hnames _ hmem)

/-- The condition of `search_fts` in terms of the two halves of the filter. -/
theorem ftsAppCondition_iff (db : Ukg) (appFilter : List String) (wcId : Int) :
    db.ftsAppCondition appFilter wcId = true ↔ appFilter = [] ∨
      db.relatedTo (appFilter.take ((appFilter.length + 1) / 2))
        (appFilter.drop (appFilter.length / 2)) wcId = true := by
  rw [ftsAppCondition, Bool.or_eq_true, List.isEmpty_iff]
  refine or_congr_right ⟨fun h => ?_, fun h => ?_⟩
  · exact relatedTo_mono (fun app => (mem_take_doubled _).mp) (fun app => (mem_drop_doubled _).mp) h
  · exact relatedTo_mono (fun app => (mem_take_doubled _).mpr)
      (fun app => (mem_drop_doubled _).mpr) h

/-! ### The two filters against each other -/

/-- A capture in the set the semantic legs use; every stored capture if there is no filter at
    all. -/
def Eligible (db : Ukg) (opts : SearchOptions) (wcId : Int) : Prop :=
  match db.captureIdsMatchingFilters opts.start100ns opts.end100ns opts.appFilter with
  | some ids => wcId ∈ ids
  | none => ∃ w, (wcId, w) ∈ db.windowCapture.rows

/-- The set of the semantic legs: stored, inside the bounds, and related to one of the entries by
    path or by name. -/
theorem eligible_iff {db : Ukg} {opts : SearchOptions} {wcId : Int} :
    db.Eligible opts wcId ↔ ∃ w, (wcId, w) ∈ db.windowCapture.rows ∧
      inTimeRange opts.start100ns opts.end100ns w = true ∧
      (opts.appFilter = [] ∨ db.relatedTo opts.appFilter opts.appFilter wcId = true) := by
  unfold Eligible captureIdsMatchingFilters
  by_cases hnone : (opts.start100ns.isNone && opts.end100ns.isNone && opts.appFilter.isEmpty) = true
  · -- without a filter every capture is inside
    rw [if_pos hnone]
    simp only [Bool.and_eq_true, Option.isNone_iff_eq_none, List.isEmpty_iff] at hnone
    obtain ⟨⟨hstart, hend⟩, happ⟩ := hnone
    simp [hstart, hend, happ, inTimeRange]
  · rw [if_neg hnone]
    simp only [List.mem_map, List.mem_filter, Bool.and_eq_true, Bool.or_eq_true, List.isEmpty_iff]
    constructor
    · rintro ⟨⟨id, w⟩, ⟨hmem, htime, happ⟩, rfl⟩
      exact ⟨w, hmem, by simp [inTimeRange, htime], happ⟩
    · rintro ⟨w, hmem, htime, happ⟩
      refine ⟨(wcId, w), ⟨hmem, ?_, happ⟩, rfl⟩
      simpa [inTimeRange] using htime

/-- A stored capture that is in the set, if there is one. -/
theorem eligible_of_listed {db : Ukg} {opts : SearchOptions} {wcId : Int}
    (hstored : ∃ w, (wcId, w) ∈ db.windowCapture.rows)
    (hlisted : ∀ ids, db.captureIdsMatchingFilters opts.start100ns opts.end100ns opts.appFilter
      = some ids → wcId ∈ ids) : db.Eligible opts wcId := by
  unfold Eligible
  split
  · rename_i ids hids
    exact hlisted ids hids
  · exact hstored

section
variable [Fts5]

/-- The captures `search_fts` can return, before its limit: the rows that match the expression,
    inside the bounds, that pass its own application condition. -/
def ftsCaptures (db : Ukg) (opts : SearchOptions) : List Int :=
  ((db.ftsRows opts).getD []).map fun r => r.2.1

/-- The text of a capture matches the query, as FTS5 has it; no filter is part of it. -/
def TextMatches (db : Ukg) (query : String) (wcId : Int) : Prop :=
  ∃ accepts, Fts5.compile query = some accepts ∧
    ∃ f ∈ db.textIndex, f.rowid = wcId ∧ accepts f = true

/-- The full-text leg filters as the semantic legs do: it can return a matching capture exactly
    if that is in their set. -/
def FiltersAgree (db : Ukg) (opts : SearchOptions) : Prop :=
  ∀ wcId, wcId ∈ db.ftsCaptures opts ↔ db.TextMatches opts.query wcId ∧ db.Eligible opts wcId

/-- A matching capture inside the bounds with a listed application has one whose path is in the
    first half of the list or whose name is in the second; with an odd number of entries the
    middle one counts to both. -/
def HalvesSuffice (db : Ukg) (opts : SearchOptions) : Prop :=
  ∀ w ∈ db.windowCapture.rows, db.TextMatches opts.query w.1 →
    inTimeRange opts.start100ns opts.end100ns w.2 = true →
    db.relatedTo opts.appFilter opts.appFilter w.1 = true →
    db.relatedTo (opts.appFilter.take ((opts.appFilter.length + 1) / 2))
      (opts.appFilter.drop (opts.appFilter.length / 2)) w.1 = true

/-- The captures the full-text leg can return, one condition after the other: the text, the
    bounds and the misbound application filter. -/
theorem mem_ftsCaptures {db : Ukg} {opts : SearchOptions} {wcId : Int} :
    wcId ∈ db.ftsCaptures opts ↔ db.TextMatches opts.query wcId ∧
      ∃ w, (wcId, w) ∈ db.windowCapture.rows ∧
        inTimeRange opts.start100ns opts.end100ns w = true ∧
        db.ftsAppCondition opts.appFilter wcId = true := by
  unfold ftsCaptures ftsRows TextMatches
  cases Fts5.compile opts.query with
  | none => simp
  | some accepts =>
    simp only [Option.map_some, Option.getD_some, Option.some.injEq, exists_eq_left', List.mem_map,
      List.mem_flatMap, Prod.exists]
    constructor
    · rintro ⟨f, id, w, ⟨f', hf', hrow⟩, rfl⟩
      split at hrow
      · rename_i haccepts
        obtain ⟨⟨id', w'⟩, hw, heq⟩ := List.mem_map.mp hrow
        simp only [Prod.mk.injEq] at heq
        obtain ⟨rfl, rfl, rfl⟩ := heq
        obtain ⟨hmem, hcond⟩ := List.mem_filter.mp hw
        simp only [Bool.and_eq_true, beq_iff_eq] at hcond
        obtain ⟨⟨hid, htime⟩, happ⟩ := hcond
        exact ⟨⟨f', hf', hid.symm, haccepts⟩, w', hmem, htime, happ⟩
      · cases hrow
    · rintro ⟨⟨f, hf, rfl, haccepts⟩, w, hmem, htime, happ⟩
      refine ⟨f, f.rowid, w, ⟨f, hf, ?_⟩, rfl⟩
      rw [if_pos haccepts]
      refine List.mem_map.mpr ⟨(f.rowid, w), List.mem_filter.mpr ⟨hmem, ?_⟩, rfl⟩
      simp [htime, happ]

/-- **When both kinds of leg apply the same filters**: exactly if no matching capture loses an
    application to the order of the parameters. -/
theorem filters_agree_iff (db : Ukg) (opts : SearchOptions) :
    db.FiltersAgree opts ↔ db.HalvesSuffice opts := by
  have hhalf : ∀ wcId, db.relatedTo (opts.appFilter.take ((opts.appFilter.length + 1) / 2))
      (opts.appFilter.drop (opts.appFilter.length / 2)) wcId = true →
      db.relatedTo opts.appFilter opts.appFilter wcId = true := fun wcId =>
    relatedTo_mono (fun _ => List.mem_of_mem_take) (fun _ => List.mem_of_mem_drop)
  constructor
  · intro h w hw htext htime hlisted
    have hboth : w.1 ∈ db.ftsCaptures opts :=
      (h w.1).mpr ⟨htext, eligible_iff.mpr ⟨w.2, hw, htime, Or.inr hlisted⟩⟩
    obtain ⟨-, -, -, -, happ⟩ := mem_ftsCaptures.mp hboth
    rcases (ftsAppCondition_iff db opts.appFilter w.1).mp happ with hempty | hrelated
    · rw [hempty] at hlisted ⊢
      exact hlisted
    · exact hrelated
  · intro h wcId
    rw [mem_ftsCaptures, eligible_iff]
    refine and_congr_right fun htext => exists_congr fun w => and_congr_right fun hw =>
      and_congr_right fun htime => ?_
    rw [ftsAppCondition_iff]
    exact or_congr_right ⟨hhalf wcId, h (wcId, w) hw htext htime⟩

/-- With one entry or none there is no order to get wrong: both halves of the filter are the
    whole of it. -/
theorem filters_agree_of_length_le_one (db : Ukg) (opts : SearchOptions)
    (h : opts.appFilter.length ≤ 1) : db.FiltersAgree opts := by
  rw [filters_agree_iff]
  intro w _ _ _ hlisted
  match hfilter : opts.appFilter, h with
  | [], _ => rwa [hfilter] at hlisted
  | [app], _ => simpa [hfilter] using hlisted

end

/-! ### What a hit shows -/

/-- A hit names a stored capture and shows its row. -/
def Shows (db : Ukg) (h : SearchHit) : Prop :=
  ∃ w, (h.windowCaptureId, w) ∈ db.windowCapture.rows ∧ h.timestamp100ns = w.timeStamp ∧
    h.windowTitle = some w.windowTitle ∧ h.imageToken = w.imageToken ∧
    h.activationUri = w.activationUri

/-- What the full-text leg can return is inside the filters, whichever half of the list its
    application is in. -/
theorem eligible_of_mem_ftsCaptures [Fts5] {db : Ukg} {opts : SearchOptions} {wcId : Int}
    (h : wcId ∈ db.ftsCaptures opts) : db.Eligible opts wcId := by
  obtain ⟨-, w, hw, htime, happ⟩ := mem_ftsCaptures.mp h
  refine eligible_iff.mpr ⟨w, hw, htime, ?_⟩
  rcases (ftsAppCondition_iff db opts.appFilter wcId).mp happ with hempty | hrelated
  · exact Or.inl hempty
  · exact Or.inr (relatedTo_mono (fun _ => List.mem_of_mem_take) (fun _ => List.mem_of_mem_drop)
      hrelated)

/-- A hit of the full-text leg is a stored capture inside the filters, and shows its row. -/
theorem searchFts_mem [Fts5] {db : Ukg} {opts : SearchOptions} {hits : List SearchHit}
    {h : SearchHit} (hrun : db.searchFts opts = some hits) (hmem : h ∈ hits) :
    db.Eligible opts h.windowCaptureId ∧ db.Shows h := by
  obtain ⟨rows, hrows, rfl⟩ := Option.map_eq_some_iff.mp hrun
  obtain ⟨⟨f, id, w⟩, hr, rfl⟩ := List.mem_map.mp hmem
  have hrow : (f, id, w) ∈ rows := (Fts5.byRank_perm _ rows).mem_iff.mp (List.mem_of_mem_take hr)
  have hcapture : id ∈ db.ftsCaptures opts := by
    rw [ftsCaptures, hrows]
    exact List.mem_map.mpr ⟨_, hrow, rfl⟩
  -- the row joined to the index row is the capture's own
  have hstored : (id, w) ∈ db.windowCapture.rows := by
    obtain ⟨accepts, -, rfl⟩ := Option.map_eq_some_iff.mp hrows
    obtain ⟨f', -, hjoin⟩ := List.mem_flatMap.mp hrow
    split at hjoin
    · obtain ⟨⟨id', w'⟩, hw, heq⟩ := List.mem_map.mp hjoin
      obtain ⟨-, hid⟩ := Prod.mk.inj heq
      exact hid ▸ (List.mem_filter.mp hw).1
    · cases hjoin
  exact ⟨eligible_of_mem_ftsCaptures hcapture, w, hstored, rfl, rfl, rfl, rfl⟩

/-- What `captures_by_ids` finds under an id is that capture, with what is stored of it. -/
theorem capturesByIds_find {db : Ukg} {ids : List Int} {id : Int} {h : SearchHit}
    (hfind : ((db.capturesByIds ids).find? fun m => m.1 == id).map Prod.snd = some h) :
    h.windowCaptureId = id ∧ db.Shows h := by
  obtain ⟨⟨id', h'⟩, hm, rfl⟩ := Option.map_eq_some_iff.mp hfind
  have hid : id' = id := by simpa using List.find?_some hm
  obtain ⟨⟨wcId, w⟩, hw, heq⟩ := List.mem_map.mp (List.mem_of_find?_eq_some hm)
  obtain ⟨rfl, rfl⟩ := Prod.mk.inj heq
  exact ⟨hid, w, (List.mem_filter.mp hw).1, rfl, rfl, rfl, rfl⟩

/-- `captures_by_ids` finds an id that was asked for exactly if it is stored. -/
theorem capturesByIds_isSome (db : Ukg) {ids : List Int} {id : Int} (hid : id ∈ ids) :
    (((db.capturesByIds ids).find? fun m => m.1 == id).map Prod.snd).isSome = true ↔
      ∃ w, (id, w) ∈ db.windowCapture.rows := by
  simp only [capturesByIds, Option.isSome_map, List.find?_isSome, List.mem_map, List.mem_filter,
    List.contains_iff_mem, beq_iff_eq]
  constructor
  · rintro ⟨-, ⟨w, ⟨hw, -⟩, rfl⟩, rfl⟩
    exact ⟨w.2, hw⟩
  · rintro ⟨w, hw⟩
    exact ⟨_, ⟨(id, w), ⟨hw, hid⟩, rfl⟩, rfl⟩

/-! ### Two entries -/

/-- An engine for which every row matches every query, so that only the filters decide. -/
@[reducible]
def matchAll : Fts5 where
  toJoinOrder := joinInserted
  compile := fun _ => some fun _ => true
  snippet := fun _ _ => none
  bm25 := fun _ _ _ => 0
  byRank := fun _ rows => rows
  byRank_perm := fun _ _ => List.Perm.refl _

/-- One capture, made in the application `notes`. -/
def notesCapture : Ukg :=
  { new with
    windowCapture := Table.empty.insert
      ⟨"n", some "t", true, 0, "", "t", none, 5, false, none, none, none⟩
    app := Table.empty.insert ⟨none, none, "notes", none, none⟩
    appRelation := Table.empty.insert (1, 1)
    textIndex := [⟨1, "n", "t", "hello"⟩] }

attribute [local instance] matchAll in
/-- **The legs disagree on two entries.**  Filtered by `notes` and `mail`, the capture is in the set
    of the semantic legs, but the full-text leg looks for `notes` among the paths only. -/
theorem filters_disagree :
    ¬ ∀ (db : Ukg) (opts : SearchOptions), db.FiltersAgree opts := by
  intro h
  have hagree := h notesCapture ⟨"hello", none, none, ["notes", "mail"], none⟩ 1
  have heligible : notesCapture.Eligible ⟨"hello", none, none, ["notes", "mail"], none⟩ 1 := by
    show (1 : Int) ∈ [1]
    decide
  have htext : notesCapture.TextMatches "hello" 1 :=
    ⟨_, rfl, ⟨1, "n", "t", "hello"⟩, by decide, rfl, rfl⟩
  have hmissing : (1 : Int) ∉
      notesCapture.ftsCaptures ⟨"hello", none, none, ["notes", "mail"], none⟩ := by
    decide +kernel
  exact hmissing (hagree.mpr ⟨htext, heligible⟩)

end Ukg

end Precall.Store
