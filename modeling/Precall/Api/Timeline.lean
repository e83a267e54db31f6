import Precall.Lib.Paging
import Precall.Store.Ukg

namespace Precall.Api

open PagingLib TableLib Precall.Store

/-!
# Reading the timeline

`Ukg::timeline` of `precall-store/src/ukg.rs` and its two readers that page through it: the
timeline view of the web client (`loadMore` of `Timeline.tsx`) and `export` of
`precall-api/src/routes.rs`.  Both start without a cursor and continue below the timestamp of the
last entry.

The query orders by timestamp alone, so the order among equal timestamps is the engine's: it is a
parameter (`Descending`), and so is the order of the app names of an entry (`Ukg.JoinOrder`).

* `readPages_ends` — paging ends, and yields stored captures newest first, none twice;
* `timeline_complete_iff` — it yields all of them exactly if no timestamp is `i64::MAX` and no two
  equal timestamps meet at a page boundary, and the same for the export with its pages of 500.
-/

/-- One entry of the timeline, as the route and the export show it. -/
structure TimelineEntry where
  id : Int
  name : Option String
  imageToken : Option String
  windowTitle : Option String
  windowBounds : Option String
  timestamp100ns : Int
  activationUri : Option String
  fallbackUri : Option String
  apps : List String
  deriving DecidableEq, Repr

/-- `i64::MAX`. -/
def i64Max : Int := 2 ^ 63 - 1

/-- The entry of a capture row, with the name of the application that is first in the join. -/
def timelineEntry [Ukg.JoinOrder] (db : Ukg) (r : Int × WindowCaptureRow) : TimelineEntry where
  id := r.1
  name := some r.2.name
  imageToken := r.2.imageToken
  windowTitle := some r.2.windowTitle
  windowBounds := some r.2.windowBounds
  timestamp100ns := r.2.timeStamp
  activationUri := r.2.activationUri
  fallbackUri := r.2.fallbackUri
  apps := db.captureAppNames r.1

/-- The column the timeline is ordered by. -/
def stampOf (r : Int × WindowCaptureRow) : Int := r.2.timeStamp

/-- `Ukg::timeline` — newest first, strictly before the cursor; captures of one moment come in
    the engine's order. -/
def timeline [Ukg.JoinOrder] (order : Descending stampOf) (db : Ukg) (before100ns : Option Int)
    (limit : Int) : List TimelineEntry :=
  let before := before100ns.getD i64Max
  let rows := db.windowCapture.rows.filter fun r => stampOf r < before
  (Ukg.limitTo limit (order.arrange limit.toNat rows)).map (timelineEntry db)

/-! ### The readers -/

/-- Page after page, as `loadMore` continues the timeline, until one is empty; `none` if `fuel`
    pages were not enough. -/
def readPages [Ukg.JoinOrder] (order : Descending stampOf) (db : Ukg) (limit : Int) :
    Nat → Option Int → Option (List TimelineEntry)
  | 0, _ => none
  | fuel + 1, before =>
      let page := timeline order db before limit
      match page.getLast? with
      | none => some []
      | some last =>
          (readPages order db limit fuel (some last.timestamp100ns)).map (page ++ ·)

/-- One capture of the export, with its regions. -/
structure ExportedCapture where
  id : Int
  name : Option String
  imageToken : Option String
  windowTitle : Option String
  timestamp100ns : Int
  activationUri : Option String
  fallbackUri : Option String
  apps : List String
  regions : List (Int × ScreenRegionRow)
  deriving DecidableEq, Repr

/-- The export's object for an entry. -/
def exportEntry (db : Ukg) (e : TimelineEntry) : ExportedCapture where
  id := e.id
  name := e.name
  imageToken := e.imageToken
  windowTitle := e.windowTitle
  timestamp100ns := e.timestamp100ns
  activationUri := e.activationUri
  fallbackUri := e.fallbackUri
  apps := e.apps
  regions := db.regions e.id

/-- The `captures` of `export`: pages of 500, each from the last timestamp of the page before,
    until one is empty. -/
def exportCaptures [Ukg.JoinOrder] (order : Descending stampOf) (db : Ukg) (fuel : Nat) :
    Option (List ExportedCapture) :=
  (readPages order db 500 fuel none).map fun out => out.map (exportEntry db)

/-- No timestamp is out of reach of the first cursor, and no two equal timestamps meet where pages
    of `limit` are cut off the descending timestamps. -/
def PagesClean (db : Ukg) (limit : Int) : Prop :=
  (∀ r ∈ db.windowCapture.rows, stampOf r < i64Max) ∧
    CleanCuts limit.toNat (descendingKeys stampOf db.windowCapture.rows)

/-! ### Paging -/

/-- Paging through the timeline is paging through the rows, so the results about pages apply. -/
theorem readPages_eq [Ukg.JoinOrder] (order : Descending stampOf) (db : Ukg) {limit : Int}
    (hlimit : 1 ≤ limit) (fuel : Nat) (before : Option Int) :
    readPages order db limit fuel before =
      (order.pages db.windowCapture.rows limit.toNat fuel (before.getD i64Max)).map
        fun rows => rows.map (timelineEntry db) := by
  induction fuel generalizing before with
  | zero => rfl
  | succ fuel ih =>
    have hpage : timeline order db before limit =
        (order.page db.windowCapture.rows limit.toNat (before.getD i64Max)).map
          (timelineEntry db) := by
      rw [timeline, Ukg.limitTo, if_neg (by omega)]
      rfl
    rw [readPages, Descending.pages, hpage, List.getLast?_map]
    cases (order.page db.windowCapture.rows limit.toNat (before.getD i64Max)).getLast? with
    | none => rfl
    | some last =>
      rw [Option.map_some]
      dsimp only
      rw [ih, Option.map_map, Option.map_map]
      refine congrArg (Option.map · _) (funext fun out => ?_)
      exact (List.map_append).symm

/-- **Paging ends**, and yields the entries of stored captures newest first, none twice; all of
    them exactly if the pages are clean. -/
theorem readPages_ends [Ukg.JoinOrder] (order : Descending stampOf) (db : Ukg) {limit : Int}
    (hlimit : 1 ≤ limit) :
    ∃ rows : List (Int × WindowCaptureRow),
      (∀ fuel, db.windowCapture.rows.length < fuel →
        readPages order db limit fuel none = some (rows.map (timelineEntry db))) ∧
      rows.Pairwise (fun a b => stampOf b ≤ stampOf a) ∧
      rows.Subperm db.windowCapture.rows ∧
      (rows.length = db.windowCapture.rows.length ↔ PagesClean db limit) := by
  obtain ⟨out, hout⟩ := pagedOut order db.windowCapture.rows
    (by omega : 1 ≤ limit.toNat) i64Max
  have hsub : (db.windowCapture.rows.filter fun r => stampOf r < i64Max).Subperm
      db.windowCapture.rows := List.filter_sublist.subperm
  refine ⟨out, fun fuel hfuel => ?_, hout.sorted, hout.subperm.trans hsub, ?_⟩
  · have hle := List.length_filter_le (fun r => decide (stampOf r < i64Max)) db.windowCapture.rows
    have hpages := hout.ends fuel (by omega)
    rw [readPages_eq order db hlimit, Option.getD_none, hpages]
    rfl
  · have hshort : out.length ≤
        (db.windowCapture.rows.filter fun r => stampOf r < i64Max).length := hout.subperm.length_le
    constructor
    · intro hlen
      -- a row out of reach would be missing
      have hall : db.windowCapture.rows.filter (fun r => stampOf r < i64Max) =
          db.windowCapture.rows := by
        refine List.filter_sublist.eq_of_length ?_
        exact le_antisymm (List.length_filter_le _ _) (hlen ▸ hshort)
      have hperm := hout.subperm.perm_of_length_le (by rw [hall, hlen])
      have hclean := hout.complete.mp hperm
      rw [hall] at hclean
      exact ⟨fun r hr => by simpa using List.filter_eq_self.mp hall r hr, hclean⟩
    · rintro ⟨hreach, hclean⟩
      have hall : db.windowCapture.rows.filter (fun r => stampOf r < i64Max) =
          db.windowCapture.rows := List.filter_eq_self.mpr fun r hr => by simpa using hreach r hr
      have hcomplete := hout.complete
      rw [hall] at hcomplete
      exact (hcomplete.mpr hclean).length_eq

/-- **Paging through the timeline yields every capture exactly once, newest first, exactly if the
    pages are clean**; and so does the export, whose pages hold 500.  Paging always ends. -/
theorem timeline_complete_iff [Ukg.JoinOrder] (order : Descending stampOf) (db : Ukg) (limit : Int)
    (hlimit : 1 ≤ limit) :
    (∃ out, (∀ fuel, db.windowCapture.rows.length < fuel →
        readPages order db limit fuel none = some out) ∧
      ((out.Perm (db.windowCapture.rows.map (timelineEntry db)) ∧
          out.Pairwise fun a b => b.timestamp100ns ≤ a.timestamp100ns) ↔ PagesClean db limit)) ∧
    ∃ captures, (∀ fuel, db.windowCapture.rows.length < fuel →
        exportCaptures order db fuel = some captures) ∧
      (captures.Perm (db.windowCapture.rows.map fun r => exportEntry db (timelineEntry db r)) ↔
        PagesClean db 500) := by
  constructor
  · obtain ⟨rows, hends, hsorted, hsub, hclean⟩ := readPages_ends order db hlimit
    refine ⟨rows.map (timelineEntry db), hends, ?_⟩
    rw [← hclean]
    constructor
    · rintro ⟨hperm, -⟩
      simpa using hperm.length_eq
    · intro hlen
      exact ⟨(hsub.perm_of_length_le hlen.ge).map _, List.pairwise_map.mpr hsorted⟩
  · obtain ⟨rows, hends, -, hsub, hclean⟩ := readPages_ends order db
      (by decide : (1 : Int) ≤ 500)
    refine ⟨(rows.map (timelineEntry db)).map (exportEntry db), fun fuel hfuel => ?_, ?_⟩
    · rw [exportCaptures, hends fuel hfuel]
      rfl
    · rw [← hclean, List.map_map]
      constructor
      · intro hperm
        simpa using hperm.length_eq
      · intro hlen
        exact (hsub.perm_of_length_le hlen.ge).map _

/-! ### Two captures of one moment -/

section

attribute [local instance] Ukg.joinInserted

/-- An engine that sorts by insertion, so that equal timestamps stay in the order of their ids. -/
def insertionOrder : Descending stampOf where
  arrange _ rows := rows.insertionSort fun a b => stampOf b ≤ stampOf a
  perm _ _ := List.perm_insertionSort _ _
  sorted _ _ := by
    have htotal : Std.Total fun a b : Int × WindowCaptureRow => stampOf b ≤ stampOf a :=
      ⟨fun a b => le_total (stampOf b) (stampOf a)⟩
    have htrans : IsTrans (Int × WindowCaptureRow) fun a b => stampOf b ≤ stampOf a :=
      ⟨fun a b c hab hbc => le_trans hbc hab⟩
    exact List.pairwise_insertionSort _ _

/-- A capture at tick 5 with a given token. -/
def captureAtFive (token : String) : WindowCaptureRow :=
  ⟨"n", some token, true, 0, "", "t", none, 5, false, none, none, none⟩

/-- Two captures with the same timestamp, which a page of one tears apart. -/
def twins : Ukg :=
  { Ukg.new with
    windowCapture := (Table.empty.insert (captureAtFive "a")).insert (captureAtFive "b") }

/-- Both twins fit on a page of two. -/
theorem timeline_complete_twins :
    ∃ out, (∀ fuel, 2 < fuel → readPages insertionOrder twins 2 fuel none = some out) ∧
      out.Perm (twins.windowCapture.rows.map (timelineEntry twins)) := by
  have hpaged := timeline_complete_iff insertionOrder twins 2 (by decide)
  obtain ⟨out, hends, hiff⟩ := hpaged.1
  have hkeys : descendingKeys stampOf twins.windowCapture.rows = [5, 5] := by decide
  have hclean : PagesClean twins 2 := by
    refine ⟨by decide, fun k a b _ hb => ?_⟩
    rw [hkeys, List.getElem?_eq_none (by simp)] at hb
    cases hb
  exact ⟨out, hends, (hiff.mpr hclean).1⟩

/-- **A page boundary between equal timestamps loses the second capture.**  Read one at a time, of
    two captures with the same timestamp only one is ever seen. -/
theorem timeline_loses_twin :
    ¬ ∀ (order : Descending stampOf) (db : Ukg) (limit : Int), 1 ≤ limit →
      ∃ out, (∀ fuel, db.windowCapture.rows.length < fuel →
          readPages order db limit fuel none = some out) ∧
        out.Perm (db.windowCapture.rows.map (timelineEntry db)) ∧
        out.Pairwise fun a b => b.timestamp100ns ≤ a.timestamp100ns := by
  intro h
  obtain ⟨out, hends, hperm, -⟩ := h insertionOrder twins 1 (by decide)
  have hrun : (readPages insertionOrder twins 1 3 none).map List.length = some 1 := by
    decide +kernel
  rw [hends 3 (by decide), Option.map_some, hperm.length_eq] at hrun
  exact absurd hrun (by decide +kernel)

end

end Precall.Api
