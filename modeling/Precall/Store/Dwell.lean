import Precall.Lib.Ledger
import Precall.Lib.Runs
import Precall.Store.Dates
import Precall.Store.Ukg

namespace Precall.Store

open Calendar LedgerLib TableLib Ukg

/-!
# Dwell time by the hour

`hour_bucket`, `Ukg::add_app_dwell` and `Ukg::add_web_dwell` of `precall-store/src/ukg.rs` against
the clock.  The code first divides the ticks since 1970 into seconds, towards zero, so the last
second before an hour before 1970 is rounded up into that hour.

* `hourBucketIn` — the function with every `i64` operation either checked or wrapping;
  `hourBucketIn_eq` — it is `hourBucket`, except that the checks of a debug build panic in the
  lowest hour;
* `InHour` — what a bucket should be; `inHour_hourBucket_iff` — when it is;
* `Filed` — a table with one row for each key and hour, of the exact sum;
  `filed_prefixes_iff` — the calls that keep a table so;
* `dwellOf_calls` — what any calls add up to for a key, wherever they are filed;
* `dwell_exact_iff` — all of this for runs of calls on both tables.
-/

/-! ### The bucket, operation by operation -/

/-- What `i64` arithmetic does on overflow: a debug build panics, a release build wraps. -/
inductive Overflow where
  | panics
  | wraps
  deriving DecidableEq, Repr

/-- The result of an `i64` operation. -/
def Overflow.i64 : Overflow → Int → Option Int
  | .panics, x => Store.i64 x
  | .wraps, x => some (Int.bmod x (2 ^ 64))

/-- `FILETIME_UNIX_DELTA`. -/
def filetimeUnixDelta : Int := 116444736000000000

/-- `TICKS_PER_SEC`. -/
def ticksPerSec : Int := 10000000

/-- `TICKS_PER_HOUR`. -/
def ticksPerHour : Int := 36000000000

/-- `hour_bucket`, one operation after the other in the arithmetic of the build; `none` is a
    panic. -/
def hourBucketIn (o : Overflow) (ts100ns : Int) : Option (Int × Int × Int) := do
  let sinceEpoch ← o.i64 (ts100ns - filetimeUnixDelta)
  let unixSecs := sinceEpoch.tdiv ticksPerSec
  let days := unixSecs / 86400
  let secsOfDay := unixSecs % 86400
  let hour := secsOfDay / 3600
  let shifted ← o.i64 (days + 4)
  let dow := shifted % 7
  let dayHours ← o.i64 (days * 24)
  let hours ← o.i64 (dayHours + hour)
  let ticks ← o.i64 (hours * ticksPerHour)
  let hourStart ← o.i64 (filetimeUnixDelta + ticks)
  return (hour, dow, hourStart)

/-- A timestamp from which the ticks before 1970 can be subtracted, which is what the two callers
    are promised to be given. -/
structure Timestamp where
  ticks : Int
  lo : -2 ^ 63 ≤ ticks - filetimeUnixDelta
  hi : ticks < 2 ^ 63

namespace Timestamp

/-- The ticks since 1970. -/
def sinceEpoch (ts : Timestamp) : Int := ts.ticks - filetimeUnixDelta

/-- Above the lowest hour, whose start is more ticks before 1970 than an `i64` counts; a build
    that wraps computes it all the same. -/
def AboveLowest : Overflow → Timestamp → Prop
  | .panics, ts => -9223372008010000000 < ts.sinceEpoch
  | .wraps, _ => True

/-- Since 1970, or not after the last whole second of its hour: elsewhere rounding towards zero
    moves the instant into the next hour. -/
def InWholeSecond (ts : Timestamp) : Prop :=
  0 ≤ ts.sinceEpoch ∨ ts.sinceEpoch % ticksPerHour ≤ ticksPerHour - ticksPerSec

instance (o : Overflow) : DecidablePred (AboveLowest o) := fun _ => by
  cases o
  · exact inferInstanceAs (Decidable (_ < _))
  · exact inferInstanceAs (Decidable True)

instance : DecidablePred InWholeSecond := fun _ => inferInstanceAs (Decidable (_ ∨ _))

end Timestamp

/-- The bucket of the hour that starts `hours` whole hours after 1970-01-01T00:00:00Z. -/
def bucketAt (hours : Int) : Int × Int × Int :=
  (hours % 24, (hours / 24 + 4) % 7, filetimeUnixDelta + hours * ticksPerHour)

/-- The bucket, from the whole seconds since 1970. -/
private theorem bucketAt_secs (unixSecs : Int) :
    (unixSecs % 86400 / 3600, (unixSecs / 86400 + 4) % 7,
      filetimeUnixDelta + (unixSecs / 86400 * 24 + unixSecs % 86400 / 3600) * ticksPerHour) =
        bucketAt (unixSecs / 3600) := by
  have hhours : unixSecs / 86400 * 24 + unixSecs % 86400 / 3600 = unixSecs / 3600 := by omega
  rw [hhours]
  refine Prod.ext ?_ (Prod.ext ?_ rfl)
  · show unixSecs % 86400 / 3600 = unixSecs / 3600 % 24
    omega
  · show (unixSecs / 86400 + 4) % 7 = (unixSecs / 3600 / 24 + 4) % 7
    omega

/-- The hour the code counts up to: ticks to seconds towards zero, seconds to hours downwards. -/
def codeHours (ts100ns : Int) : Int := (ts100ns - filetimeUnixDelta).tdiv ticksPerSec / 3600

/-- The code's bucket is the one of the hours it counts. -/
theorem hourBucket_eq (ts100ns : Int) : hourBucket ts100ns = bucketAt (codeHours ts100ns) :=
  bucketAt_secs _

/-- Whole seconds, towards zero. -/
private theorem tdiv_ticksPerSec (n : Int) :
    0 ≤ n ∧ n.tdiv ticksPerSec = n / ticksPerSec ∨
      n < 0 ∧ n.tdiv ticksPerSec = -(-n / ticksPerSec) := by
  by_cases hn : 0 ≤ n
  · exact Or.inl ⟨hn, Int.tdiv_eq_ediv_of_nonneg hn⟩
  · have hneg : n.tdiv ticksPerSec = -((-n).tdiv ticksPerSec) := by
      rw [Int.neg_tdiv, Int.neg_neg]
    rw [hneg, Int.tdiv_eq_ediv_of_nonneg (by omega)]
    exact Or.inr ⟨by omega, rfl⟩

/-- The code's hour is the hour of the instant, or in the last second before 1970 the next: the
    one place where the two ways of rounding differ. -/
theorem codeHours_eq (ts : Timestamp) : codeHours ts.ticks =
    ts.sinceEpoch / ticksPerHour + if ts.InWholeSecond then 0 else 1 := by
  have hsecs := tdiv_ticksPerSec ts.sinceEpoch
  show ts.sinceEpoch.tdiv ticksPerSec / 3600 = _
  generalize ts.sinceEpoch.tdiv ticksPerSec = unixSecs at hsecs ⊢
  by_cases hwhole : ts.InWholeSecond
  · rw [if_pos hwhole]
    unfold Timestamp.InWholeSecond ticksPerHour ticksPerSec at *
    omega
  · rw [if_neg hwhole]
    unfold Timestamp.InWholeSecond ticksPerHour ticksPerSec at *
    omega

/-- An operation whose result fits. -/
private theorem overflow_bind {α : Type} {x : Int} (o : Overflow) (f : Int → Option α)
    (hlo : -2 ^ 63 ≤ x) (hhi : x < 2 ^ 63) : o.i64 x >>= f = f x := by
  have hfits : o.i64 x = some x := by
    cases o with
    | panics => exact i64_eq hlo hhi
    | wraps =>
      show some _ = some _
      rw [Int.bmod_eq_of_le (by omega) (by omega)]
  rw [hfits]
  rfl

/-- The start of an hour: the product may be out of range where the start is not, and then a
    build with checks panics. -/
private theorem hourStart_bind (o : Overflow) {hours : Int}
    (hlo : -2 ^ 63 ≤ filetimeUnixDelta + hours * ticksPerHour)
    (hhi : filetimeUnixDelta + hours * ticksPerHour < 2 ^ 63) :
    (o.i64 (hours * ticksPerHour) >>= fun ticks => o.i64 (filetimeUnixDelta + ticks)) =
      if o = .wraps ∨ -2 ^ 63 ≤ hours * ticksPerHour then
        some (filetimeUnixDelta + hours * ticksPerHour)
      else none := by
  cases o with
  | panics =>
    by_cases hproduct : -2 ^ 63 ≤ hours * ticksPerHour
    · have hbelow : hours * ticksPerHour < 2 ^ 63 := by
        unfold filetimeUnixDelta at hhi
        omega
      rw [if_pos (Or.inr hproduct), overflow_bind _ _ hproduct hbelow]
      exact i64_eq hlo hhi
    · have hpanic : Overflow.panics.i64 (hours * ticksPerHour) = none :=
        if_neg fun h => hproduct h.1
      have hneither : ¬ (Overflow.panics = .wraps ∨ -2 ^ 63 ≤ hours * ticksPerHour) :=
        not_or.mpr ⟨Overflow.noConfusion, hproduct⟩
      rw [if_neg hneither, hpanic]
      rfl
  | wraps =>
    rw [if_pos (Or.inl rfl)]
    show some (Int.bmod (_ + Int.bmod _ _) _) = some _
    rw [Int.add_bmod_bmod, Int.bmod_eq_of_le (by omega) (by omega)]

/-- **Where `hour_bucket` returns.**  Only the multiplication by the ticks of an hour can overflow;
    where it wraps, the addition after it wraps back. -/
theorem hourBucketIn_eq (o : Overflow) (ts : Timestamp) : hourBucketIn o ts.ticks =
    if ts.AboveLowest o then some (hourBucket ts.ticks) else none := by
  have hlo := ts.lo
  have hhi := ts.hi
  have hsecs := tdiv_ticksPerSec ts.sinceEpoch
  have hsince : ts.sinceEpoch = ts.ticks - filetimeUnixDelta := rfl
  have hbelow : ts.sinceEpoch < 2 ^ 63 - filetimeUnixDelta := by omega
  rw [hourBucket_eq, show codeHours ts.ticks = ts.sinceEpoch.tdiv ticksPerSec / 3600 from rfl,
    ← bucketAt_secs]
  unfold hourBucketIn
  rw [← hsince] at hlo ⊢
  refine (overflow_bind o _ hlo (by unfold filetimeUnixDelta at hbelow; omega)).trans ?_
  -- bounds of the seconds, for the operations that follow
  have hbounds : -922337203685 ≤ ts.sinceEpoch.tdiv ticksPerSec ∧
      ts.sinceEpoch.tdiv ticksPerSec ≤ 910692730085 := by
    unfold filetimeUnixDelta ticksPerSec at *
    omega
  generalize ts.sinceEpoch.tdiv ticksPerSec = unixSecs at hsecs hbounds ⊢
  iterate 3 refine (overflow_bind o _ (by omega) (by omega)).trans ?_
  have hhours : unixSecs / 86400 * 24 + unixSecs % 86400 / 3600 = unixSecs / 3600 := by omega
  rw [hhours]
  have hstart : -2 ^ 63 ≤ filetimeUnixDelta + unixSecs / 3600 * ticksPerHour ∧
      filetimeUnixDelta + unixSecs / 3600 * ticksPerHour < 2 ^ 63 := by
    unfold filetimeUnixDelta ticksPerHour
    omega
  have habove : (o = .wraps ∨ -2 ^ 63 ≤ unixSecs / 3600 * ticksPerHour) ↔ ts.AboveLowest o := by
    cases o with
    | panics =>
      show _ ↔ -9223372008010000000 < ts.sinceEpoch
      simp only [reduceCtorEq, false_or]
      unfold ticksPerHour ticksPerSec at *
      omega
    | wraps => exact iff_of_true (Or.inl rfl) trivial
  refine (bind_assoc _ _ _).symm.trans ?_
  rw [hourStart_bind o hstart.1 hstart.2]
  by_cases h : ts.AboveLowest o
  · rw [if_pos (habove.mpr h), if_pos h]
    rfl
  · rw [if_neg (mt habove.mp h), if_neg h]
    rfl

/-! ### The hour of an instant -/

/-- The hour of the day of an instant; FILETIME counts from midnight. -/
def utcHour (ts100ns : Int) : Int := ts100ns % ticksPerDay / ticksPerHour

/-- The day of the week of an instant. -/
def utcWeekday (ts100ns : Int) : Int := (filetimeDate ts100ns).weekday

/-- The start of the hour of an instant. -/
def hourStartOf (ts100ns : Int) : Int := ts100ns - (ts100ns - filetimeUnixDelta) % ticksPerHour

/-- What the bucket of an instant should be: a whole number of hours from 1970-01-01T00:00:00Z, at
    most an hour before the instant, with its hour and its day of the week. -/
structure InHour (ts100ns : Int) (bucket : Int × Int × Int) : Prop where
  start_le : bucket.2.2 ≤ ts100ns
  lt_end : ts100ns < bucket.2.2 + ticksPerHour
  aligned : (bucket.2.2 - filetimeUnixDelta) % ticksPerHour = 0
  hour : bucket.1 = utcHour ts100ns
  weekday : bucket.2.1 = utcWeekday ts100ns

/-- The bucket of an instant is the one of its whole hours since 1970; both sides are computed
    without the code's roundings. -/
theorem utc_eq (ts100ns : Int) : (utcHour ts100ns, utcWeekday ts100ns, hourStartOf ts100ns) =
    bucketAt ((ts100ns - filetimeUnixDelta) / ticksPerHour) := by
  refine Prod.ext ?_ (Prod.ext ?_ ?_)
  · show ts100ns % ticksPerDay / ticksPerHour = (ts100ns - filetimeUnixDelta) / ticksPerHour % 24
    unfold ticksPerDay filetimeUnixDelta ticksPerHour
    omega
  · show utcWeekday ts100ns = ((ts100ns - filetimeUnixDelta) / ticksPerHour / 24 + 4) % 7
    rw [utcWeekday, filetimeDate_eq, Date.weekday_addDays]
    unfold ticksPerDay filetimeUnixDelta ticksPerHour
    omega
  · show hourStartOf ts100ns = _ + (ts100ns - filetimeUnixDelta) / ticksPerHour * ticksPerHour
    unfold hourStartOf filetimeUnixDelta ticksPerHour
    omega

/-- A bucket belongs to a time exactly if it is that of the hour the time lies in, by the clock
    of UTC. -/
theorem inHour_iff (ts100ns : Int) (bucket : Int × Int × Int) : InHour ts100ns bucket ↔
    bucket = (utcHour ts100ns, utcWeekday ts100ns, hourStartOf ts100ns) := by
  constructor
  · intro h
    have hle := h.start_le
    have hlt := h.lt_end
    have haligned := h.aligned
    refine Prod.ext h.hour (Prod.ext h.weekday ?_)
    show bucket.2.2 = hourStartOf ts100ns
    unfold hourStartOf filetimeUnixDelta ticksPerHour at *
    omega
  · rintro rfl
    refine ⟨?_, ?_, ?_, rfl, rfl⟩
    all_goals
      show _
      simp only [hourStartOf, filetimeUnixDelta, ticksPerHour]
      omega

/-- **When the bucket is that of the hour.**  Exactly outside the fractional last seconds of the
    hours before 1970; from there the next hour is named. -/
theorem inHour_hourBucket_iff (ts : Timestamp) :
    InHour ts.ticks (hourBucket ts.ticks) ↔ ts.InWholeSecond := by
  have hsince : ts.ticks - filetimeUnixDelta = ts.sinceEpoch := rfl
  rw [inHour_iff, hourBucket_eq, utc_eq, codeHours_eq, hsince]
  split
  · rename_i hwhole
    simp [hwhole]
  · rename_i hwhole
    refine iff_of_false (fun h => ?_) hwhole
    have hstart := congrArg (fun bucket => bucket.2.2) h
    simp only [bucketAt, ticksPerHour] at hstart
    omega

/-! ### Rows as accounts -/

/-- The accounts of a dwell table: a row for each key and hour, with the sum of what was posted
    on it. -/
def dwellKind : AccountKind (String × Int) DwellRow where
  key r := (r.key, r.hourStart)
  amount := DwellRow.dwellTime
  add r n := { r with dwellTime := r.dwellTime + n }
  key_add _ _ := rfl
  amount_add _ _ := rfl
  add_zero r := by simp
  add_add r m n := by simp [Int.add_assoc]

/-- The row a call inserts where there is none. -/
def dwellRow (key : String) (bucket : Int × Int × Int) (dwellMs : Int) : DwellRow :=
  ⟨key, bucket.1, bucket.2.1, bucket.2.2, dwellMs⟩

/-- The upsert of `add_app_dwell` and `add_web_dwell`, for a bucket already computed: the time is
    added to the row of the key and hour, or opens it. -/
def fileDwell (t : Table DwellRow) (row : DwellRow) : Table DwellRow :=
  let same (r : DwellRow) : Bool := r.key == row.key && r.hourStart == row.hourStart
  match t.find? same with
  | some _ =>
      t.update fun _ r =>
        if same r then { r with dwellTime := r.dwellTime + row.dwellTime } else r
  | none => t.insert row

/-- Dwell time is filed under its key and the bucket of its hour. -/
theorem addDwell_eq (t : Table DwellRow) (key : String) (ts100ns dwellMs : Int) :
    addDwell t key ts100ns dwellMs = fileDwell t (dwellRow key (hourBucket ts100ns) dwellMs) := rfl

/-- The rows of a table, without their ids. -/
def contents (t : Table DwellRow) : List DwellRow := t.rows.map Prod.snd

/-- **The upsert posts on the account of its key and hour.** -/
theorem contents_fileDwell (t : Table DwellRow) (row : DwellRow) :
    contents (fileDwell t row) = dwellKind.post (contents t) row := by
  let same (r : DwellRow) : Bool := r.key == row.key && r.hourStart == row.hourStart
  have hsame (r : DwellRow) : same r = decide (dwellKind.key r = dwellKind.key row) := by
    rw [Bool.eq_iff_iff]
    simp [same, dwellKind]
  have hany : ((contents t).any fun r => dwellKind.key r = dwellKind.key row) =
      (t.find? same).isSome := by
    unfold contents Table.find?
    rw [List.any_map, Option.isSome_map, List.isSome_find?]
    congr 1
    funext r
    exact (hsame r.2).symm
  show contents (match t.find? same with | some _ => _ | none => _) = _
  rw [AccountKind.post, hany]
  cases hfind : t.find? same with
  | some id =>
    show (List.map _ t.rows).map Prod.snd = (t.rows.map Prod.snd).map (dwellKind.addTo row)
    rw [List.map_map, List.map_map]
    refine List.map_congr_left fun r _ => ?_
    show (if same r.2 then _ else _) = if _ then _ else _
    simp only [hsame, decide_eq_true_eq]
    rfl
  | none =>
    show (t.rows ++ [(t.nextId, row)]).map Prod.snd = t.rows.map Prod.snd ++ [row]
    rw [List.map_append]
    rfl

/-! ### A table and the clock -/

/-- What a call of `add_app_dwell` or `add_web_dwell` is given, except for the table. -/
structure DwellAdd where
  key : String
  ts : Timestamp
  dwellMs : Int

namespace DwellAdd

/-- The row the code files it under, if there is none, by the hour the code counts. -/
def codeRow (a : DwellAdd) : DwellRow := dwellRow a.key (hourBucket a.ts.ticks) a.dwellMs

/-- The row of its hour by the clock of UTC, which the table should have. -/
def utcRow (a : DwellAdd) : DwellRow :=
  dwellRow a.key (utcHour a.ts.ticks, utcWeekday a.ts.ticks, hourStartOf a.ts.ticks) a.dwellMs

end DwellAdd

/-- The calls for a key at the instants of an hour. -/
def booked (adds : List DwellAdd) (key : String) (hourStart : Int) : List DwellAdd :=
  adds.filter fun a => a.key = key ∧ hourStartOf a.ts.ticks = hourStart

/-- The table holds one row for each key and hour with a call, of the exact sum for that hour,
    and no other row. -/
structure Filed (adds : List DwellAdd) (t : Table DwellRow) : Prop where
  one : (t.rows.map fun r => (r.2.key, r.2.hourStart)).Nodup
  row_iff : ∀ r : DwellRow, (∃ id, (id, r) ∈ t.rows) ↔
    booked adds r.key r.hourStart ≠ [] ∧
      r = ⟨r.key, utcHour r.hourStart, utcWeekday r.hourStart, r.hourStart,
        ((booked adds r.key r.hourStart).map DwellAdd.dwellMs).sum⟩

/-- An instant and the start of its hour are in the same hour. -/
private theorem utc_hourStartOf (ts100ns : Int) :
    utcHour (hourStartOf ts100ns) = utcHour ts100ns ∧
      utcWeekday (hourStartOf ts100ns) = utcWeekday ts100ns := by
  have hhours : (hourStartOf ts100ns - filetimeUnixDelta) / ticksPerHour =
      (ts100ns - filetimeUnixDelta) / ticksPerHour := by
    unfold hourStartOf filetimeUnixDelta ticksPerHour
    omega
  have hsame := utc_eq (hourStartOf ts100ns)
  rw [hhours, ← utc_eq] at hsame
  exact ⟨congrArg Prod.fst hsame, congrArg (fun bucket => bucket.2.1) hsame⟩

/-- What the calls for a key in an hour come to: nothing if there are none, else the row with the
    sum of their times. -/
private theorem merge_utcRow (adds : List DwellAdd) (key : String) (hourStart : Int) :
    dwellKind.merge (dwellKind.under (key, hourStart) (adds.map DwellAdd.utcRow)) =
      if booked adds key hourStart = [] then none
      else some ⟨key, utcHour hourStart, utcWeekday hourStart, hourStart,
        ((booked adds key hourStart).map DwellAdd.dwellMs).sum⟩ := by
  have hunder : dwellKind.under (key, hourStart) (adds.map DwellAdd.utcRow) =
      (booked adds key hourStart).map DwellAdd.utcRow := by
    unfold AccountKind.under booked
    rw [List.filter_map]
    congr 1
    refine List.filter_congr fun a _ => ?_
    show decide ((a.key, hourStartOf a.ts.ticks) = (key, hourStart)) = decide _
    simp only [Prod.mk.injEq]
  have hmem : ∀ a ∈ booked adds key hourStart,
      a.key = key ∧ hourStartOf a.ts.ticks = hourStart := fun a ha =>
    of_decide_eq_true (List.mem_filter.mp ha).2
  rw [hunder]
  cases hbooked : booked adds key hourStart with
  | nil => rfl
  | cons a rest =>
    obtain ⟨hkey, hstart⟩ := hmem a (hbooked ▸ List.mem_cons_self)
    have hutc := utc_hourStartOf a.ts.ticks
    rw [hstart] at hutc
    have hsum : (rest.map DwellAdd.utcRow).map dwellKind.amount = rest.map DwellAdd.dwellMs := by
      rw [List.map_map]
      rfl
    rw [if_neg (List.cons_ne_nil a rest), List.map_cons, AccountKind.merge, hsum]
    show some (DwellRow.mk _ _ _ _ _) = some (DwellRow.mk _ _ _ _ _)
    rw [hutc.1, hutc.2, List.map_cons, List.sum_cons, ← hkey, ← hstart]
    rfl

/-- The table files the calls exactly if it agrees with them as a ledger does with its entries. -/
theorem filed_iff (adds : List DwellAdd) (t : Table DwellRow) :
    Filed adds t ↔ dwellKind.Agrees (contents t) (adds.map DwellAdd.utcRow) := by
  have hkeys : (contents t).map dwellKind.key = t.rows.map fun r => (r.2.key, r.2.hourStart) :=
    List.map_map
  have hmem (r : DwellRow) : r ∈ contents t ↔ ∃ id, (id, r) ∈ t.rows := by
    simp [contents]
  have hmerge (r : DwellRow) : dwellKind.merge
      (dwellKind.under (dwellKind.key r) (adds.map DwellAdd.utcRow)) = some r ↔
        booked adds r.key r.hourStart ≠ [] ∧
          r = ⟨r.key, utcHour r.hourStart, utcWeekday r.hourStart, r.hourStart,
            ((booked adds r.key r.hourStart).map DwellAdd.dwellMs).sum⟩ := by
    rw [show dwellKind.key r = (r.key, r.hourStart) from rfl, merge_utcRow]
    split
    · rename_i hnone
      simp [hnone]
    · rename_i hsome
      rw [Option.some.injEq, eq_comm]
      exact (and_iff_right hsome).symm
  rw [AccountKind.agrees_iff, hkeys]
  simp only [hmem, hmerge]
  exact ⟨fun h => ⟨h.one, h.row_iff⟩, fun h => ⟨h.1, h.2⟩⟩

/-- Does a call keep a table exact that is so for the calls before?  It is not moved to the next
    hour, or it adds nothing, to hours that both have calls already. -/
def Unmoved (adds : List DwellAdd) (a : DwellAdd) : Prop :=
  a.ts.InWholeSecond ∨ a.dwellMs = 0 ∧ booked adds a.key (hourStartOf a.ts.ticks) ≠ [] ∧
    booked adds a.key (hourStartOf a.ts.ticks + ticksPerHour) ≠ []

/-- **One call**: an exact table stays exact exactly if the call is not moved to the next hour, or
    adds nothing, to hours that both have calls already. -/
theorem filed_addDwell_iff {adds : List DwellAdd} {t : Table DwellRow} (h : Filed adds t)
    (a : DwellAdd) :
    Filed (adds ++ [a]) (addDwell t a.key a.ts.ticks a.dwellMs) ↔ Unmoved adds a := by
  have hcontents : contents (addDwell t a.key a.ts.ticks a.dwellMs) =
      dwellKind.post (contents t) a.codeRow := contents_fileDwell t a.codeRow
  rw [filed_iff] at h ⊢
  rw [hcontents, List.map_append]
  by_cases hwhole : a.ts.InWholeSecond
  · have hrow : a.codeRow = a.utcRow := by
      rw [DwellAdd.codeRow, (inHour_iff _ _).mp ((inHour_hourBucket_iff a.ts).mpr hwhole)]
      rfl
    rw [hrow]
    exact iff_of_true (h.post a.utcRow) (Or.inl hwhole)
  · have hbooked (hourStart : Int) : (∃ r ∈ adds.map DwellAdd.utcRow,
        dwellKind.key r = (a.key, hourStart)) ↔ booked adds a.key hourStart ≠ [] := by
      simp [booked, dwellKind, DwellAdd.utcRow, dwellRow]
    have hmoved : dwellKind.key a.codeRow = (a.key, hourStartOf a.ts.ticks + ticksPerHour) := by
      refine Prod.ext rfl ?_
      show (hourBucket a.ts.ticks).2.2 = _
      rw [hourBucket_eq, codeHours_eq, if_neg hwhole]
      simp only [bucketAt, hourStartOf, Timestamp.sinceEpoch, ticksPerHour]
      omega
    have hne : dwellKind.key a.codeRow ≠ dwellKind.key a.utcRow := by
      rw [hmoved]
      intro h
      have hstart : hourStartOf a.ts.ticks + ticksPerHour = hourStartOf a.ts.ticks :=
        congrArg Prod.snd h
      unfold ticksPerHour at hstart
      omega
    have hunmoved : Unmoved adds a ↔ a.dwellMs = 0 ∧
        booked adds a.key (hourStartOf a.ts.ticks) ≠ [] ∧
          booked adds a.key (hourStartOf a.ts.ticks + ticksPerHour) ≠ [] := or_iff_right hwhole
    rw [hunmoved, ← hbooked, ← hbooked, ← hmoved]
    exact h.misposted_iff hne rfl

/-! ### Runs of calls -/

/-- The two tables of dwell time. -/
inductive DwellTable where
  | app
  | web
  deriving DecidableEq, Repr

/-- A call of `add_app_dwell` or of `add_web_dwell`. -/
structure DwellCall where
  table : DwellTable
  add : DwellAdd

/-- The rows of one of the tables. -/
def Ukg.dwell (db : Ukg) : DwellTable → Table DwellRow
  | .app => db.appDwell
  | .web => db.webDwell

/-- `Ukg::add_app_dwell` where the bucket may panic. -/
def Ukg.addAppDwellIn (db : Ukg) (o : Overflow) (windowsAppId : String)
    (ts100ns dwellMs : Int) : Option Ukg := do
  let bucket ← hourBucketIn o ts100ns
  return { db with appDwell := fileDwell db.appDwell (dwellRow windowsAppId bucket dwellMs) }

/-- `Ukg::add_web_dwell` where the bucket may panic. -/
def Ukg.addWebDwellIn (db : Ukg) (o : Overflow) (domain : String) (ts100ns dwellMs : Int) :
    Option Ukg := do
  let bucket ← hourBucketIn o ts100ns
  return { db with webDwell := fileDwell db.webDwell (dwellRow domain bucket dwellMs) }

/-- One call. -/
def callDwell (o : Overflow) (db : Ukg) (c : DwellCall) : Option Ukg :=
  match c.table with
  | .app => db.addAppDwellIn o c.add.key c.add.ts.ticks c.add.dwellMs
  | .web => db.addWebDwellIn o c.add.key c.add.ts.ticks c.add.dwellMs

/-- Calls in order, up to the first panic; after one the process is gone. -/
def callsDwell (o : Overflow) (db : Ukg) (calls : List DwellCall) : Option Ukg :=
  calls.foldlM (callDwell o) db

/-- What the calls on one table were given. -/
def addsTo (table : DwellTable) (calls : List DwellCall) : List DwellAdd :=
  (calls.filter fun c => c.table = table).map DwellCall.add

/-- What a table holds for a key. -/
def dwellOf (key : String) (t : Table DwellRow) : Int :=
  ((contents t).filter (·.key = key)).map DwellRow.dwellTime |>.sum

/-- A further call is among those of its own table. -/
@[simp] theorem addsTo_concat (table : DwellTable) (calls : List DwellCall) (c : DwellCall) :
    addsTo table (calls ++ [c]) =
      if c.table = table then addsTo table calls ++ [c.add] else addsTo table calls := by
  by_cases h : c.table = table <;> simp [addsTo, h]

/-- Calls are made one after the other, and none after one that failed. -/
theorem callsDwell_concat (o : Overflow) (db : Ukg) (calls : List DwellCall) (c : DwellCall) :
    callsDwell o db (calls ++ [c]) = (callsDwell o db calls).bind (callDwell o · c) := by
  unfold callsDwell
  rw [List.foldlM_append]
  simp

/-- A call returns above the lowest hour, and writes its own table only; below it a build with
    checks panics and nothing is written. -/
theorem dwell_callDwell {o : Overflow} {db db' : Ukg} {c : DwellCall}
    (h : callDwell o db c = some db') (table : DwellTable) :
    db'.dwell table = if c.table = table then
      addDwell (db.dwell table) c.add.key c.add.ts.ticks c.add.dwellMs else db.dwell table := by
  obtain ⟨t, add⟩ := c
  have hbucket := hourBucketIn_eq o add.ts
  cases t <;>
  · simp only [callDwell, addAppDwellIn, addWebDwellIn, hbucket] at h
    split at h
    · obtain rfl := Option.some.inj h
      cases table <;> rfl
    · cases h

/-- A call goes through exactly if its time is above the lowest that the arithmetic of the hour
    can take. -/
theorem callDwell_isSome {o : Overflow} {db : Ukg} {c : DwellCall} :
    (callDwell o db c).isSome ↔ c.add.ts.AboveLowest o := by
  obtain ⟨t, add⟩ := c
  have hbucket := hourBucketIn_eq o add.ts
  cases t <;>
  · simp only [callDwell, addAppDwellIn, addWebDwellIn, hbucket]
    split <;> simp_all

/-- **The ledger of a run**: each table holds the postings of its own calls, in their order,
    whatever the other table got in between. -/
theorem contents_callsDwell {o : Overflow} {db : Ukg} (hnew : ∀ table, (db.dwell table).rows = [])
    (table : DwellTable) (calls : List DwellCall) {db' : Ukg}
    (h : callsDwell o db calls = some db') :
    contents (db'.dwell table) =
      dwellKind.postAll ((addsTo table calls).map DwellAdd.codeRow) := by
  induction calls using List.reverseRecOn generalizing db' with
  | nil =>
    obtain rfl := Option.some.inj h
    simp [contents, hnew, addsTo, AccountKind.postAll]
  | append_singleton calls c ih =>
    rw [callsDwell_concat] at h
    obtain ⟨mid, hmid, hcall⟩ := Option.bind_eq_some_iff.mp h
    have hearlier := ih hmid
    rw [dwell_callDwell hcall, addsTo_concat]
    split
    · rw [addDwell_eq, contents_fileDwell, hearlier, List.map_append, AccountKind.postAll,
        AccountKind.postAll, List.foldl_append]
      rfl
    · exact hearlier

/-- **Nothing is lost**: whatever hours calls are filed under, a key has what was added for it. -/
theorem dwellOf_calls {o : Overflow} {db : Ukg} (hnew : ∀ table, (db.dwell table).rows = [])
    {calls : List DwellCall} {db' : Ukg} (h : callsDwell o db calls = some db')
    (table : DwellTable) (key : String) :
    dwellOf key (db'.dwell table) =
      (((addsTo table calls).filter (·.key = key)).map DwellAdd.dwellMs).sum := by
  have htotal := AccountKind.totalOf_postAll (K := dwellKind) (fun k => k.1 = key)
    ((addsTo table calls).map DwellAdd.codeRow)
  rw [← contents_callsDwell hnew table calls h] at htotal
  refine Eq.trans htotal ?_
  unfold AccountKind.totalOf
  rw [List.filter_map, List.map_map]
  rfl

/-- A run that did not panic and left both tables exact: what the claim asks of every run. -/
def FiledAfter (o : Overflow) (db : Ukg) (calls : List DwellCall) : Prop :=
  ∃ db', callsDwell o db calls = some db' ∧ ∀ table, Filed (addsTo table calls) (db'.dwell table)

/-- Is a call above the lowest hour and not moved, after the calls before it? -/
def Kept (o : Overflow) (before : List DwellCall) (c : DwellCall) : Prop :=
  c.add.ts.AboveLowest o ∧ Unmoved (addsTo c.table before) c.add

/-- The step of the induction: after calls that were all filed, one more is filed exactly if its
    hour is told right. -/
theorem filedAfter_concat_iff {o : Overflow} {db : Ukg} {calls : List DwellCall} (c : DwellCall)
    (h : FiledAfter o db calls) : FiledAfter o db (calls ++ [c]) ↔ Kept o calls c := by
  obtain ⟨mid, hmid, hfiled⟩ := h
  have hrun : callsDwell o db (calls ++ [c]) = callDwell o mid c := by
    rw [callsDwell_concat, hmid]
    rfl
  unfold FiledAfter Kept
  rw [hrun, ← @callDwell_isSome o mid c, Option.isSome_iff_exists]
  constructor
  · rintro ⟨db', hcall, hall⟩
    refine ⟨⟨db', hcall⟩, ?_⟩
    have hown := hall c.table
    rw [dwell_callDwell hcall, addsTo_concat, if_pos rfl, if_pos rfl] at hown
    exact (filed_addDwell_iff (hfiled c.table) c.add).mp hown
  · rintro ⟨⟨db', hcall⟩, hunmoved⟩
    refine ⟨db', hcall, fun table => ?_⟩
    rw [dwell_callDwell hcall, addsTo_concat]
    split
    · rename_i htable
      subst htable
      exact (filed_addDwell_iff (hfiled c.table) c.add).mpr hunmoved
    · exact hfiled table

/-- Its start: nothing has been called and nothing is in the tables. -/
theorem filedAfter_nil (o : Overflow) {db : Ukg} (hnew : ∀ table, (db.dwell table).rows = []) :
    FiledAfter o db [] := by
  refine ⟨db, rfl, fun table => (filed_iff _ _).mpr ?_⟩
  have hnone : contents (db.dwell table) = [] := by simp [contents, hnew]
  rw [hnone]
  exact AccountKind.agrees_nil

/-- **The runs that keep both tables exact** throughout are those whose calls are kept, by
    induction on the calls. -/
theorem filed_prefixes_iff (o : Overflow) {db : Ukg} (hnew : ∀ table, (db.dwell table).rows = [])
    (calls : List DwellCall) : (∀ seen, seen <+: calls → FiledAfter o db seen) ↔
      ∀ before c, before ++ [c] <+: calls → Kept o before c :=
  Runs.prefixes_iff (filedAfter_nil o hnew) (fun _ c h => filedAfter_concat_iff c h) calls

/-- **Dwell time is conserved, and filed in the right hour of the right runs.**  A bucket is that of
    the hour exactly outside the fractional last seconds of the hours before 1970 (and, with
    overflow checks, above the lowest hour); both tables are exact after every call of a run exactly
    if every call is such, or adds nothing to hours that have calls; and what a key has in total is
    in any case what was added for it. -/
theorem dwell_exact_iff (o : Overflow) {db : Ukg} (hnew : ∀ table, (db.dwell table).rows = []) :
    (∀ ts : Timestamp,
      (∃ bucket, hourBucketIn o ts.ticks = some bucket ∧ InHour ts.ticks bucket) ↔
        ts.AboveLowest o ∧ ts.InWholeSecond) ∧
    (∀ calls : List DwellCall, (∀ seen, seen <+: calls → FiledAfter o db seen) ↔
      ∀ before c, before ++ [c] <+: calls → Kept o before c) ∧
    ∀ (calls : List DwellCall) (db' : Ukg), callsDwell o db calls = some db' → ∀ table key,
      dwellOf key (db'.dwell table) =
        (((addsTo table calls).filter (·.key = key)).map DwellAdd.dwellMs).sum := by
  refine ⟨fun ts => ?_, filed_prefixes_iff o hnew, fun _ _ => dwellOf_calls hnew⟩
  rw [hourBucketIn_eq, ← inHour_hourBucket_iff]
  by_cases habove : ts.AboveLowest o <;> simp [habove]

/-- The calls of an afternoon in 2022, in a build with overflow checks. -/
theorem dwell_exact_2022 : FiledAfter .panics Ukg.new
    [⟨.app, "notepad.exe", ⟨133000000000000000, by decide, by decide⟩, 1500⟩,
      ⟨.app, "notepad.exe", ⟨133000000000000000, by decide, by decide⟩, 2500⟩,
      ⟨.web, "learn.microsoft.com", ⟨133000000000000000, by decide, by decide⟩, 900⟩] := by
  refine ((dwell_exact_iff .panics fun table => by cases table <;> rfl).2.1 _).mpr ?_ _
    (List.prefix_refl _)
  intro before c h
  have hmem := h.subset (List.mem_append_right before List.mem_cons_self)
  have hts : c.add.ts = ⟨133000000000000000, by decide, by decide⟩ := by
    simp only [List.mem_cons, List.not_mem_nil, or_false] at hmem
    rcases hmem with rfl | rfl | rfl <;> rfl
  refine ⟨?_, Or.inl ?_⟩ <;> rw [hts] <;> decide

/-- The last tick of 1969 is filed under 1970, in a build that wraps as in one that does not. -/
theorem last_tick_misfiled :
    (¬ ∀ ts : Timestamp,
        ∃ bucket, hourBucketIn .wraps ts.ticks = some bucket ∧ InHour ts.ticks bucket) ∧
      ¬ ∀ calls : List DwellCall, FiledAfter .wraps Ukg.new calls := by
  let lastTick : Timestamp := ⟨116444735999999999, by decide, by decide⟩
  constructor
  · intro h
    obtain ⟨bucket, hcode, hbucket⟩ := h lastTick
    have hvalue : hourBucketIn .wraps lastTick.ticks = some (0, 4, 116444736000000000) := by
      decide
    obtain rfl := Option.some.inj (hcode.symm.trans hvalue)
    exact absurd hbucket.start_le (by decide)
  · intro h
    have hnone : FiledAfter .wraps Ukg.new [] :=
      filedAfter_nil .wraps fun table => by cases table <;> rfl
    have hone := h [⟨.app, "notepad.exe", lastTick, 1500⟩]
    rcases ((filedAfter_concat_iff _ hnone).mp hone).2 with hwhole | hnothing
    · exact absurd hwhole (by decide)
    · exact absurd hnothing.1 (by decide)

end Precall.Store
