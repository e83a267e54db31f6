import Precall.Lib.Calendar
import Precall.Store.Objects

namespace Precall.Store

open Calendar Precall.Proto

/-!
# The dates of objects

`ymd_from_filetime` against the calendar (`precall-store/src/objects.rs`).  The code means to
divide by the ticks of a day, and divides by those of a hundred days.

* `ymdFromFiletime?` — the function with every `i64` operation checked; `ymdFromFiletime?_eq` —
  only the first subtraction can overflow, and where it does not the unchecked function agrees;
* `filetimeDate` — the date of an instant, by walking the calendar from 1601-01-01;
* `ymdFromFiletime?_filetimeDate` — the two agree exactly in the two days around 1970-01-01.
-/

/-! ### The checked function -/

/-- The result of an `i64` operation, if it is one.  A checked build stops where this is `none`. -/
def i64 (x : Int) : Option Int := if -2 ^ 63 ≤ x ∧ x < 2 ^ 63 then some x else none

/-- A number in range is no overflow. -/
theorem i64_eq {x : Int} (hlo : -2 ^ 63 ≤ x) (hhi : x < 2 ^ 63) : i64 x = some x :=
  if_pos ⟨hlo, hhi⟩

/-- So arithmetic goes on with it.  Each line of the calendar is one such step. -/
private theorem i64_bind {α : Type} {x : Int} (f : Int → Option α) (hlo : -2 ^ 63 ≤ x)
    (hhi : x < 2 ^ 63) : i64 x >>= f = f x := by
  rw [i64_eq hlo hhi]
  rfl

/-- `ymd_from_filetime` where overflow is an error; `as i32` keeps the low 32 bits.  Every
    operation is checked where the source performs it. -/
def ymdFromFiletime? (ticks : Int) : Option (Int × Nat × Nat) := do
  let sinceEpoch ← i64 (ticks - 116444736000000000)
  let days := sinceEpoch / 86400000000000  -- a hundred days of ticks
  let z ← i64 (days + 719468)
  let era := z / 146097
  let doe := z % 146097
  let short ← i64 (doe - doe / 1460)
  let long ← i64 (short + doe / 36524)
  let rest ← i64 (long - doe / 146096)
  let yoe := rest / 365
  let eraYears ← i64 (era * 400)
  let y ← i64 (yoe + eraYears)
  let years ← i64 (365 * yoe)
  let leaps ← i64 (years + yoe / 4)
  let yearStart ← i64 (leaps - yoe / 100)
  let doy ← i64 (doe - yearStart)
  let five ← i64 (5 * doy)
  let scaled ← i64 (five + 2)
  let mp := scaled / 153
  let months ← i64 (153 * mp)
  let monthStart ← i64 (months + 2)
  let before ← i64 (doy - monthStart / 5)
  let d ← i64 (before + 1)
  let m ← i64 (if mp < 10 then mp + 3 else mp - 9)
  let year ← i64 (if m ≤ 2 then y + 1 else y)
  return (Int.bmod year (2 ^ 32), m.toNat % 2 ^ 32, d.toNat % 2 ^ 32)

/-- The unchecked function is the closed form of the calendar, on its own count of days: it
    divides the ticks by a hundred days. -/
theorem ymdFromFiletime_eq_civil {ticks : Int}
    (hlo : -2 ^ 63 ≤ ticks - 116444736000000000) (hhi : ticks - 116444736000000000 < 2 ^ 63) :
    ymdFromFiletime ticks = civilFromDays ((ticks - 116444736000000000) / 86400000000000) := by
  have hwrap : Int.bmod (ticks - 116444736000000000) (2 ^ 64) = ticks - 116444736000000000 := by
    rw [Int.bmod_eq_iff] <;> omega
  unfold ymdFromFiletime civilFromDays
  rw [hwrap]

/-- After the subtraction nothing overflows, so the checked function returns what the unchecked
    one does. -/
private theorem ymdFromFiletime?_of_small {ticks : Int}
    (hlo : -2 ^ 63 ≤ ticks - 116444736000000000) (hhi : ticks - 116444736000000000 < 2 ^ 63) :
    ymdFromFiletime? ticks = some (ymdFromFiletime ticks) := by
  have hdays : -200000 ≤ (ticks - 116444736000000000) / 86400000000000 ∧
      (ticks - 116444736000000000) / 86400000000000 ≤ 200000 := by omega
  rw [ymdFromFiletime_eq_civil hlo hhi]
  simp only [civilFromDays]
  unfold ymdFromFiletime?
  -- each operation in turn, with the bound of its result for those that follow
  refine (i64_bind _ hlo hhi).trans ?_
  generalize (ticks - 116444736000000000) / 86400000000000 = days at hdays ⊢
  refine (i64_bind _ (by omega) (by omega)).trans ?_
  have hera : -10 ≤ (days + 719468) / 146097 ∧ (days + 719468) / 146097 ≤ 10 := by omega
  have hdoe : 0 ≤ (days + 719468) % 146097 ∧ (days + 719468) % 146097 < 146097 := by omega
  generalize (days + 719468) / 146097 = era at hera ⊢
  generalize (days + 719468) % 146097 = doe at hdoe ⊢
  iterate 3 refine (i64_bind _ (by omega) (by omega)).trans ?_
  have hyoe : 0 ≤ (doe - doe / 1460 + doe / 36524 - doe / 146096) / 365 ∧
      (doe - doe / 1460 + doe / 36524 - doe / 146096) / 365 ≤ 400 := by omega
  generalize (doe - doe / 1460 + doe / 36524 - doe / 146096) / 365 = yoe at hyoe ⊢
  iterate 6 refine (i64_bind _ (by omega) (by omega)).trans ?_
  have hdoy : -150000 ≤ doe - (365 * yoe + yoe / 4 - yoe / 100) ∧
      doe - (365 * yoe + yoe / 4 - yoe / 100) ≤ 150000 := by omega
  generalize doe - (365 * yoe + yoe / 4 - yoe / 100) = doy at hdoy ⊢
  iterate 2 refine (i64_bind _ (by omega) (by omega)).trans ?_
  have hmp : -5000 ≤ (5 * doy + 2) / 153 ∧ (5 * doy + 2) / 153 ≤ 5000 := by omega
  generalize (5 * doy + 2) / 153 = mp at hmp ⊢
  iterate 4 refine (i64_bind _ (by omega) (by omega)).trans ?_
  have hm : -5000 ≤ (if mp < 10 then mp + 3 else mp - 9) ∧
      (if mp < 10 then mp + 3 else mp - 9) ≤ 6000 := by split <;> omega
  generalize (if mp < 10 then mp + 3 else mp - 9) = m at hm ⊢
  refine (i64_bind _ (by omega) (by omega)).trans ?_
  have hyear : -5000 ≤ (if m ≤ 2 then yoe + era * 400 + 1 else yoe + era * 400) ∧
      (if m ≤ 2 then yoe + era * 400 + 1 else yoe + era * 400) ≤ 5000 := by split <;> omega
  generalize (if m ≤ 2 then yoe + era * 400 + 1 else yoe + era * 400) = year at hyear ⊢
  refine (i64_bind _ (by omega) (by omega)).trans ?_
  have hcast : Int.bmod year (2 ^ 32) = year := by rw [Int.bmod_eq_iff] <;> omega
  have hday : (doy - (153 * mp + 2) / 5 + 1).toNat < 2 ^ 32 := by omega
  have hmonth : m.toNat < 2 ^ 32 := by omega
  show some (_, _, _) = some _
  rw [hcast, Nat.mod_eq_of_lt hmonth, Nat.mod_eq_of_lt hday]

/-- **Only the first subtraction can overflow**, and it does for the instants nearest the lower end
    of `i64`. -/
theorem ymdFromFiletime?_eq (ticks : UInt64) :
    ymdFromFiletime? (asI64 ticks) =
      if -2 ^ 63 ≤ asI64 ticks - 116444736000000000 then some (ymdFromFiletime (asI64 ticks))
      else none := by
  have hrange := asI64_range ticks
  split
  · rename_i hlo
    exact ymdFromFiletime?_of_small hlo (by omega)
  · rename_i hover
    have hnone : i64 (asI64 ticks - 116444736000000000) = none := if_neg fun h => hover h.1
    show (i64 (asI64 ticks - 116444736000000000)).bind _ = none
    rw [hnone, Option.bind_none]

/-! ### The date of an instant -/

/-- The day FILETIME counts from. -/
def filetimeEpoch : Date := Date.newYear 1601

/-- The 100 ns ticks of a day. -/
def ticksPerDay : Int := 864000000000

/-- The UTC date of the instant `ticks` after 1601-01-01T00:00:00Z, by counting days.  This is
    what the file names of the object store are meant to carry. -/
def filetimeDate (ticks : Int) : Date := filetimeEpoch.addDays (ticks / ticksPerDay)

/-- The same date, counted from 1970-01-01, as the closed form of the calendar counts. -/
theorem filetimeDate_eq (ticks : Int) :
    filetimeDate ticks = Date.unixEpoch.addDays ((ticks - 116444736000000000) / ticksPerDay) := by
  have hepoch : filetimeEpoch = Date.unixEpoch.addDays (-134774) := by
    apply Date.dayNumber_injective
    rw [Date.dayNumber_addDays]
    decide
  rw [filetimeDate, hepoch, Date.addDays_addDays]
  congr 1
  unfold ticksPerDay
  omega

/-- The date of a timestamp that is not among the lowest, by the closed form. -/
theorem ymd_filetimeDate (ticks : Int) :
    (filetimeDate ticks).ymd = civilFromDays ((ticks - 116444736000000000) / ticksPerDay) := by
  rw [filetimeDate_eq, civilFromDays_eq]

/-- **When an object's date is the date of its capture.**  For the instants of 1969-12-31 and
    1970-01-01, and no others. -/
theorem ymdFromFiletime?_filetimeDate (ticks : UInt64) :
    ymdFromFiletime? (asI64 ticks) = some (filetimeDate (asI64 ticks)).ymd ↔
      116444736000000000 - ticksPerDay ≤ asI64 ticks ∧
        asI64 ticks < 116444736000000000 + ticksPerDay := by
  have hrange := asI64_range ticks
  rw [ymdFromFiletime?_eq]
  split
  · rename_i hlo
    rw [ymdFromFiletime_eq_civil hlo (by omega), civilFromDays_eq, filetimeDate_eq,
      Option.some.injEq]
    unfold ticksPerDay
    constructor
    · intro h
      have hdays := Date.addDays_injective (Date.ymd_injective h)
      omega
    · intro h
      have hdays : (asI64 ticks - 116444736000000000) / 86400000000000
          = (asI64 ticks - 116444736000000000) / 864000000000 := by omega
      rw [hdays]
  · unfold ticksPerDay
    refine iff_of_false (by simp) ?_
    omega

/-- A capture of 2024-01-01 is filed under 1970-07-17. -/
theorem ymdFromFiletime?_of_2024 :
    ¬ ∀ ticks : UInt64, ymdFromFiletime? (asI64 ticks) = some (filetimeDate (asI64 ticks)).ymd := by
  intro h
  have hcode : ymdFromFiletime? (asI64 133485408000000000) = some (1970, 7, 17) := by decide
  have hdate : (filetimeDate (asI64 133485408000000000)).ymd = (2024, 1, 1) := by
    rw [ymd_filetimeDate]
    decide
  have hclaim := h 133485408000000000
  rw [hcode, hdate] at hclaim
  exact absurd hclaim (by decide)

end Precall.Store
