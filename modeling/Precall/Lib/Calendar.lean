import Mathlib.Logic.Function.Iterate

namespace Calendar

/-!
# The proleptic Gregorian calendar

Dates carry their own validity, and a date so many days from another is found by walking there
one day at a time; no closed form is part of the definition.

* `Date`, `Date.next`, `Date.prev`, `Date.addDays` — the calendar;
* `Date.dayNumber` — the number of a date, which `next` raises by one and `prev` lowers by one;
* `civilFromDays` — the closed form from day numbers to dates; `civilFromDays_dayNumber` and
  `civilFromDays_eq` say that it computes the calendar;
* `Date.weekday` — the day of the week.
-/

/-! ### Dates -/

/-- The leap rule. -/
def IsLeap (year : Int) : Prop := year % 4 = 0 ∧ (year % 100 ≠ 0 ∨ year % 400 = 0)

instance : DecidablePred IsLeap := fun _ => inferInstanceAs (Decidable (_ ∧ _))

/-- The days of a month. -/
def monthLength (year : Int) (month : Nat) : Nat :=
  if month = 2 then if IsLeap year then 29 else 28
  else if month = 4 ∨ month = 6 ∨ month = 9 ∨ month = 11 then 30
  else 31

/-- A calendar date. -/
structure Date where
  year : Int
  month : Nat
  day : Nat
  month_pos : 1 ≤ month
  month_le : month ≤ 12
  day_pos : 1 ≤ day
  day_le : day ≤ monthLength year month
  deriving DecidableEq

namespace Date

/-- Year, month and day. -/
def ymd (d : Date) : Int × Nat × Nat := (d.year, d.month, d.day)

/-- A date is its year, month and day: the other fields are proofs. -/
theorem ymd_injective {d e : Date} (h : d.ymd = e.ymd) : d = e := by
  cases d
  cases e
  simp only [ymd, Prod.mk.injEq] at h
  obtain ⟨rfl, rfl, rfl⟩ := h
  rfl

/-- Every month has a first day. -/
private theorem monthLength_pos (year : Int) (month : Nat) : 1 ≤ monthLength year month := by
  unfold monthLength
  grind

/-- The day after. -/
def next (d : Date) : Date :=
  if hday : d.day < monthLength d.year d.month then
    ⟨d.year, d.month, d.day + 1, d.month_pos, d.month_le, by omega, hday⟩
  else if hmonth : d.month < 12 then
    ⟨d.year, d.month + 1, 1, by omega, hmonth, Nat.le_refl _, monthLength_pos _ _⟩
  else ⟨d.year + 1, 1, 1, Nat.le_refl _, by omega, Nat.le_refl _, monthLength_pos _ _⟩

/-- The day before. -/
def prev (d : Date) : Date :=
  if hday : 1 < d.day then
    ⟨d.year, d.month, d.day - 1, d.month_pos, d.month_le, by omega, by have := d.day_le; omega⟩
  else if hmonth : 1 < d.month then
    ⟨d.year, d.month - 1, monthLength d.year (d.month - 1), by omega,
      by have := d.month_le; omega, monthLength_pos _ _, Nat.le_refl _⟩
  else ⟨d.year - 1, 12, monthLength (d.year - 1) 12, by omega, Nat.le_refl _, monthLength_pos _ _,
      Nat.le_refl _⟩

/-- The date `n` days later, or earlier. -/
def addDays (d : Date) : Int → Date
  | .ofNat n => next^[n] d
  | .negSucc n => prev^[n + 1] d

/-! ### Day numbers -/

/-- The year that starts on the first of March the date has last seen. -/
def marchYear (d : Date) : Int := if d.month ≤ 2 then d.year - 1 else d.year

/-- The days since that first of March. -/
def dayOfMarchYear (d : Date) : Int :=
  let monthsSince : Int := if d.month ≤ 2 then d.month + 9 else d.month - 3
  (153 * monthsSince + 2) / 5 + d.day - 1

/-- The days from 1970-01-01. -/
def dayNumber (d : Date) : Int :=
  365 * d.marchYear + d.marchYear / 4 - d.marchYear / 100 + d.marchYear / 400
    + d.dayOfMarchYear - 719468

/-- The months one by one, for arithmetic that no general argument covers. -/
private theorem month_cases (d : Date) :
    d.month = 1 ∨ d.month = 2 ∨ d.month = 3 ∨ d.month = 4 ∨ d.month = 5 ∨ d.month = 6 ∨
      d.month = 7 ∨ d.month = 8 ∨ d.month = 9 ∨ d.month = 10 ∨ d.month = 11 ∨ d.month = 12 := by
  have hpos := d.month_pos
  have hle := d.month_le
  omega

/-- The day after has the next number. -/
theorem dayNumber_next (d : Date) : d.next.dayNumber = d.dayNumber + 1 := by
  have hpos := d.day_pos
  have hle := d.day_le
  unfold next
  split
  · simp only [dayNumber, marchYear, dayOfMarchYear]
    omega
  · -- the last day of a month: its length is what the March count of the next month allows for
    rename_i hlast
    have hday : d.day = monthLength d.year d.month := by omega
    unfold monthLength at hday
    rcases d.month_cases with h | h | h | h | h | h | h | h | h | h | h | h <;>
      simp [h, dayNumber, marchYear, dayOfMarchYear] at hday ⊢
    case inr.inl =>
      -- the leap rule says how many multiples of 4, 100 and 400 the new year passes
      split at hday <;> rename_i hleap <;> unfold IsLeap at hleap <;> omega
    all_goals omega

/-- The day after the day before is the day itself; `prev_next` is the other direction. -/
theorem next_prev (d : Date) : d.prev.next = d := by
  have hpos := d.day_pos
  have hle := d.day_le
  apply ymd_injective
  unfold prev
  split
  · have hday : d.day - 1 < monthLength d.year d.month := by omega
    simp [next, ymd, hday, Nat.sub_add_cancel hpos]
  · rename_i hfirst
    have hday : d.day = 1 := by omega
    split
    · rename_i hmonth
      have hlt : d.month - 1 < 12 := by have := d.month_le; omega
      simp [next, ymd, hday, hlt, Nat.sub_add_cancel d.month_pos]
    · have hmonth : d.month = 1 := by have := d.month_pos; omega
      simp [next, ymd, hday, hmonth]

/-- The day before has the previous number. -/
theorem dayNumber_prev (d : Date) : d.prev.dayNumber = d.dayNumber - 1 := by
  have h := dayNumber_next d.prev
  rw [next_prev] at h
  omega

/-- Walking `n` days moves the number by `n`. -/
theorem dayNumber_addDays (d : Date) (n : Int) : (d.addDays n).dayNumber = d.dayNumber + n := by
  have hforth (m : Nat) : (next^[m] d).dayNumber = d.dayNumber + m := by
    induction m with
    | zero => simp
    | succ m ih =>
      rw [Function.iterate_succ_apply', dayNumber_next, ih]
      omega
  have hback (m : Nat) : (prev^[m] d).dayNumber = d.dayNumber - m := by
    induction m with
    | zero => simp
    | succ m ih =>
      rw [Function.iterate_succ_apply', dayNumber_prev, ih]
      omega
  cases n with
  | ofNat m => exact hforth m
  | negSucc m =>
    rw [addDays, hback]
    omega

end Date

/-! ### The closed form -/

/-- Day numbers to year, month and day. -/
def civilFromDays (days : Int) : Int × Nat × Nat :=
  let z := days + 719468
  let era := z / 146097
  let doe := z % 146097
  let yoe := (doe - doe / 1460 + doe / 36524 - doe / 146096) / 365
  let y := yoe + era * 400
  let doy := doe - (365 * yoe + yoe / 4 - yoe / 100)
  let mp := (5 * doy + 2) / 153
  let d := doy - (153 * mp + 2) / 5 + 1
  let m := if mp < 10 then mp + 3 else mp - 9
  (if m ≤ 2 then y + 1 else y, m.toNat, d.toNat)

/-- A day of the era, by its century, the four-year cycle in that, the year of that and the day. -/
def dayOfEra (year doy : Int) : Int :=
  36524 * (year % 400 / 100) + 1461 * (year % 100 / 4) + 365 * (year % 4) + doy

section
variable {year doy : Int}

/-- A day number, split into eras. -/
private theorem eraOfDays (hpos : 0 ≤ doy) (hle : doy ≤ 365) :
    (365 * year + year / 4 - year / 100 + year / 400 + doy) / 146097 = year / 400 ∧
      (365 * year + year / 4 - year / 100 + year / 400 + doy) % 146097 = dayOfEra year doy := by
  have hsplit : 365 * year + year / 4 - year / 100 + year / 400 + doy
      = dayOfEra year doy + 146097 * (year / 400) := by
    unfold dayOfEra
    omega
  have hnonneg : 0 ≤ dayOfEra year doy := by
    unfold dayOfEra
    omega
  have hlt : dayOfEra year doy < 146097 := by
    unfold dayOfEra
    omega
  rw [hsplit]
  generalize dayOfEra year doy = doe at hnonneg hlt
  omega

/-- The year of the era, from its century, the four-year cycle in it and the year of that. -/
private theorem yearOfParts {century cycle rest doe : Int}
    (hcentury : 0 ≤ century ∧ century ≤ 3) (hcycle : 0 ≤ cycle ∧ cycle ≤ 24)
    (hrest : 0 ≤ rest ∧ rest ≤ 3) (hdoy : 0 ≤ doy ∧ doy ≤ 365)
    (hleap : doy = 365 → rest = 3 ∧ (cycle ≠ 24 ∨ century = 3))
    (hdoe : doe = 36524 * century + 1461 * cycle + 365 * rest + doy) :
    (doe - doe / 1460 + doe / 36524 - doe / 146096) / 365 = 100 * century + 4 * cycle + rest := by
  -- the last day of the era counts as one century too many, and as one era
  have hcenturies : doe / 36524 = century ∨ doe / 36524 = century + 1 ∧ doe = 146096 := by omega
  have hlast : doe / 146096 = 0 ∨ doe / 146096 = 1 ∧ doe = 146096 := by omega
  have hcycles : doe / 1460 = 25 * century + cycle ∨
      doe / 1460 = 25 * century + cycle + 1 ∧
        24 * century + cycle + 365 * rest + doy ≥ 1460 := by omega
  omega

/-- The year of the era. -/
private theorem yearOfEra (hpos : 0 ≤ doy) (hle : doy ≤ 365)
    (hleap : doy = 365 → IsLeap (year + 1)) :
    (dayOfEra year doy - dayOfEra year doy / 1460 + dayOfEra year doy / 36524
      - dayOfEra year doy / 146096) / 365 = year % 400 := by
  have hlast : doy = 365 → year % 4 = 3 ∧ (year % 100 / 4 ≠ 24 ∨ year % 400 / 100 = 3) := by
    unfold IsLeap at hleap
    omega
  have hsum : 100 * (year % 400 / 100) + 4 * (year % 100 / 4) + year % 4 = year % 400 := by omega
  have hparts := yearOfParts (by omega) (by omega) (by omega) ⟨hpos, hle⟩ hlast
    (rfl : dayOfEra year doy = _)
  exact hparts.trans hsum

/-- The day left of the era's day after its whole years. -/
private theorem dayOfYear :
    dayOfEra year doy - (365 * (year % 400) + year % 400 / 4 - year % 400 / 100) = doy := by
  unfold dayOfEra
  omega

end

/-- The day of a year that starts in March, with its last day if the year holds a 29 February. -/
private theorem dayOfMarchYear_bounds (d : Date) :
    0 ≤ d.dayOfMarchYear ∧ d.dayOfMarchYear ≤ 365 ∧
      (d.dayOfMarchYear = 365 → IsLeap (d.marchYear + 1)) := by
  have hpos := d.day_pos
  have hle := d.day_le
  unfold monthLength at hle
  rcases d.month_cases with h | h | h | h | h | h | h | h | h | h | h | h <;>
    simp [h, Date.dayOfMarchYear, Date.marchYear] at hle ⊢
  case inr.inl =>
    split at hle
    · rename_i hleap
      exact ⟨by omega, by omega, fun _ => hleap⟩
    · omega
  all_goals omega

/-- The month and its day, from the day of the year that starts in March. -/
private theorem monthOfYear (d : Date) :
    (5 * d.dayOfMarchYear + 2) / 153 = (if d.month ≤ 2 then (d.month : Int) + 9 else d.month - 3)
      := by
  have hday := d.day_pos
  have hlast := d.day_le
  unfold monthLength at hlast
  rcases d.month_cases with h | h | h | h | h | h | h | h | h | h | h | h <;>
    simp [h, Date.dayOfMarchYear] at hlast ⊢
  case inr.inl => split at hlast <;> omega
  all_goals omega

/-- **The closed form computes the calendar.** The number of a date leads back to that date. -/
theorem civilFromDays_dayNumber (d : Date) : civilFromDays d.dayNumber = d.ymd := by
  obtain ⟨hpos, hle, hleap⟩ := dayOfMarchYear_bounds d
  obtain ⟨hera, hdoe⟩ := eraOfDays hpos hle
  have hz : d.dayNumber + 719468 = 365 * d.marchYear + d.marchYear / 4 - d.marchYear / 100
      + d.marchYear / 400 + d.dayOfMarchYear := by
    unfold Date.dayNumber
    omega
  have hyear : d.marchYear % 400 + d.marchYear / 400 * 400 = d.marchYear := by omega
  simp only [civilFromDays, Date.ymd]
  rw [hz, hera, hdoe, yearOfEra hpos hle hleap, dayOfYear, monthOfYear, hyear]
  clear hera hdoe hz hyear hleap
  rcases d.month_cases with h | h | h | h | h | h | h | h | h | h | h | h <;>
    simp [h, Date.dayOfMarchYear, Date.marchYear] <;> omega

/-! ### Numbers and dates -/

namespace Date

/-- A date is told by its number. -/
theorem dayNumber_injective {d e : Date} (h : d.dayNumber = e.dayNumber) : d = e := by
  refine ymd_injective ?_
  rw [← civilFromDays_dayNumber, ← civilFromDays_dayNumber, h]

/-- The first of January. -/
def newYear (year : Int) : Date :=
  ⟨year, 1, 1, by decide, by decide, by decide, Nat.le_of_ble_eq_true rfl⟩

/-- Day zero. -/
def unixEpoch : Date := newYear 1970

/-- Days are counted from 1970-01-01. -/
theorem dayNumber_unixEpoch : unixEpoch.dayNumber = 0 := by decide

/-- Walking on from where a walk has led. -/
theorem addDays_addDays (d : Date) (m n : Int) : (d.addDays m).addDays n = d.addDays (m + n) := by
  apply dayNumber_injective
  rw [dayNumber_addDays, dayNumber_addDays, dayNumber_addDays, Int.add_assoc]

/-- Walks of different lengths lead to different dates. -/
theorem addDays_injective {d : Date} {m n : Int} (h : d.addDays m = d.addDays n) : m = n := by
  have hnumber := congrArg dayNumber h
  rw [dayNumber_addDays, dayNumber_addDays] at hnumber
  omega

/-! ### Days of the week -/

/-- The day of the week, 0 = Sunday; day zero was a Thursday. -/
def weekday (d : Date) : Int := (d.dayNumber + 4) % 7

/-- The day of the week `n` days from day zero. -/
theorem weekday_addDays (n : Int) : (unixEpoch.addDays n).weekday = (n + 4) % 7 := by
  rw [weekday, dayNumber_addDays, dayNumber_unixEpoch, Int.zero_add]

/-- FILETIME counts from a Monday. -/
example : (newYear 1601).weekday = 1 := by decide

end Date

/-- **The closed form is total.** Every number leads to the date that many days from day zero. -/
theorem civilFromDays_eq (n : Int) : civilFromDays n = (Date.unixEpoch.addDays n).ymd := by
  have hnumber : (Date.unixEpoch.addDays n).dayNumber = n := by
    rw [Date.dayNumber_addDays, Date.dayNumber_unixEpoch, Int.zero_add]
  rw [← civilFromDays_dayNumber, hnumber]

end Calendar
