import Mathlib.Logic.Equiv.Defs
import Mathlib.Tactic.IntervalCases
import RecruitingOs.Lib.IsoTime

/-!
# The Gregorian calendar

Dates and counts of days since 1970-01-01 are the same thing (`CivilDate.equivDays`): the
conversion of `IsoTime.civilFromDays`, which works in eras of 400 years that begin with March, and
its inverse.
-/

namespace Calendar

open IsoTime

def IsLeap (year : ℤ) : Prop := year % 4 = 0 ∧ (year % 100 ≠ 0 ∨ year % 400 = 0)

instance (year : ℤ) : Decidable (IsLeap year) := inferInstanceAs (Decidable (_ ∧ _))

/-- The number of days of a month. -/
def monthLength (year : ℤ) (month : ℕ) : ℕ :=
  if month = 2 then if IsLeap year then 29 else 28
  else if month = 4 ∨ month = 6 ∨ month = 9 ∨ month = 11 then 30
  else 31

/-- The date exists. -/
def IsDate (year : ℤ) (month day : ℕ) : Prop :=
  1 ≤ month ∧ month ≤ 12 ∧ 1 ≤ day ∧ day ≤ monthLength year month

instance (year : ℤ) (month day : ℕ) : Decidable (IsDate year month day) :=
  inferInstanceAs (Decidable (_ ∧ _ ∧ _ ∧ _))

/-- The days since 1970-01-01. -/
def daysFromCivil (year : ℤ) (month day : ℕ) : ℤ :=
  let y := if month ≤ 2 then year - 1 else year
  let yoe := (y % 400).toNat
  let doy := (153 * ((month + 9) % 12) + 2) / 5 + day - 1
  y / 400 * 146097 + (365 * yoe + yoe / 4 - yoe / 100 + doy : ℕ) - 719468

/-- The day of the week, from Sunday. -/
def weekday (days : ℤ) : ℤ := (days + 4) % 7

variable {year : ℤ} {month day : ℕ}

/-! ### Eras -/

/-- A year of an era, and a day of it: the leap day is the last one. -/
structure EraDay (yoe doy : ℕ) : Prop where
  year : yoe < 400
  day : doy ≤ 365
  leap : doy = 365 → (yoe + 1) % 4 = 0 ∧ ((yoe + 1) % 100 ≠ 0 ∨ yoe = 399)

/-- The days of an era up to a day. -/
def eraDays (yoe doy : ℕ) : ℕ := 365 * yoe + yoe / 4 - yoe / 100 + doy

theorem EraDay.lt {yoe doy : ℕ} (h : EraDay yoe doy) : eraDays yoe doy < 146097 := by
  obtain ⟨hyear, hday, hleap⟩ := h
  unfold eraDays
  omega

/-- The year of an era is read off the number of days. -/
theorem EraDay.year_eq {yoe doy : ℕ} (h : EraDay yoe doy) :
    (eraDays yoe doy - eraDays yoe doy / 1460 + eraDays yoe doy / 36524 -
      eraDays yoe doy / 146096) / 365 = yoe := by
  obtain ⟨hyear, hday, hleap⟩ := h
  -- centuries, cycles of four years, and years
  obtain ⟨c, q, r, hc, hq, hr, rfl⟩ :
      ∃ c q r, c < 4 ∧ q < 25 ∧ r < 4 ∧ yoe = 100 * c + 4 * q + r :=
    ⟨yoe / 100, yoe % 100 / 4, yoe % 4, by omega, by omega, by omega, by omega⟩
  have hdays : eraDays (100 * c + 4 * q + r) doy = 36524 * c + 1461 * q + 365 * r + doy := by
    unfold eraDays
    omega
  have hleap' : doy = 365 → r = 3 ∧ (q = 24 → c = 3) := by omega
  clear hleap
  rw [hdays]
  by_cases hlast : 36524 * c + 1461 * q + 365 * r + doy = 146096
  · rw [hlast]
    omega
  have hera : (36524 * c + 1461 * q + 365 * r + doy) / 146096 = 0 := by omega
  have hcentury : (36524 * c + 1461 * q + 365 * r + doy) / 36524 = c := by omega
  have hcycle : (36524 * c + 1461 * q + 365 * r + doy) / 1460 = 25 * c + q ∨
      ((36524 * c + 1461 * q + 365 * r + doy) / 1460 = 25 * c + q + 1 ∧
        365 ≤ 365 * r + doy - 1095 + 24 * c + q) := by omega
  rw [hcentury, hera]
  rcases hcycle with hcycle | ⟨hcycle, hover⟩
  · rw [hcycle]
    omega
  · rw [hcycle]
    omega

theorem exists_eraDay {doe : ℕ} (h : doe < 146097) :
    ∃ yoe doy, EraDay yoe doy ∧ eraDays yoe doy = doe := by
  obtain ⟨c, x, hc, hx, hlast, rfl⟩ :
      ∃ c x, c < 4 ∧ x ≤ 36524 ∧ (x = 36524 → c = 3) ∧ doe = 36524 * c + x :=
    ⟨min (doe / 36524) 3, doe - 36524 * min (doe / 36524) 3, by omega, by omega, by omega,
      by omega⟩
  obtain ⟨q, z, hq, hz, hlast', rfl⟩ :
      ∃ q z, q < 25 ∧ z ≤ 1460 ∧ (q = 24 → z = 1460 → c = 3) ∧ x = 1461 * q + z :=
    ⟨x / 1461, x % 1461, by omega, by omega, by omega, by omega⟩
  obtain ⟨r, doy, hr, hdoy, hleap, rfl⟩ :
      ∃ r doy, r < 4 ∧ doy ≤ 365 ∧ (doy = 365 → r = 3) ∧ z = 365 * r + doy :=
    ⟨min (z / 365) 3, z - 365 * min (z / 365) 3, by omega, by omega, by omega, by omega⟩
  refine ⟨100 * c + 4 * q + r, doy, ⟨by omega, hdoy, fun hday => ?_⟩, ?_⟩
  · obtain rfl := hleap hday
    omega
  · have hfour : (100 * c + 4 * q + r) / 4 = 25 * c + q := by omega
    have hcentury : (100 * c + 4 * q + r) / 100 = c := by omega
    rw [eraDays, hfour, hcentury]
    omega

/-- The civil date of a day of an era. -/
theorem civilFromDays_eraDays (era : ℤ) {yoe doy : ℕ} (h : EraDay yoe doy) :
    civilFromDays (era * 146097 + eraDays yoe doy - 719468) =
      let mp := (5 * doy + 2) / 153
      let month := if mp < 10 then mp + 3 else mp - 9
      ((yoe : ℤ) + era * 400 + (if month ≤ 2 then 1 else 0), month,
        doy - (153 * mp + 2) / 5 + 1) := by
  have hlt := h.lt
  have hera : (era * 146097 + eraDays yoe doy - 719468 + 719468) / 146097 = era := by omega
  have hdoe : ((era * 146097 + eraDays yoe doy - 719468 + 719468) % 146097).toNat =
      eraDays yoe doy := by omega
  have hdoy : eraDays yoe doy - (365 * yoe + yoe / 4 - yoe / 100) = doy := by
    unfold eraDays
    omega
  unfold civilFromDays
  dsimp only
  rw [hera, hdoe, h.year_eq, hdoy]

/-! ### Dates -/

/-- The months from March on begin after so many days of the year, and last until the next one
begins; February comes last. -/
theorem monthLength_eq (hmonth : 1 ≤ month) (hmonth' : month ≤ 12) : monthLength year month =
    if (month + 9) % 12 = 11 then if IsLeap year then 29 else 28
    else (153 * ((month + 9) % 12 + 1) + 2) / 5 - (153 * ((month + 9) % 12) + 2) / 5 := by
  unfold monthLength
  interval_cases month <;> rfl

/-- What a day of a month may be. -/
theorem IsDate.day_le (h : IsDate year month day) :
    (month = 2 → day ≤ 29 ∧ (day = 29 → IsLeap year)) ∧
      (month ≠ 2 →
        (153 * ((month + 9) % 12) + 2) / 5 + day ≤ (153 * ((month + 9) % 12 + 1) + 2) / 5) := by
  obtain ⟨hmonth, hmonth', hday, hday'⟩ := h
  rw [monthLength_eq hmonth hmonth'] at hday'
  constructor
  · rintro rfl
    rw [if_pos rfl] at hday'
    split at hday'
    · rename_i hleap
      exact ⟨hday', fun _ => hleap⟩
    · omega
  · intro hfebruary
    rw [if_neg (by omega)] at hday'
    omega

/-- A date, as the day of an era. -/
theorem IsDate.eraDay (h : IsDate year month day) :
    EraDay (((if month ≤ 2 then year - 1 else year) % 400).toNat)
      ((153 * ((month + 9) % 12) + 2) / 5 + day - 1) := by
  obtain ⟨hfebruary, hother⟩ := h.day_le
  obtain ⟨hmonth, hmonth', hday, -⟩ := h
  by_cases hmonth2 : month = 2
  · subst hmonth2
    obtain ⟨hday', hleap⟩ := hfebruary rfl
    refine ⟨by omega, by omega, fun hlast => ?_⟩
    obtain ⟨hfour, hcentury⟩ := hleap (by omega)
    rw [if_pos (le_refl 2)]
    omega
  · have hday' := hother hmonth2
    exact ⟨by omega, by omega, fun hlast => by omega⟩

/-- **A date comes back** from its count of days. -/
theorem civilFromDays_daysFromCivil (h : IsDate year month day) :
    civilFromDays (daysFromCivil year month day) = (year, month, day) := by
  have hparts := civilFromDays_eraDays ((if month ≤ 2 then year - 1 else year) / 400) h.eraDay
  obtain ⟨hfebruary, hother⟩ := h.day_le
  obtain ⟨hmonth, hmonth', hday, -⟩ := h
  have hmp : (5 * ((153 * ((month + 9) % 12) + 2) / 5 + day - 1) + 2) / 153 =
      (month + 9) % 12 := by
    by_cases hmonth2 : month = 2
    · subst hmonth2
      have := hfebruary rfl
      omega
    · have := hother hmonth2
      omega
  have hback : (if (month + 9) % 12 < 10 then (month + 9) % 12 + 3 else (month + 9) % 12 - 9) =
      month := by
    split
    · omega
    · omega
  refine Eq.trans hparts ?_
  dsimp only
  rw [hmp, hback]
  refine Prod.ext ?_ (Prod.ext rfl ?_)
  · dsimp only
    split
    · omega
    · omega
  · dsimp only
    omega

/-- **Every count of days** is that of a date. -/
theorem exists_date (n : ℤ) : ∃ year month day, IsDate year month day ∧
    daysFromCivil year month day = n := by
  obtain ⟨yoe, doy, hera, hdoe⟩ := exists_eraDay
    (show ((n + 719468) % 146097).toNat < 146097 by omega)
  obtain ⟨hyear, hday, hleap⟩ := hera
  have hn : n = (n + 719468) / 146097 * 146097 + eraDays yoe doy - 719468 := by omega
  generalize (n + 719468) / 146097 = era at hn
  clear hdoe
  obtain ⟨mp, hmp⟩ : ∃ mp, mp = (5 * doy + 2) / 153 := ⟨_, rfl⟩
  have hmonth : mp < 10 ∧ ((mp + 3 + 9) % 12 = mp) ∨ mp = 10 ∨ mp = 11 := by omega
  obtain ⟨month, hmonthEq⟩ : ∃ month, month = if mp < 10 then mp + 3 else mp - 9 := ⟨_, rfl⟩
  have hback : (month + 9) % 12 = mp := by
    split at hmonthEq
    · omega
    · omega
  have hmonth1 : 1 ≤ month ∧ month ≤ 12 := by
    split at hmonthEq
    · omega
    · omega
  have hshift : (month ≤ 2) ↔ ¬ mp < 10 := by
    split at hmonthEq
    · omega
    · omega
  refine ⟨yoe + era * 400 + (if month ≤ 2 then 1 else 0), month, doy - (153 * mp + 2) / 5 + 1,
    ⟨hmonth1.1, hmonth1.2, by omega, ?_⟩, ?_⟩
  · rw [monthLength_eq hmonth1.1 hmonth1.2, hback]
    by_cases hfebruary : mp = 11
    · have hearly : month ≤ 2 := by omega
      rw [if_pos hfebruary, if_pos hearly]
      split
      · omega
      · rename_i hcommon
        have hlast : doy ≠ 365 := by
          intro hlast
          obtain ⟨hfour, hcentury⟩ := hleap hlast
          refine hcommon ⟨by omega, ?_⟩
          omega
        omega
    · rw [if_neg hfebruary]
      omega
  · rw [hn]
    unfold daysFromCivil eraDays
    dsimp only
    rw [hback]
    by_cases hearly : month ≤ 2
    · rw [if_pos hearly, if_pos hearly]
      omega
    · rw [if_neg hearly, if_neg hearly]
      omega

/-! ### Years -/

/-- The days up to a year that begins with March. -/
def yearDays (y : ℤ) : ℤ := 365 * y + y / 4 - y / 100 + y / 400

theorem daysFromCivil_eq (year : ℤ) (month day : ℕ) : daysFromCivil year month day =
    yearDays (if month ≤ 2 then year - 1 else year) +
      ((153 * ((month + 9) % 12) + 2) / 5 + day - 1 : ℕ) - 719468 := by
  unfold daysFromCivil yearDays
  dsimp only
  generalize (if month ≤ 2 then year - 1 else year) = y
  omega

theorem yearDays_lt {a b : ℤ} (h : a < b) : yearDays a + 365 ≤ yearDays b := by
  unfold yearDays
  omega

theorem yearDays_succ (year : ℤ) : yearDays year = yearDays (year - 1) + 365 +
    (if IsLeap year then 1 else 0) := by
  unfold yearDays
  split
  · rename_i hleap
    obtain ⟨hfour, hcentury⟩ := hleap
    omega
  · rename_i hcommon
    have hcommon' : ¬ (year % 4 = 0 ∧ (year % 100 ≠ 0 ∨ year % 400 = 0)) := hcommon
    omega

/-- The first day of a year. -/
def newYear (year : ℤ) : ℤ := daysFromCivil year 1 1

theorem newYear_eq (year : ℤ) : newYear year = yearDays (year - 1) + 306 - 719468 := by
  rw [newYear, daysFromCivil_eq]
  rfl

theorem newYear_mono {a b : ℤ} (h : a < b) : newYear (a + 1) ≤ newYear b := by
  rw [newYear_eq, newYear_eq]
  rcases Int.lt_or_eq_of_le (Int.add_one_le_of_lt h) with hlt | heq
  · have := yearDays_lt (a := a + 1 - 1) (b := b - 1) (by omega)
    omega
  · rw [heq]

/-- A date is in its year. -/
theorem IsDate.mem_year (h : IsDate year month day) :
    newYear year ≤ daysFromCivil year month day ∧
      daysFromCivil year month day < newYear (year + 1) := by
  obtain ⟨hfebruary, hother⟩ := h.day_le
  obtain ⟨hmonth, hmonth', hday, -⟩ := h
  have hsucc := yearDays_succ year
  rw [newYear_eq, newYear_eq, daysFromCivil_eq, show year + 1 - 1 = year by omega]
  by_cases hearly : month ≤ 2
  · rw [if_pos hearly]
    by_cases hmonth2 : month = 2
    · subst hmonth2
      obtain ⟨hday', hleap⟩ := hfebruary rfl
      by_cases hyear : IsLeap year
      · rw [if_pos hyear] at hsucc
        omega
      · rw [if_neg hyear] at hsucc
        have hnot : day ≠ 29 := fun hday => hyear (hleap hday)
        omega
    · have := hother hmonth2
      obtain rfl : month = 1 := by omega
      split at hsucc <;> omega
  · rw [if_neg hearly]
    have := hother (by omega)
    split at hsucc <;> omega

/-- A date of the calendar. -/
structure CivilDate where
  year : ℤ
  month : ℕ
  day : ℕ
  isDate : IsDate year month day

namespace CivilDate

/-- The days since 1970-01-01. -/
def days (date : CivilDate) : ℤ := daysFromCivil date.year date.month date.day

/-- The date of a count of days. -/
def ofDays (n : ℤ) : CivilDate where
  year := (civilFromDays n).1
  month := (civilFromDays n).2.1
  day := (civilFromDays n).2.2
  isDate := by
    obtain ⟨year, month, day, h, rfl⟩ := exists_date n
    rw [civilFromDays_daysFromCivil h]
    exact h

theorem ofDays_days (date : CivilDate) : ofDays date.days = date := by
  obtain ⟨year, month, day, h⟩ := date
  unfold ofDays days
  simp only [civilFromDays_daysFromCivil h]

theorem days_ofDays (n : ℤ) : (ofDays n).days = n := by
  obtain ⟨year, month, day, h, rfl⟩ := exists_date n
  exact congrArg days (ofDays_days ⟨year, month, day, h⟩)

/-- **Dates and counts of days** are the same thing. -/
def equivDays : CivilDate ≃ ℤ := ⟨days, ofDays, ofDays_days, days_ofDays⟩

theorem days_inj {a b : CivilDate} : a.days = b.days ↔ a = b := equivDays.injective.eq_iff

theorem month_lt (date : CivilDate) : date.month < 10 ^ 2 := by
  have := date.isDate.2.1
  omega

theorem day_lt (date : CivilDate) : date.day < 10 ^ 2 := by
  have hday := date.isDate.2.2.2
  unfold monthLength at hday
  split at hday
  · split at hday <;> omega
  · split at hday <;> omega

/-- The year of a date, by its count of days. -/
theorem year_eq_iff (date : CivilDate) (year : ℤ) :
    date.year = year ↔ newYear year ≤ date.days ∧ date.days < newYear (year + 1) := by
  obtain ⟨hle, hlt⟩ := date.isDate.mem_year
  have hdays : date.days = daysFromCivil date.year date.month date.day := rfl
  rw [← hdays] at hle hlt
  constructor
  · rintro rfl
    exact ⟨hle, hlt⟩
  · rintro ⟨hle', hlt'⟩
    rcases lt_trichotomy date.year year with hbefore | hsame | hafter
    · have := newYear_mono hbefore
      omega
    · exact hsame
    · have := newYear_mono hafter
      omega

/-- The year of a count of days. -/
theorem year_civilFromDays_iff (n year : ℤ) :
    (civilFromDays n).1 = year ↔ newYear year ≤ n ∧ n < newYear (year + 1) := by
  have h := (ofDays n).year_eq_iff year
  rw [days_ofDays] at h
  exact h

end CivilDate

end Calendar
