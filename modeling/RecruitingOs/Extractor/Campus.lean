import RecruitingOs.Extractor.ClockTexts

/-!
# Campus time

The clocks of New York change twice a year, at two in the morning.  `combineDateTime` takes the
offset of a day from its noon, so of the days on which the clocks change it does not accept the
hours before the change, which exist as the others do (`combineDateTime_exact_iff`).
-/

namespace RecruitingOs

open IsoTime Calendar

/-- The days on which the clocks of New York change, in each year. -/
structure ClockChanges where
  spring : ℤ → ℤ
  autumn : ℤ → ℤ
  spring_mem : ∀ year, newYear year ≤ spring year
  lt : ∀ year, spring year < autumn year
  autumn_mem : ∀ year, autumn year < newYear (year + 1)

namespace ClockChanges

/-- `America/New_York`: five hours behind UTC, and four from 02:00 of the spring day to 02:00 of
the autumn day. -/
def zone (changes : ClockChanges) : TimeZone := fun t =>
  -- the minutes since 1970 on a clock that never changes
  let standard := t / minuteMs - 300
  let year := (civilFromDays (standard / 1440)).1
  if changes.spring year * 1440 + 120 ≤ standard ∧ standard < changes.autumn year * 1440 + 60 then
    -240
  else -300

/-- The time of the day on which the clocks go forward is left out. -/
def Skipped (changes : ClockChanges) (date : CivilDate) (hour : ℕ) : Prop :=
  date.days = changes.spring date.year ∧ hour = 2

/-- The time comes before the clocks change on that day. -/
def BeforeChange (changes : ClockChanges) (date : CivilDate) (hour : ℕ) : Prop :=
  date.days = changes.spring date.year ∧ hour < 2 ∨ date.days = changes.autumn date.year ∧ hour < 1

variable {changes : ClockChanges} {date : CivilDate} {hour minute : ℕ} {t : ℤ}

theorem newYear_lt (changes : ClockChanges) (year : ℤ) : newYear year < newYear (year + 1) :=
  ((changes.spring_mem year).trans_lt (changes.lt year)).trans (changes.autumn_mem year)

/-- The offset in a year, and in the hour before it. -/
theorem zone_eq (changes : ClockChanges) (t year : ℤ)
    (h : newYear year * 1440 - 60 ≤ t / minuteMs - 300)
    (h' : t / minuteMs - 300 < newYear (year + 1) * 1440) : changes.zone t =
      if changes.spring year * 1440 + 120 ≤ t / minuteMs - 300 ∧
        t / minuteMs - 300 < changes.autumn year * 1440 + 60 then -240 else -300 := by
  generalize hstandard : t / minuteMs - 300 = standard at h h' ⊢
  unfold zone
  dsimp only
  rw [hstandard]
  by_cases hin : newYear year ≤ standard / 1440
  · rw [(CivilDate.year_civilFromDays_iff (standard / 1440) year).mpr ⟨hin, by omega⟩]
  · -- the last hour of the year before, when the clocks have long gone back
    have hspring := changes.spring_mem year
    have hbefore := changes.autumn_mem (year - 1)
    have hlonger := changes.newYear_lt (year - 1)
    rw [Int.sub_add_cancel] at hbefore hlonger
    have hyear := (CivilDate.year_civilFromDays_iff (standard / 1440) (year - 1)).mpr
      ⟨by omega, by rw [Int.sub_add_cancel]; omega⟩
    rw [hyear, if_neg (by omega), if_neg (by omega)]

theorem zone_cases (changes : ClockChanges) (t : ℤ) :
    changes.zone t = -240 ∨ changes.zone t = -300 := by
  unfold zone
  dsimp only
  split
  · exact .inl rfl
  · exact .inr rfl

/-- The offset that a day has at noon. -/
def noonOffset (changes : ClockChanges) (date : CivilDate) : ℤ :=
  if changes.spring date.year ≤ date.days ∧ date.days < changes.autumn date.year then -240 else -300

theorem noonOffset_mem (changes : ClockChanges) (date : CivilDate) :
    -720 < changes.noonOffset date ∧ changes.noonOffset date < 720 := by
  unfold noonOffset
  split <;> decide

theorem zone_noon (changes : ClockChanges) (date : CivilDate) :
    changes.zone (date.days * dayMs + 43200000) = changes.noonOffset date := by
  obtain ⟨hafter, hbefore⟩ := (date.year_eq_iff date.year).mp rfl
  have hstandard : (date.days * dayMs + 43200000) / minuteMs - 300 = date.days * 1440 + 420 := by
    unfold dayMs minuteMs
    omega
  have hzone := changes.zone_eq (date.days * dayMs + 43200000) date.year (by omega) (by omega)
  rw [hzone, hstandard, noonOffset]
  refine if_congr ?_ rfl rfl
  omega

/-- The clocks show the time where they have the offset that it was computed with. -/
theorem shows_instantOf (hhour : hour < 24) (hminute : minute < 60) {offset : ℤ}
    (hoffset : offset = -240 ∨ offset = -300) :
    Shows changes.zone (instantOf date hour minute offset) date hour minute ↔
      (if changes.spring date.year * 1440 + 120 ≤
            date.days * 1440 + (hour * 60 + minute : ℕ) - offset - 300 ∧
          date.days * 1440 + (hour * 60 + minute : ℕ) - offset - 300 <
            changes.autumn date.year * 1440 + 60 then (-240 : ℤ) else -300) = offset := by
  obtain ⟨hafter, hbefore⟩ := (date.year_eq_iff date.year).mp rfl
  have hminutes : instantOf date hour minute offset / minuteMs =
      date.days * 1440 + (hour * 60 + minute : ℕ) - offset :=
    Int.mul_ediv_cancel _ (by decide)
  have hzone := changes.zone_eq (instantOf date hour minute offset) date.year
    (by rw [hminutes]; omega) (by rw [hminutes]; omega)
  rw [hminutes] at hzone
  rw [shows_iff hhour hminute, localMinutes, hzone, hminutes]
  omega

/-- **At the instant** that the offset of noon gives, the clocks show the time unless it is skipped
or comes before the change of that day. -/
theorem shows_noonOffset_iff (changes : ClockChanges) (date : CivilDate) (hhour : hour < 24)
    (hminute : minute < 60) :
    Shows changes.zone (instantOf date hour minute (changes.noonOffset date)) date hour minute ↔
      ¬ changes.Skipped date hour ∧ ¬ changes.BeforeChange date hour := by
  have hlt := changes.lt date.year
  unfold noonOffset Skipped BeforeChange
  split
  · rw [shows_instantOf hhour hminute (.inl rfl)]
    split <;> omega
  · rw [shows_instantOf hhour hminute (.inr rfl)]
    split <;> omega

/-- **A time occurs** on a day unless it is skipped. -/
theorem exists_shows_iff (changes : ClockChanges) (date : CivilDate) (hhour : hour < 24)
    (hminute : minute < 60) :
    (∃ t, Shows changes.zone t date hour minute) ↔ ¬ changes.Skipped date hour := by
  obtain ⟨hafter, hbefore⟩ := (date.year_eq_iff date.year).mp rfl
  have hspring := changes.spring_mem date.year
  have hlt := changes.lt date.year
  have hautumn := changes.autumn_mem date.year
  constructor
  · rintro ⟨t, ht⟩ ⟨hday, rfl⟩
    rw [shows_iff hhour hminute, localMinutes] at ht
    rcases changes.zone_cases t with hzone | hzone
    · have heq := changes.zone_eq t date.year (by omega) (by omega)
      rw [hzone] at heq ht
      split at heq
      · omega
      · cases heq
    · have heq := changes.zone_eq t date.year (by omega) (by omega)
      rw [hzone] at heq ht
      split at heq
      · cases heq
      · omega
  · intro hskipped
    by_cases hearly : changes.BeforeChange date hour
    · rcases hearly with ⟨hday, hhour'⟩ | ⟨hday, hhour'⟩
      · refine ⟨_, (shows_instantOf hhour hminute (.inr rfl)).mpr (if_neg ?_)⟩
        omega
      · refine ⟨_, (shows_instantOf hhour hminute (.inl rfl)).mpr (if_pos ?_)⟩
        omega
    · exact ⟨_, (changes.shows_noonOffset_iff date hhour hminute).mpr ⟨hskipped, hearly⟩⟩

end ClockChanges

/-! ### Local times -/

/-- A text that means a time of the day: of 24 hours, or of twelve with `am` or `pm`. -/
inductive Means : Utf16 → ℕ → ℕ → Prop
  | unmarked {time hour : Utf16} {minute : Option Utf16} : TimeText time hour minute none →
      Utf16.value hour < 24 → Utf16.value (minute.getD []) < 60 →
      Means time (Utf16.value hour) (Utf16.value (minute.getD []))
  | marked {time hour mark : Utf16} {minute : Option Utf16} :
      TimeText time hour minute (some mark) → 1 ≤ Utf16.value hour → Utf16.value hour ≤ 12 →
      Utf16.value (minute.getD []) < 60 →
      Means time (Utf16.value hour % 12 + (if mark.map Utf16.lower = Utf16.of "pm" then 12 else 0))
        (Utf16.value (minute.getD []))

theorem Means.clockTime_eq {time : Utf16} {hour minute : ℕ} (h : Means time hour minute) :
    clockTime time = .ok (hour, minute) := by
  cases h with
  | unmarked htext hhour hminute =>
      rw [htext.clockTime_unmarked, if_pos ⟨hminute, by omega⟩]
  | marked htext hpos hle hminute =>
      rw [htext.clockTime_marked, if_pos ⟨hminute, hpos, hle⟩]

theorem TimeText.ne_nil {time hour : Utf16} {minute mark : Option Utf16}
    (h : TimeText time hour minute mark) : time ≠ [] := by
  obtain ⟨hpos, -, -, _, _, _, -, -, -, rfl⟩ := h
  exact List.append_ne_nil_of_left_ne_nil (List.length_pos_iff.mp hpos) _

theorem Means.meant_eq {time : Utf16} {hour minute : ℕ} (h : Means time hour minute) :
    meant (some time) = .ok (hour, minute) := by
  have hne : time ≠ [] := by
    cases h with
    | unmarked htext => exact htext.ne_nil
    | marked htext => exact htext.ne_nil
  unfold meant
  rw [Option.filter_some_pos (by simpa using hne)]
  exact h.clockTime_eq

theorem utf16_append (a b : String) : Utf16.of (a ++ b) = Utf16.of a ++ Utf16.of b := by
  unfold Utf16.of
  rw [String.toList_append, List.flatMap_append]

theorem utf16_colon : Utf16.of ":" = [58] := by decide

/-- Two digits. -/
theorem utf16_pad : ∀ n < 60, (Utf16.of (pad 2 n)).length = 2 ∧
    (∀ u ∈ Utf16.of (pad 2 n), Utf16.isDigit u = true) ∧ Utf16.value (Utf16.of (pad 2 n)) = n := by
  decide +kernel

/-- Every time of the day has a text of 24 hours. -/
theorem means_unmarked {hour minute : ℕ} (hhour : hour < 24) (hminute : minute < 60) :
    Means (Utf16.of (pad 2 hour ++ ":" ++ pad 2 minute)) hour minute := by
  obtain ⟨hlength, hdigits, hvalue⟩ := utf16_pad hour (by omega)
  obtain ⟨hlength', hdigits', hvalue'⟩ := utf16_pad minute hminute
  have htext : TimeText (Utf16.of (pad 2 hour ++ ":" ++ pad 2 minute)) (Utf16.of (pad 2 hour))
      (some (Utf16.of (pad 2 minute))) none := by
    refine ⟨by omega, by omega, hdigits, 58 :: Utf16.of (pad 2 minute), [], [],
      .digits hlength' hdigits', fun _ h => absurd h List.not_mem_nil, .none, ?_⟩
    rw [utf16_append, utf16_append, utf16_colon, List.append_nil, List.append_nil,
      List.append_assoc, List.singleton_append]
  have hmeans := Means.unmarked htext (by omega) (by rw [Option.getD_some]; omega)
  rwa [Option.getD_some, hvalue, hvalue'] at hmeans

/-- And one of twelve hours. -/
theorem means_marked {hour minute : ℕ} (hhour : hour < 24) (hminute : minute < 60) :
    Means (Utf16.of (pad 2 (if hour % 12 = 0 then 12 else hour % 12) ++ ":" ++ pad 2 minute ++ " " ++
      (if hour < 12 then "AM" else "PM"))) hour minute := by
  obtain ⟨h, hh⟩ : ∃ h, h = if hour % 12 = 0 then 12 else hour % 12 := ⟨_, rfl⟩
  rw [← hh]
  have hrange : 1 ≤ h ∧ h ≤ 12 ∧ h % 12 = hour % 12 := by
    split at hh <;> omega
  obtain ⟨hlength, hdigits, hvalue⟩ := utf16_pad h (by omega)
  obtain ⟨hlength', hdigits', hvalue'⟩ := utf16_pad minute hminute
  obtain ⟨mark, hmark, hhalf⟩ : ∃ mark, IsMark (Utf16.of mark) ∧
      (mark = if hour < 12 then "AM" else "PM") ∧
        hour % 12 + (if (Utf16.of mark).map Utf16.lower = Utf16.of "pm" then 12 else 0) = hour := by
    by_cases hmorning : hour < 12
    · refine ⟨"AM", .inl (by decide), by rw [if_pos hmorning], ?_⟩
      rw [if_neg (by decide)]
      omega
    · refine ⟨"PM", .inr (by decide), by rw [if_neg hmorning], ?_⟩
      rw [if_pos (by decide)]
      omega
  rw [← hhalf.1]
  have htext : TimeText (Utf16.of (pad 2 h ++ ":" ++ pad 2 minute ++ " " ++ mark))
      (Utf16.of (pad 2 h)) (some (Utf16.of (pad 2 minute))) (some (Utf16.of mark)) := by
    refine ⟨by omega, by omega, hdigits, 58 :: Utf16.of (pad 2 minute), Utf16.of " ",
      Utf16.of mark, .digits hlength' hdigits', by decide, .mark hmark, ?_⟩
    rw [utf16_append, utf16_append, utf16_append, utf16_append, utf16_colon]
    simp only [List.append_assoc, List.cons_append, List.nil_append]
  have hmeans := Means.marked htext (by omega) (by omega) (by rw [Option.getD_some]; omega)
  rw [Option.getD_some, hvalue, hvalue', hrange.2.2, hhalf.2] at hmeans
  exact hmeans

/-- A local time is accepted exactly if it occurs, and what is returned denotes it. -/
def ExactlyAccepted (zone : TimeZone) (date : CivilDate) (time : Utf16) (hour minute : ℕ) : Prop :=
  ((∃ value, combineDateTime zone (dateText date) (some time) = .ok value) ↔
      ∃ t, Shows zone t date hour minute) ∧
    ∀ value, combineDateTime zone (dateText date) (some time) = .ok value →
      ∃ t, parseDateTime value = some t ∧ Shows zone t date hour minute

/-- A time of a day is accepted where the day has it and not before its clocks change. -/
theorem combineDateTime_accepts_iff (changes : ClockChanges) {date : CivilDate}
    (hyear : 0 ≤ date.year ∧ date.year ≤ 9999) {time : Option Utf16} {hour minute : ℕ}
    (hmeant : meant time = .ok (hour, minute)) :
    (∃ value, combineDateTime changes.zone (dateText date) time = .ok value) ↔
      1000 ≤ date.year ∧ ¬ changes.Skipped date hour ∧ ¬ changes.BeforeChange date hour := by
  obtain ⟨hhour, hminute⟩ := meant_lt hmeant
  have hok (value : String) := combineDateTime_eq_ok value hyear (changes.zone_noon date)
    (changes.noonOffset_mem date) hmeant
  rw [← changes.shows_noonOffset_iff date hhour hminute]
  exact ⟨fun ⟨value, h⟩ => ((hok value).mp h).2, fun h => ⟨_, (hok _).mpr ⟨rfl, h⟩⟩⟩

/-- **Local times** are accepted exactly if they occur, in the years with four digits and but for
the hours before the clocks change. -/
theorem combineDateTime_exact_iff (changes : ClockChanges) (date : CivilDate)
    (hyear : 0 ≤ date.year ∧ date.year ≤ 9999) (time : Utf16) (hour minute : ℕ)
    (hmeans : Means time hour minute) :
    ExactlyAccepted changes.zone date time hour minute ↔
      (changes.Skipped date hour ∨ 1000 ≤ date.year ∧ ¬ changes.BeforeChange date hour) := by
  have hmeant := hmeans.meant_eq
  obtain ⟨hhour, hminute⟩ := meant_lt hmeant
  have hrange := changes.noonOffset_mem date
  have hoccurs := changes.exists_shows_iff date hhour hminute
  unfold ExactlyAccepted
  rw [combineDateTime_accepts_iff changes hyear hmeant, hoccurs]
  constructor
  · rintro ⟨hexact, -⟩
    by_cases hskipped : changes.Skipped date hour
    · exact .inl hskipped
    · obtain ⟨hlarge, -, hbefore⟩ := hexact.mpr hskipped
      exact .inr ⟨hlarge, hbefore⟩
  · intro h
    constructor
    · constructor
      · exact fun haccept => haccept.2.1
      · intro hskipped
        rcases h with hskip | ⟨hlarge, hbefore⟩
        · exact absurd hskip hskipped
        · exact ⟨hlarge, hskipped, hbefore⟩
    · intro value hvalue
      obtain ⟨rfl, -, ht⟩ :=
        (combineDateTime_eq_ok value hyear (changes.zone_noon date) hrange hmeant).mp hvalue
      exact ⟨_, parseDateTime_dateTimeText hyear hhour hminute ⟨by omega, by omega⟩, ht⟩

/-! ### New York -/

/-- The first Sunday from a day on. -/
def sundayFrom (days : ℤ) : ℤ := days + (7 - weekday days) % 7

/-- The rule since 2007: the second Sunday of March and the first of November. -/
def newYork : ClockChanges where
  spring year := sundayFrom (daysFromCivil year 3 8)
  autumn year := sundayFrom (daysFromCivil year 11 1)
  spring_mem year := by
    have hlonger := yearDays_lt (a := year - 1) (b := year) (by omega)
    rw [newYear_eq, daysFromCivil_eq, if_neg (by decide)]
    unfold sundayFrom
    omega
  lt year := by
    rw [daysFromCivil_eq, daysFromCivil_eq, if_neg (by decide), if_neg (by decide)]
    unfold sundayFrom
    omega
  autumn_mem year := by
    rw [newYear_eq, daysFromCivil_eq, if_neg (by decide), Int.add_sub_cancel]
    unfold sundayFrom
    omega

/-- The day in March 2026 on which the clocks go forward. -/
def springDay : CivilDate := ⟨2026, 3, 8, by decide⟩

/-- In the afternoon of that day, the time is accepted. -/
theorem combineDateTime_exact_afternoon :
    ExactlyAccepted newYork.zone springDay (Utf16.of "5:30 PM") 17 30 := by
  have htext : TimeText (Utf16.of "5:30 PM") (Utf16.of "5") (some (Utf16.of "30"))
      (some (Utf16.of "PM")) :=
    ⟨by decide, by decide, by decide, Utf16.of ":30", Utf16.of " ", Utf16.of "PM",
      .digits (by decide) (by decide), by decide, .mark (.inr (by decide)), by decide⟩
  have hmeans : Means (Utf16.of "5:30 PM") 17 30 :=
    .marked htext (by decide) (by decide) (by decide)
  refine (combineDateTime_exact_iff newYork springDay (by decide) (Utf16.of "5:30 PM") 17 30
    hmeans).mpr (.inr ⟨by decide, ?_⟩)
  rintro (⟨-, hlate⟩ | ⟨-, hlate⟩)
  · exact absurd hlate (by decide)
  · exact absurd hlate (by decide)

/-- Half past one in the morning of that day occurs, and is rejected. -/
theorem combineDateTime_not_exact :
    ¬ ∀ (changes : ClockChanges) (date : CivilDate), 0 ≤ date.year ∧ date.year ≤ 9999 →
      ∀ (time : Utf16) (hour minute : ℕ), Means time hour minute →
        ExactlyAccepted changes.zone date time hour minute := by
  intro h
  have hexact := h newYork springDay (by decide) _ 1 30 (means_unmarked (by decide) (by decide))
  obtain ⟨value, hvalue⟩ := hexact.1.mpr
    ⟨(springDay.days * 1440 + 90 + 300) * 60000, by decide +kernel⟩
  have herror : (combineDateTime newYork.zone (dateText springDay)
      (some (Utf16.of (pad 2 1 ++ ":" ++ pad 2 30)))).toOption = none := by decide +kernel
  rw [hvalue] at herror
  cases herror

end RecruitingOs
