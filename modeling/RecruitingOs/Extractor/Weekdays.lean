import RecruitingOs.Extractor.Campus

/-!
# Weekdays

`resolveRelativeWeekday` counts from the UTC date of the publication.  In the evening of New York
that is the next day already, and a post that names that day is put a week too late
(`resolveRelativeWeekday_iff`).
-/

namespace RecruitingOs

open IsoTime Calendar

/-- The first day after a day that is of a weekday. -/
structure FirstAfter (day weekdayIndex n : ℤ) : Prop where
  after : day < n
  within : n ≤ day + 7
  weekday : weekday n = weekdayIndex
  first : ∀ k, day < k → k < n → Calendar.weekday k ≠ weekdayIndex

/-- A weekday that a post names is the first such day after the day of the post in a time zone. -/
def ResolvedIn (zone : TimeZone) (getTime : String → Option ℤ) (word : Utf16)
    (publishedAt : String) (idx : Fin 7) (t : ℤ) : Prop :=
  ∃ n, FirstAfter (shownDate zone t).days (idx : ℕ) n ∧
    resolveRelativeWeekday getTime word (some publishedAt) = .ok (some (isoDate (n * dayMs)))

theorem FirstAfter.unique {day weekdayIndex n m : ℤ} (hn : FirstAfter day weekdayIndex n)
    (hm : FirstAfter day weekdayIndex m) : n = m := by
  rcases lt_trichotomy n m with hlt | heq | hlt
  · exact absurd hn.weekday (hm.first n hn.after hlt)
  · exact heq
  · exact absurd hm.weekday (hn.first m hm.after hlt)

/-! ### ISO dates -/

theorem isoDate_eq {t n : ℤ} (h : t / dayMs = n) : isoDate t = isoDate (n * dayMs) := by
  have hsame : n * dayMs / dayMs = n := Int.mul_ediv_cancel _ (by decide)
  unfold isoDate
  rw [h, hsame]

/-- In the years with four digits an ISO date is one. -/
theorem isoDate_of_year {n : ℤ}
    (h : 0 ≤ (CivilDate.ofDays n).year ∧ (CivilDate.ofDays n).year ≤ 9999) :
    isoDate (n * dayMs) = dateText (CivilDate.ofDays n) := by
  have hsame : n * dayMs / dayMs = n := Int.mul_ediv_cancel _ (by decide)
  unfold isoDate
  rw [hsame]
  have hyear : 0 ≤ (civilFromDays n).1 ∧ (civilFromDays n).1 ≤ 9999 := h
  dsimp only
  rw [if_pos hyear]
  rfl

theorem le_length_pad (width n : ℕ) : width ≤ (pad width n).toList.length := by
  rw [toList_pad, List.length_append, List.length_replicate]
  omega

/-- In the others it begins with a sign, and is longer. -/
theorem isoDate_of_not_year {n : ℤ}
    (h : ¬ (0 ≤ (CivilDate.ofDays n).year ∧ (CivilDate.ofDays n).year ≤ 9999)) :
    ∃ sign rest, (isoDate (n * dayMs)).toList = sign :: rest ∧ sign.isDigit = false ∧
      10 ≤ rest.length := by
  have hsame : n * dayMs / dayMs = n := Int.mul_ediv_cancel _ (by decide)
  have hyear : ¬ (0 ≤ (civilFromDays n).1 ∧ (civilFromDays n).1 ≤ 9999) := h
  have hsign : ∃ sign : Char, sign.isDigit = false ∧
      (if (civilFromDays n).1 < 0 then "-" else "+").toList = [sign] := by
    split
    · exact ⟨'-', by decide, by decide⟩
    · exact ⟨'+', by decide, by decide⟩
  obtain ⟨sign, hsign, htext⟩ := hsign
  refine ⟨sign, (pad 6 (civilFromDays n).1.natAbs).toList ++ ("-".toList ++
    ((pad 2 (civilFromDays n).2.1).toList ++ ("-".toList ++ (pad 2 (civilFromDays n).2.2).toList))),
    ?_, hsign, ?_⟩
  · unfold isoDate
    rw [hsame]
    dsimp only
    rw [if_neg hyear]
    simp only [String.toList_append, htext, List.append_assoc, List.cons_append, List.nil_append]
  · have hlong := le_length_pad 6 (civilFromDays n).1.natAbs
    have hmonth := le_length_pad 2 (civilFromDays n).2.1
    have hday := le_length_pad 2 (civilFromDays n).2.2
    simp only [List.length_append]
    omega

theorem length_dateText {date : CivilDate} (hyear : 0 ≤ date.year ∧ date.year ≤ 9999) :
    (dateText date).toList.length = 10 := by
  rw [toList_dateText, List.length_append, List.length_cons, List.length_append, List.length_cons,
    length_pad (by decide) (by omega), length_pad (by decide) date.month_lt,
    length_pad (by decide) date.day_lt]

theorem dateText_inj {a b : CivilDate} (ha : 0 ≤ a.year) (hb : 0 ≤ b.year)
    (h : dateText a = dateText b) : a = b := by
  have hparts := split_dateText a
  rw [h, split_dateText b] at hparts
  injection hparts with hyear hrest
  injection hrest with hmonth hrest
  injection hrest with hday
  obtain ⟨year, month, day, hdate⟩ := a
  obtain ⟨year', month', day', hdate'⟩ := b
  rw [CivilDate.mk.injEq]
  refine ⟨?_, (Option.some_inj.mp hmonth).symm, (Option.some_inj.mp hday).symm⟩
  have hsame := Option.some_inj.mp hyear
  dsimp only at ha hb hsame
  omega

/-- The first ten characters of an ISO date are an ISO date only where they are all of it. -/
theorem take_isoDate_eq_iff {n m : ℤ} :
    String.ofList ((isoDate (n * dayMs)).toList.take 10) = isoDate (m * dayMs) ↔
      n = m ∧ 0 ≤ (CivilDate.ofDays n).year ∧ (CivilDate.ofDays n).year ≤ 9999 := by
  rw [← String.toList_inj, String.toList_ofList]
  by_cases hn : 0 ≤ (CivilDate.ofDays n).year ∧ (CivilDate.ofDays n).year ≤ 9999
  · rw [isoDate_of_year hn, List.take_of_length_le (length_dateText hn).le]
    constructor
    · intro h
      by_cases hm : 0 ≤ (CivilDate.ofDays m).year ∧ (CivilDate.ofDays m).year ≤ 9999
      · rw [isoDate_of_year hm, String.toList_inj] at h
        have hdays := congrArg CivilDate.days (dateText_inj hn.1 hm.1 h)
        rw [CivilDate.days_ofDays, CivilDate.days_ofDays] at hdays
        exact ⟨hdays, hn⟩
      · obtain ⟨sign, rest, htext, -, hlong⟩ := isoDate_of_not_year hm
        have hlength := congrArg List.length h
        rw [length_dateText hn, htext, List.length_cons] at hlength
        omega
    · rintro ⟨rfl, -⟩
      rw [isoDate_of_year hn]
  · obtain ⟨sign, rest, htext, hsign, hlong⟩ := isoDate_of_not_year hn
    refine ⟨fun h => ?_, fun h => absurd h.2 hn⟩
    rw [htext, List.take_succ_cons] at h
    by_cases hm : 0 ≤ (CivilDate.ofDays m).year ∧ (CivilDate.ofDays m).year ≤ 9999
    · -- a date without a sign begins with a digit
      rw [isoDate_of_year hm, toList_dateText] at h
      have hfirst : sign ∈ (pad 4 (CivilDate.ofDays m).year.toNat).toList := by
        cases hpad : (pad 4 (CivilDate.ofDays m).year.toNat).toList with
        | nil => exact absurd hpad (pad_ne_nil _ _)
        | cons c cs =>
            rw [hpad, List.cons_append] at h
            rw [(List.cons.inj h).1]
            exact List.mem_cons_self
      rw [isDigit_of_mem_pad hfirst] at hsign
      cases hsign
    · obtain ⟨sign', rest', htext', -, hlong'⟩ := isoDate_of_not_year hm
      have hlength := congrArg List.length h
      rw [htext', List.length_cons, List.length_cons, List.length_take] at hlength
      omega

/-! ### The day that is found -/

theorem idxOf_days : ∀ idx : Fin 7, DAYS.idxOf DAYS[idx] = idx ∧ (idx : ℕ) ≠ DAYS.length := by
  decide

/-- The days from a weekday to the next one of a name. -/
def daysTo (idx : Fin 7) (day : ℤ) : ℤ :=
  if ((idx : ℕ) - weekday day + 7) % 7 = 0 then 7 else ((idx : ℕ) - weekday day + 7) % 7

/-- The first such day after a day is so many days later. -/
theorem firstAfter_daysTo (idx : Fin 7) (day : ℤ) :
    FirstAfter day (idx : ℕ) (day + daysTo idx day) := by
  have hidx := idx.isLt
  unfold daysTo weekday
  refine ⟨?_, ?_, ?_, fun k hafter hbefore => ?_⟩
  · split <;> omega
  · split <;> omega
  · unfold weekday
    split <;> omega
  · unfold weekday
    split at hbefore <;> omega

/-- What the function answers, from the UTC date. -/
theorem resolveRelativeWeekday_eq {getTime : String → Option ℤ} {word : Utf16} {idx : Fin 7}
    (hword : word.map Utf16.lower = DAYS[idx]) {publishedAt : String} (hne : publishedAt ≠ "")
    {t : ℤ} (ht : getTime publishedAt = some t) :
    resolveRelativeWeekday getTime word (some publishedAt) =
      if (timeClip (t + daysTo idx (t / dayMs) * dayMs)).isSome then
        .ok (some (String.ofList
          ((isoDate ((t / dayMs + daysTo idx (t / dayMs)) * dayMs)).toList.take 10)))
      else .error "Invalid time value" := by
  obtain ⟨hidx, hlength⟩ := idxOf_days idx
  have hday : (t + daysTo idx (t / dayMs) * dayMs) / dayMs = t / dayMs + daysTo idx (t / dayMs) :=
    Int.add_mul_ediv_right _ _ (by decide)
  unfold resolveRelativeWeekday
  rw [Option.filter_some_pos (by simpa using hne)]
  dsimp only
  rw [hword, hidx, if_neg hlength, ht, ← isoDate_eq hday]
  unfold daysTo timeClip
  dsimp only
  by_cases hin : -8640000000000000 ≤ t + (if ((idx : ℕ) - weekday (t / dayMs) + 7) % 7 = 0 then 7
      else ((idx : ℕ) - weekday (t / dayMs) + 7) % 7) * dayMs ∧
      t + (if ((idx : ℕ) - weekday (t / dayMs) + 7) % 7 = 0 then 7
        else ((idx : ℕ) - weekday (t / dayMs) + 7) % 7) * dayMs ≤ 8640000000000000
  · rw [if_pos hin]
    rfl
  · rw [if_neg hin]
    rfl

/-- A day in one of the years with four digits is in the range of `Date`. -/
theorem timeClip_of_year {t : ℤ} (h : 0 ≤ (CivilDate.ofDays (t / dayMs)).year ∧
    (CivilDate.ofDays (t / dayMs)).year ≤ 9999) : (timeClip t).isSome := by
  obtain ⟨hafter, hbefore⟩ :=
    (CivilDate.year_civilFromDays_iff (t / dayMs) (CivilDate.ofDays (t / dayMs)).year).mp rfl
  generalize (CivilDate.ofDays (t / dayMs)).year = year at h hafter hbefore
  rw [newYear_eq] at hafter hbefore
  unfold yearDays at hafter hbefore
  unfold dayMs at hafter hbefore
  unfold timeClip
  rw [if_pos (by omega)]
  rfl

/-- In New York it is the date of UTC, or the one before. -/
theorem shownDate_cases (changes : ClockChanges) (t : ℤ) :
    (shownDate changes.zone t).days = t / dayMs ∨
      (shownDate changes.zone t).days = t / dayMs - 1 := by
  rw [shownDate, CivilDate.days_ofDays]
  unfold minuteMs dayMs
  rcases changes.zone_cases t with hzone | hzone
  · rw [hzone]
    omega
  · rw [hzone]
    omega

/-- Counted from UTC it is the same day, unless it is the evening before the day sought. -/
theorem add_daysTo_eq_iff (changes : ClockChanges) (idx : Fin 7) (t : ℤ) :
    t / dayMs + daysTo idx (t / dayMs) =
        (shownDate changes.zone t).days + daysTo idx (shownDate changes.zone t).days ↔
      (shownDate changes.zone t).days = t / dayMs ∨ weekday (t / dayMs) ≠ (idx : ℕ) := by
  have hidx := idx.isLt
  rcases shownDate_cases changes t with hday | hday
  · rw [hday]
    exact iff_of_true rfl (.inl rfl)
  · rw [hday]
    unfold daysTo weekday
    split <;> split <;> omega

/-- **The day that a post names** is resolved in campus time unless the post is of the evening
before that day, when it is the day in UTC already, or the years no longer have four digits. -/
theorem resolveRelativeWeekday_iff (changes : ClockChanges) (getTime : String → Option ℤ)
    (idx : Fin 7) (word : Utf16) (hword : word.map Utf16.lower = DAYS[idx]) (publishedAt : String)
    (hne : publishedAt ≠ "") (t : ℤ) (ht : getTime publishedAt = some t) :
    ResolvedIn changes.zone getTime word publishedAt idx t ↔
      ((shownDate changes.zone t).days = t / dayMs ∨ weekday (t / dayMs) ≠ (idx : ℕ)) ∧
      ∀ n, FirstAfter (shownDate changes.zone t).days (idx : ℕ) n →
        0 ≤ (CivilDate.ofDays n).year ∧ (CivilDate.ofDays n).year ≤ 9999 := by
  have hfirst := firstAfter_daysTo idx (shownDate changes.zone t).days
  have hanswer := resolveRelativeWeekday_eq hword hne ht
  rw [← add_daysTo_eq_iff changes idx t]
  constructor
  · rintro ⟨n, hn, hresolved⟩
    rw [hanswer] at hresolved
    split at hresolved
    · obtain ⟨hday, hyear⟩ :=
        take_isoDate_eq_iff.mp (Option.some_inj.mp (Except.ok.inj hresolved))
      refine ⟨hday.trans (hn.unique hfirst), fun m hm => ?_⟩
      rw [hm.unique hn, ← hday]
      exact hyear
    · cases hresolved
  · rintro ⟨hday, hyear⟩
    have hyear := hyear _ hfirst
    rw [← hday] at hyear hfirst
    have hsame : (t + daysTo idx (t / dayMs) * dayMs) / dayMs =
        t / dayMs + daysTo idx (t / dayMs) := Int.add_mul_ediv_right _ _ (by decide)
    refine ⟨_, hfirst, ?_⟩
    rw [hanswer, if_pos (timeClip_of_year (by rw [hsame]; exact hyear)),
      take_isoDate_eq_iff.mpr ⟨rfl, hyear⟩]

/-- The instants of two posts, of an evening and of the afternoon before it. -/
def postedAt : String → Option ℤ
  | "2026-08-28T18:00:00Z" => some 1787940000000
  | "2026-08-29T01:00:00Z" => some 1787965200000
  | _ => none

/-- On a Friday afternoon, Saturday is the day after. -/
theorem resolveRelativeWeekday_afternoon :
    ResolvedIn newYork.zone postedAt (Utf16.of "Saturday") "2026-08-28T18:00:00Z" 6
      1787940000000 := by
  refine (resolveRelativeWeekday_iff newYork postedAt 6 (Utf16.of "Saturday") (by decide +kernel)
    "2026-08-28T18:00:00Z" (by decide) 1787940000000 rfl).mpr ⟨.inl (by decide +kernel), ?_⟩
  intro n hn
  have hday : (shownDate newYork.zone 1787940000000).days = 20693 := by decide +kernel
  rw [hday] at hn
  rw [hn.unique (firstAfter_daysTo 6 20693)]
  decide +kernel

/-- On the evening of that Friday it is the Saturday of the next week. -/
theorem resolveRelativeWeekday_not_campus :
    ¬ ∀ (changes : ClockChanges) (getTime : String → Option ℤ) (idx : Fin 7) (word : Utf16),
      word.map Utf16.lower = DAYS[idx] → ∀ publishedAt, publishedAt ≠ "" →
        ∀ t, getTime publishedAt = some t →
          ResolvedIn changes.zone getTime word publishedAt idx t := by
  intro h
  obtain ⟨n, hn, hresolved⟩ := h newYork postedAt 6 (Utf16.of "Saturday") (by decide +kernel)
    "2026-08-29T01:00:00Z" (by decide) 1787965200000 rfl
  have hday : (shownDate newYork.zone 1787965200000).days = 20693 := by decide +kernel
  rw [hday] at hn
  rw [hn.unique (firstAfter_daysTo 6 20693)] at hresolved
  have hanswer : resolveRelativeWeekday postedAt (Utf16.of "Saturday")
      (some "2026-08-29T01:00:00Z") = .ok (some "2026-09-05") := by decide +kernel
  rw [hanswer] at hresolved
  have hother : "2026-09-05" ≠ isoDate ((20693 + daysTo 6 20693) * dayMs) := by decide +kernel
  exact hother (Option.some_inj.mp (Except.ok.inj hresolved))

end RecruitingOs
