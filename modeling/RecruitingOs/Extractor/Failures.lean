import RecruitingOs.Extractor.Campus
import RecruitingOs.Extractor.HeuristicExtract
import RecruitingOs.Store.ContentAddress

/-!
# When the extractor fails

The patterns let dates pass that no calendar has, and the hour zero; `combineDateTime` throws on
them, nothing catches it, and the claims of the whole document are lost
(`heuristicExtract_returns_iff`).
-/

namespace RecruitingOs

open Regex IsoTime Calendar

/-! ### The date that is combined -/

theorem digits_of_parseDateTime {text : String} {t : ℤ} (h : parseDateTime text = some t) :
    text.toList[4]? = some '-' ∧ ∀ c ∈ text.toList.take 4, c.isDigit = true := by
  unfold parseDateTime at h
  dsimp only at h
  split at h
  · rename_i hsigns
    refine ⟨hsigns.2.1, ?_⟩
    obtain ⟨year, hyear, -⟩ := Option.bind_eq_some_iff.mp h
    exact fun c hc => isDigit_of_decimal hyear hc
  · cases h

theorem isDigit_of_mem_repr {n : ℕ} {c : Char} (h : c ∈ (Nat.repr n).toList) :
    c.isDigit = true := by
  rw [Nat.toList_repr] at h
  exact Nat.isDigit_of_mem_toDigits (by decide) (by decide) h

/-- A year that is written with four digits before a dash has no others. -/
theorem year_of_digits {year : ℤ} {rest : List Char}
    (hdash : ((toString year).toList ++ '-' :: rest)[4]? = some '-')
    (hdigits : ∀ c ∈ ((toString year).toList ++ '-' :: rest).take 4, c.isDigit = true) :
    1000 ≤ year ∧ year ≤ 9999 := by
  cases year with
  | ofNat n =>
      have hrepr : (toString (Int.ofNat n)).toList = (Nat.repr n).toList := rfl
      rw [hrepr] at hdash hdigits
      have hlength : (Nat.toDigits 10 n).length = 4 := by
        rw [← Nat.toList_repr]
        rcases Nat.lt_trichotomy (Nat.repr n).toList.length 4 with hlt | heq | hgt
        · -- the dash would be among the digits
          have hmem : '-' ∈ ((Nat.repr n).toList ++ '-' :: rest).take 4 := by
            refine List.mem_of_getElem? (i := (Nat.repr n).toList.length) ?_
            rw [List.getElem?_take_of_lt hlt, List.getElem?_append_right (le_refl _), Nat.sub_self,
              List.getElem?_cons_zero]
          exact absurd (hdigits _ hmem) (by decide)
        · exact heq
        · rw [List.getElem?_append_left hgt] at hdash
          exact absurd (isDigit_of_mem_repr (List.mem_of_getElem? hdash)) (by decide)
      have hle := Nat.length_toDigits_le_iff (b := 10) (n := n) (k := 4) (by decide) (by decide)
      have hlt := Nat.length_toDigits_le_iff (b := 10) (n := n) (k := 3) (by decide) (by decide)
      show (1000 : ℤ) ≤ (n : ℤ) ∧ (n : ℤ) ≤ 9999
      omega
  | negSucc n =>
      have hsign : (toString (Int.negSucc n)).toList = '-' :: (Nat.repr (n + 1)).toList := by
        show ("-" ++ (n + 1).repr).toList = _
        rw [String.toList_append]
        rfl
      rw [hsign] at hdigits
      exact absurd (hdigits '-' List.mem_cons_self) (by decide)

/-- Only dates of the calendar are combined, of the years with four digits. -/
theorem exists_date_of_combineDateTime {zone : TimeZone} {date out : String} {time : Option Utf16}
    (h : combineDateTime zone date time = .ok out) :
    ∃ day : CivilDate, date = dateText day ∧ 1000 ≤ day.year ∧ day.year ≤ 9999 := by
  rw [combineDateTime_eq] at h
  obtain ⟨offset, -, h⟩ := except_bind_eq_ok.mp h
  obtain ⟨⟨hour, minute⟩, -, h⟩ := except_bind_eq_ok.mp h
  dsimp only at h
  unfold validateLocalDateTime at h
  split at h
  · cases h
  · rename_i t ht
    dsimp only at h
    split at h
    · cases h
    · rename_i hshown
      have hdate : toString (shownDate zone t).year ++ "-" ++ pad 2 (shownDate zone t).month ++
          "-" ++ pad 2 (shownDate zone t).day = date := not_not.mp (not_or.mp hshown).1
      obtain ⟨hdash, hdigits⟩ := digits_of_parseDateTime ht
      rw [← hdate] at hdash hdigits
      have htext (x y : String) : (x ++ ("-" ++ y)).toList = x.toList ++ '-' :: y.toList := by
        rw [String.toList_append, String.toList_append]
        rfl
      simp only [String.append_assoc] at hdash hdigits
      rw [htext] at hdash hdigits
      have hyear := year_of_digits hdash hdigits
      refine ⟨shownDate zone t, ?_, hyear⟩
      rw [← hdate]
      exact (renderedDate_eq_iff _ ⟨by omega, hyear.2⟩).mpr ⟨hyear.1, rfl⟩

/-! ### The time that is combined -/

variable {prev : Option UInt16} {w : Utf16} {f : Found UInt16}

theorem value_one (u : UInt16) : Utf16.value [u] = u.toNat - 48 := by
  simp [Utf16.value]

theorem value_two (u v : UInt16) :
    Utf16.value [u, v] = 10 * (u.toNat - 48) + (v.toNat - 48) := by
  simp [Utf16.value]

theorem digit_le {u : UInt16} (h : Utf16.isDigit u = true) : u.toNat ≤ 57 :=
  UInt16.le_iff_toNat_le.mp (of_decide_eq_true h).2

/-- A digit of a smaller class. -/
theorem digit_of_le {u high : UInt16} (hhigh : high ≤ 57)
    (h : decide (48 ≤ u ∧ u ≤ high) = true) :
    Utf16.isDigit u = true ∧ u.toNat ≤ high.toNat :=
  have hrange := of_decide_eq_true h
  ⟨decide_eq_true ⟨hrange.1, UInt16.le_trans hrange.2 hhigh⟩, UInt16.le_iff_toNat_le.mp hrange.2⟩

/-- `1[0-2]|0?\d`. -/
def hourPattern : Regex UInt16 :=
  alt (seq (Utf16.unit '1') (one fun u => 48 ≤ u ∧ u ≤ 50))
    (seq (opt (Utf16.unit '0')) (one Utf16.isDigit))

/-- The hours of the pattern: up to twelve, zero among them. -/
theorem hour_of_pattern (h : f ∈ hourPattern.matchesAt prev w) :
    1 ≤ f.text.length ∧ f.text.length ≤ 2 ∧ (∀ u ∈ f.text, Utf16.isDigit u = true) ∧
      Utf16.value f.text ≤ 12 := by
  rcases mem_matchesAt_alt.mp h with h | h
  · obtain ⟨a, ha, b, hb, rfl⟩ := mem_matchesAt_seq.mp h
    obtain ⟨x, rest, rfl, hx, rfl⟩ := mem_matchesAt_one.mp ha
    obtain ⟨y, rest', -, hy, rfl⟩ := mem_matchesAt_one.mp hb
    obtain rfl : x = 49 := of_decide_eq_true hx
    obtain ⟨hdigit, hle⟩ := digit_of_le (by decide) hy
    refine ⟨by simp, by simp, by simp [hdigit, show Utf16.isDigit 49 = true by decide], ?_⟩
    show Utf16.value [49, y] ≤ 12
    rw [value_two]
    have htens : (49 : UInt16).toNat = 49 := rfl
    have hfifty : (50 : UInt16).toNat = 50 := rfl
    omega
  · obtain ⟨a, ha, b, hb, rfl⟩ := mem_matchesAt_seq.mp h
    obtain ⟨y, rest', -, hy, rfl⟩ := mem_matchesAt_one.mp hb
    have hle := digit_le hy
    rcases mem_matchesAt_opt.mp ha with ha | rfl
    · obtain ⟨x, rest, rfl, hx, rfl⟩ := mem_matchesAt_one.mp ha
      obtain rfl : x = 48 := of_decide_eq_true hx
      refine ⟨by simp, by simp, by simp [hy, show Utf16.isDigit 48 = true by decide], ?_⟩
      show Utf16.value [48, y] ≤ 12
      rw [value_two]
      have htens : (48 : UInt16).toNat = 48 := rfl
      omega
    · refine ⟨by simp, by simp, by simp [hy], ?_⟩
      show Utf16.value [y] ≤ 12
      rw [value_one]
      omega

/-- `(?::([0-5]\d))?`. -/
def minutesPattern : Regex UInt16 :=
  opt (seq (Utf16.unit ':') (group 2 (seq (one fun u => 48 ≤ u ∧ u ≤ 53) (one Utf16.isDigit))))

/-- The minutes of the pattern: none, or two digits below sixty. -/
theorem minute_of_pattern (h : f ∈ minutesPattern.matchesAt prev w) :
    f.groups = [] ∨ ∃ minute, f.groups = [(2, minute)] ∧ minute.length = 2 ∧
      (∀ u ∈ minute, Utf16.isDigit u = true) ∧ Utf16.value minute < 60 := by
  rcases mem_matchesAt_opt.mp h with h | rfl
  · right
    obtain ⟨colon, hcolon, _, hgroup, rfl⟩ := mem_matchesAt_seq.mp h
    obtain ⟨minute, hminute, rfl⟩ := mem_matchesAt_group.mp hgroup
    obtain ⟨a, ha, b, hb, rfl⟩ := mem_matchesAt_seq.mp hminute
    obtain ⟨x, rest, -, hx, rfl⟩ := mem_matchesAt_one.mp ha
    obtain ⟨y, rest', -, hy, rfl⟩ := mem_matchesAt_one.mp hb
    obtain ⟨hdigit, hle⟩ := digit_of_le (by decide) hx
    have hle' := digit_le hy
    refine ⟨[x, y], ?_, rfl, by simp [hdigit, hy], ?_⟩
    · rw [groups_eq_nil rfl hcolon]
      rfl
    · rw [value_two]
      have htens : (53 : UInt16).toNat = 53 := rfl
      omega
  · exact .inl rfl

theorem mark_of_pattern (h : f ∈ (any (Utf16.word "am") [Utf16.word "pm"]).matchesAt prev w) :
    IsMark f.text := by
  have hwords : ∀ s ∈ ["am", "pm"], (Utf16.of s).map Utf16.lower = Utf16.of s := by decide
  rw [mem_matchesAt_any] at h
  simp only [List.mem_cons, List.not_mem_nil, or_false, exists_eq_or_imp, exists_eq_left] at h
  rcases h with h | h
  · obtain ⟨text, rest, rfl, htext, rfl⟩ := Utf16.mem_matchesAt_word.mp h
    exact .inl (htext.trans (hwords "am" (by decide)))
  · obtain ⟨text, rest, rfl, htext, rfl⟩ := Utf16.mem_matchesAt_word.mp h
    exact .inr (htext.trans (hwords "pm" (by decide)))

/-- The time that is found has an hour up to twelve, minutes and a mark. -/
theorem exists_of_timeFromText {s time : Utf16} (h : timeFromText s = some time) :
    ∃ hour minute mark, TimeText time hour (some minute) (some mark) ∧
      Utf16.value hour ≤ 12 ∧ Utf16.value minute < 60 := by
  obtain ⟨m, hsearch, h⟩ := Option.bind_eq_some_iff.mp h
  obtain ⟨⟨before, m⟩, hfound, rfl⟩ := Option.map_eq_some_iff.mp hsearch
  obtain ⟨hmatch, -⟩ := matchAt_of_searchFrom hfound
  obtain ⟨edge, hedge, _, h1, rfl⟩ := mem_matchesAt_seq.mp (mem_of_matchAt hmatch)
  obtain ⟨_, h2, _, h3, rfl⟩ := mem_matchesAt_seq.mp h1
  obtain ⟨hour, hhour, rfl⟩ := mem_matchesAt_group.mp h2
  obtain ⟨minutes, hminutes, _, h4, rfl⟩ := mem_matchesAt_seq.mp h3
  obtain ⟨space, hspace, _, h5, rfl⟩ := mem_matchesAt_seq.mp h4
  obtain ⟨_, h6, ending, hending, rfl⟩ := mem_matchesAt_seq.mp h5
  obtain ⟨mark, hmark, rfl⟩ := mem_matchesAt_group.mp h6
  obtain ⟨hpos, hle, hdigits, hvalue⟩ := hour_of_pattern hhour
  have hedgeGroups : edge.groups = [] := groups_eq_nil rfl hedge
  have hhourGroups : hour.groups = [] := groups_eq_nil rfl hhour
  have hspaceGroups : space.groups = [] := groups_eq_nil rfl hspace
  have hmarkGroups : mark.groups = [] := groups_eq_nil rfl hmark
  have hendingGroups : ending.groups = [] := groups_eq_nil rfl hending
  have htime (minute : Utf16) (hlength : minute.length = 2)
      (hminute : ∀ u ∈ minute, Utf16.isDigit u = true) :
      TimeText (hour.text ++ Utf16.of ":" ++ minute ++ Utf16.of " " ++ mark.text) hour.text
        (some minute) (some mark.text) := by
    refine ⟨hpos, hle, hdigits, 58 :: minute, Utf16.of " ", mark.text, .digits hlength hminute,
      by decide, .mark (mark_of_pattern hmark), ?_⟩
    rw [utf16_colon]
    simp only [List.append_assoc, List.cons_append, List.nil_append]
  dsimp only [Found.group] at h
  rw [hedgeGroups, hhourGroups, hspaceGroups, hmarkGroups, hendingGroups] at h
  rcases minute_of_pattern hminutes with hgroups | ⟨minute, hgroups, hlength, hminute, hsixty⟩
  · rw [hgroups] at h
    obtain rfl := Option.some_inj.mp h
    exact ⟨hour.text, Utf16.of "00", mark.text, htime (Utf16.of "00") (by decide) (by decide), hvalue,
      by decide⟩
  · rw [hgroups] at h
    obtain rfl := Option.some_inj.mp h
    exact ⟨hour.text, minute, mark.text, htime minute hlength hminute, hvalue, hsixty⟩

/-! ### The lines of a text -/

/-- The time of a phrase, if it has one, is a time of the day that `combineDateTime` finds. -/
def TimeFound (changes : ClockChanges) (day : CivilDate) (phrase : Utf16) : Prop :=
  ∀ time, timeFromText phrase = some time →
    ∃ hour minute, Means time hour minute ∧ ¬ changes.Skipped day hour ∧
      ¬ changes.BeforeChange day hour

/-- A phrase has no date, or one of the calendar, of a year with four digits. -/
def Dated (changes : ClockChanges) (getTime : String → Option ℤ) (now : ℤ)
    (publishedAt : Option String) (phrase : Utf16) : Prop :=
  dateFromText getTime now phrase publishedAt = .ok none ∨
    ∃ day : CivilDate, dateFromText getTime now phrase publishedAt = .ok (some (dateText day)) ∧
      1000 ≤ day.year ∧ day.year ≤ 9999 ∧ TimeFound changes day phrase

/-- **The validators** accept what the two patterns find in a phrase where the date is one of the
calendar and the time is found on it. -/
theorem combineDateTime_returns_iff (changes : ClockChanges) (date : String) (phrase : Utf16) :
    (∃ out, combineDateTime changes.zone date (timeFromText phrase) = .ok out) ↔
      ∃ day : CivilDate, date = dateText day ∧ 1000 ≤ day.year ∧ day.year ≤ 9999 ∧
        TimeFound changes day phrase := by
  constructor
  · rintro ⟨out, hout⟩
    obtain ⟨day, rfl, hlarge, hsmall⟩ := exists_date_of_combineDateTime hout
    refine ⟨day, rfl, hlarge, hsmall, fun time htime => ?_⟩
    obtain ⟨hour, minute, mark, htext, hle, hsixty⟩ := exists_of_timeFromText htime
    -- the hour was accepted, so it is not zero
    have hpos : 1 ≤ Utf16.value hour := by
      rw [combineDateTime_eq, htime] at hout
      obtain ⟨offset, -, hout⟩ := except_bind_eq_ok.mp hout
      obtain ⟨clock, hclock, -⟩ := except_bind_eq_ok.mp hout
      unfold meant at hclock
      rw [Option.filter_some_pos (by simpa using htext.ne_nil)] at hclock
      have hclock := htext.clockTime_marked.symm.trans hclock
      split at hclock
      · rename_i hvalid
        exact hvalid.2.1
      · cases hclock
    have hmeans := Means.marked htext hpos hle hsixty
    have hmeant := hmeans.meant_eq
    rw [← htime] at hmeant
    exact ⟨_, _, hmeans,
      ((combineDateTime_accepts_iff changes ⟨by omega, hsmall⟩ hmeant).mp ⟨out, hout⟩).2⟩
  · rintro ⟨day, rfl, hlarge, hsmall, hfound⟩
    cases htime : timeFromText phrase with
    | none =>
        refine (combineDateTime_accepts_iff changes ⟨by omega, hsmall⟩ rfl).mpr ⟨hlarge, ?_, ?_⟩
        · rintro ⟨-, hhour⟩
          omega
        · rintro (⟨-, hhour⟩ | ⟨-, hhour⟩)
          · omega
          · omega
    | some time =>
        obtain ⟨hour, minute, hmeans, hchanges⟩ := hfound time htime
        exact (combineDateTime_accepts_iff changes ⟨by omega, hsmall⟩ hmeans.meant_eq).mpr
          ⟨hlarge, hchanges⟩

variable {changes : ClockChanges} {getTime : String → Option ℤ} {now : ℤ}
  {publishedAt : Option String}

/-- A date of a phrase, and what is made of it. -/
theorem dated_iff {phrase : Utf16} {make : String → ExtractedClaim} :
    (∃ claims, ((dateFromText getTime now phrase publishedAt).bind fun
      | none => .ok []
      | some date => (combineDateTime changes.zone date (timeFromText phrase)).bind fun value =>
          .ok [make value]) = .ok claims) ↔ Dated changes getTime now publishedAt phrase := by
  unfold Dated
  cases dateFromText getTime now phrase publishedAt with
  | error message =>
      constructor
      · rintro ⟨claims, h⟩
        cases h
      · rintro (h | ⟨day, h, -⟩)
        · cases h
        · cases h
  | ok found =>
      cases found with
      | none => exact iff_of_true ⟨[], rfl⟩ (.inl rfl)
      | some date =>
          have hcombine := combineDateTime_returns_iff changes date phrase
          show (∃ claims, ((combineDateTime changes.zone date (timeFromText phrase)).bind
            fun value => .ok [make value]) = .ok claims) ↔ _
          constructor
          · rintro ⟨claims, h⟩
            obtain ⟨value, hvalue, -⟩ := except_bind_eq_ok.mp h
            obtain ⟨day, rfl, hday⟩ := hcombine.mp ⟨value, hvalue⟩
            exact .inr ⟨day, rfl, hday⟩
          · rintro (h | ⟨day, h, hday⟩)
            · cases h
            · obtain rfl := Option.some_inj.mp (Except.ok.inj h)
              obtain ⟨value, hvalue⟩ := hcombine.mpr ⟨day, rfl, hday⟩
              exact ⟨[make value], except_bind_eq_ok.mpr ⟨value, hvalue, rfl⟩⟩

/-- What the dates and times of a line have to be. -/
structure LineDated (changes : ClockChanges) (getTime : String → Option ℤ) (now : ℤ)
    (publishedAt : Option String) (line : Utf16) : Prop where
  deadline : isDeadlineLine line = true → Dated changes getTime now publishedAt (relevant line)
  event : eventPattern.test line = true → Dated changes getTime now publishedAt line

theorem deadlineOf_returns_iff {line : Utf16} :
    (∃ claims, deadlineOf changes.zone getTime now line publishedAt = .ok claims) ↔
      (isDeadlineLine line = true → Dated changes getTime now publishedAt (relevant line)) := by
  unfold deadlineOf
  by_cases hline : isDeadlineLine line = true
  · rw [if_pos hline, forall_prop_of_true hline]
    exact dated_iff
  · rw [if_neg hline]
    exact iff_of_true ⟨[], rfl⟩ fun h => absurd h hline

theorem eventOf_returns_iff {line : Utf16} :
    (∃ claims, eventOf changes.zone getTime now line publishedAt = .ok claims) ↔
      (eventPattern.test line = true → Dated changes getTime now publishedAt line) := by
  unfold eventOf
  by_cases hline : eventPattern.test line = true
  · rw [if_pos hline, forall_prop_of_true hline]
    exact dated_iff
  · rw [if_neg hline]
    exact iff_of_true ⟨[], rfl⟩ fun h => absurd h hline

/-- The claims of the lines are found where each line is in order. -/
theorem lineClaims_returns_iff {lines : List Utf16} :
    (∃ claims, lineClaims changes.zone getTime now publishedAt lines = .ok claims) ↔
      ∀ line ∈ lines, LineDated changes getTime now publishedAt line := by
  induction lines with
  | nil => exact iff_of_true ⟨[], rfl⟩ fun line h => absurd h List.not_mem_nil
  | cons line lines ih =>
      rw [List.forall_mem_cons, ← ih]
      constructor
      · rintro ⟨claims, h⟩
        obtain ⟨deadlines, hdeadlines, h⟩ := except_bind_eq_ok.mp h
        obtain ⟨events, hevents, h⟩ := except_bind_eq_ok.mp h
        obtain ⟨others, hothers, -⟩ := except_bind_eq_ok.mp h
        exact ⟨⟨deadlineOf_returns_iff.mp ⟨deadlines, hdeadlines⟩,
          eventOf_returns_iff.mp ⟨events, hevents⟩⟩, others, hothers⟩
      · rintro ⟨⟨hdeadline, hevent⟩, others, hothers⟩
        obtain ⟨deadlines, hdeadlines⟩ := deadlineOf_returns_iff.mpr hdeadline
        obtain ⟨events, hevents⟩ := eventOf_returns_iff.mpr hevent
        exact ⟨_, except_bind_eq_ok.mpr ⟨deadlines, hdeadlines, except_bind_eq_ok.mpr
          ⟨events, hevents, except_bind_eq_ok.mpr ⟨others, hothers, rfl⟩⟩⟩⟩

end RecruitingOs
