import Mathlib.Data.List.Basic
import Mathlib.Tactic.Ring
import RecruitingOs.Extractor.Dates

/-!
# The texts of dates

How dates are written, and that `combineDateTime` reads them back: `number`, `parseDateTime` and
`renderedDate` on texts that are made of padded numbers.
-/

namespace IsoTime

theorem toList_pad (width n : ℕ) : (pad width n).toList =
    List.replicate (width - (Nat.toDigits 10 n).length) '0' ++ Nat.toDigits 10 n := by
  unfold pad
  rw [String.toList_append, String.toList_ofList, Nat.toList_repr, ← String.length_toList,
    Nat.toList_repr]

theorem length_pad {width n : ℕ} (hwidth : 0 < width) (h : n < 10 ^ width) :
    (pad width n).toList.length = width := by
  have hdigits := (Nat.length_toDigits_le_iff (by decide) hwidth).mpr h
  rw [toList_pad, List.length_append, List.length_replicate]
  omega

theorem isDigit_of_mem_pad {width n : ℕ} {c : Char} (h : c ∈ (pad width n).toList) :
    c.isDigit = true := by
  rw [toList_pad, List.mem_append] at h
  rcases h with hzero | hdigit
  · obtain ⟨-, rfl⟩ := List.mem_replicate.mp hzero
    rfl
  · exact Nat.isDigit_of_mem_toDigits (by decide) (by decide) hdigit

theorem pad_ne_nil (width n : ℕ) : (pad width n).toList ≠ [] := by
  rw [toList_pad]
  exact List.append_ne_nil_of_right_ne_nil _ Nat.toDigits_ne_nil

end IsoTime

namespace RecruitingOs

open IsoTime Calendar

/-! ### Numbers -/

theorem decimal_pad (width n : ℕ) : decimal (pad width n).toList = some n := by
  unfold decimal
  rw [if_pos ⟨pad_ne_nil width n, List.all_eq_true.mpr fun c => isDigit_of_mem_pad⟩, toList_pad,
    Nat.ofDigitChars_append, Nat.ofDigitChars_replicate_zero, Nat.mul_zero,
    Nat.ofDigitChars_ten_toDigits]

theorem isDigit_of_decimal {digits : List Char} {n : ℕ} (h : decimal digits = some n) {c : Char}
    (hc : c ∈ digits) : c.isDigit = true := by
  unfold decimal at h
  split at h
  · rename_i hdigits
    exact List.all_eq_true.mp hdigits.2 c hc
  · cases h

theorem number_pad (width n : ℕ) : number (pad width n).toList = some n := by
  have hdecimal := decimal_pad width n
  cases hpad : (pad width n).toList with
  | nil => exact absurd hpad (pad_ne_nil width n)
  | cons c cs =>
      rw [hpad] at hdecimal
      have hplus : c ≠ '+' := by
        rintro rfl
        exact absurd (isDigit_of_decimal hdecimal List.mem_cons_self) (by decide)
      unfold number
      split
      · rename_i heq
        cases heq
      · rename_i heq
        exact absurd (List.cons.inj heq).1 hplus
      · exact hdecimal

/-! ### Dates and times -/

/-- `YYYY-MM-DD`. -/
def dateText (date : CivilDate) : String :=
  pad 4 date.year.toNat ++ "-" ++ pad 2 date.month ++ "-" ++ pad 2 date.day

theorem toList_dateText (date : CivilDate) : (dateText date).toList =
    (pad 4 date.year.toNat).toList ++ '-' ::
      ((pad 2 date.month).toList ++ '-' :: (pad 2 date.day).toList) := by
  simp [dateText]

theorem dash_notMem_pad (width n : ℕ) : '-' ∉ (pad width n).toList :=
  fun hdash => absurd (isDigit_of_mem_pad hdash) (by decide)

/-- The parts of a date are its numbers. -/
theorem split_dateText (date : CivilDate) :
    ((dateText date).toList.splitOn '-').map number =
      [some date.year.toNat, some date.month, some date.day] := by
  rw [toList_dateText, List.splitOn_append_cons_of_beq _ _ (by rfl),
    List.splitOn_append_cons_of_beq _ _ (by rfl), List.splitOn_eq_singleton (dash_notMem_pad _ _),
    List.splitOn_eq_singleton (dash_notMem_pad _ _), List.splitOn_eq_singleton (dash_notMem_pad _ _)]
  simp [number_pad]

/-- The fields of a text of the right shape. -/
theorem parseDateTime_of_fields {text : String} {Y M D H N S P Q : List Char} {sign : Char}
    (hY : Y.length = 4) (hM : M.length = 2) (hD : D.length = 2) (hH : H.length = 2)
    (hN : N.length = 2) (hS : S.length = 2) (hP : P.length = 2) (hQ : Q.length = 2)
    (hsign : sign = '+' ∨ sign = '-')
    (htext : text.toList = Y ++ '-' :: (M ++ '-' :: (D ++ 'T' :: (H ++ ':' :: (N ++ ':' ::
      (S ++ sign :: (P ++ ':' :: Q))))))) {year month day hour minute second p q : ℕ}
    (hyear : decimal Y = some year) (hmonth : decimal M = some month) (hday : decimal D = some day)
    (hhour : decimal H = some hour) (hminute : decimal N = some minute)
    (hsecond : decimal S = some second) (hp : decimal P = some p) (hq : decimal Q = some q)
    (hdate : IsDate year month day) (hlt : hour < 24 ∧ minute < 60 ∧ second < 60 ∧ p < 24 ∧ q < 60) :
    parseDateTime text = some (daysFromCivil year month day * dayMs +
      ((hour * 60 + minute) * 60 + second : ℕ) * 1000 -
        (if sign = '-' then -((p * 60 + q : ℕ) : ℤ) else ((p * 60 + q : ℕ) : ℤ)) * minuteMs) := by
  obtain ⟨y₁, y₂, y₃, y₄, rfl⟩ := List.length_eq_four.mp hY
  obtain ⟨m₁, m₂, rfl⟩ := List.length_eq_two.mp hM
  obtain ⟨d₁, d₂, rfl⟩ := List.length_eq_two.mp hD
  obtain ⟨h₁, h₂, rfl⟩ := List.length_eq_two.mp hH
  obtain ⟨n₁, n₂, rfl⟩ := List.length_eq_two.mp hN
  obtain ⟨s₁, s₂, rfl⟩ := List.length_eq_two.mp hS
  obtain ⟨p₁, p₂, rfl⟩ := List.length_eq_two.mp hP
  obtain ⟨q₁, q₂, rfl⟩ := List.length_eq_two.mp hQ
  unfold parseDateTime
  rw [htext]
  simp [hyear, hmonth, hday, hhour, hminute, hsecond, hp, hq, hdate, hlt, hsign]

/-- The text that `combineDateTime` makes of a date, a time and an offset. -/
def dateTimeText (date : CivilDate) (hour minute : ℕ) (offset : ℤ) : String :=
  dateText date ++ "T" ++ pad 2 hour ++ ":" ++ pad 2 minute ++ ":00" ++ offsetText offset

/-- The instant at which clocks with an offset show a date and a time. -/
def instantOf (date : CivilDate) (hour minute : ℕ) (offset : ℤ) : ℤ :=
  (date.days * 1440 + (hour * 60 + minute : ℕ) - offset) * minuteMs

/-- What `combineDateTime` makes denotes the instant. -/
theorem parseDateTime_dateTimeText {date : CivilDate} {hour minute : ℕ} {offset : ℤ}
    (hyear : 0 ≤ date.year ∧ date.year ≤ 9999) (hhour : hour < 24) (hminute : minute < 60)
    (hoffset : -1440 < offset ∧ offset < 1440) :
    parseDateTime (dateTimeText date hour minute offset) =
      some (instantOf date hour minute offset) := by
  have hsign : ∃ sign, (sign = '+' ∨ sign = '-') ∧
      (offsetText offset).toList = sign :: ((pad 2 (offset.natAbs / 60)).toList ++
        ':' :: (pad 2 (offset.natAbs % 60)).toList) ∧
      (if sign = '-' then -((offset.natAbs / 60 * 60 + offset.natAbs % 60 : ℕ) : ℤ)
        else ((offset.natAbs / 60 * 60 + offset.natAbs % 60 : ℕ) : ℤ)) = offset := by
    unfold offsetText
    by_cases hneg : 0 ≤ offset
    · refine ⟨'+', .inl rfl, by simp [hneg], ?_⟩
      rw [if_neg (by decide)]
      omega
    · refine ⟨'-', .inr rfl, by simp [hneg], ?_⟩
      rw [if_pos rfl]
      omega
  obtain ⟨sign, hsign, htext, hvalue⟩ := hsign
  have hdate : IsDate ((date.year.toNat : ℕ) : ℤ) date.month date.day := by
    rw [Int.toNat_of_nonneg hyear.1]
    exact date.isDate
  refine (parseDateTime_of_fields (length_pad (by decide) (by omega))
    (length_pad (by decide) date.month_lt) (length_pad (by decide) date.day_lt)
    (length_pad (by decide) (by omega)) (length_pad (by decide) (by omega)) rfl
    (length_pad (by decide) (by omega)) (length_pad (by decide) (by omega)) hsign ?_
    (decimal_pad 4 date.year.toNat) (decimal_pad 2 date.month) (decimal_pad 2 date.day)
    (decimal_pad 2 hour) (decimal_pad 2 minute) (decimal_pad 2 0)
    (decimal_pad 2 (offset.natAbs / 60)) (decimal_pad 2 (offset.natAbs % 60)) hdate
    ⟨hhour, hminute, by decide, by omega, by omega⟩).trans ?_
  · unfold dateTimeText
    simp only [String.toList_append, toList_dateText, htext]
    simp
    rfl
  · rw [hvalue, Int.toNat_of_nonneg hyear.1]
    unfold instantOf CivilDate.days dayMs minuteMs
    congr 1
    omega

/-! ### What clocks show -/

/-- The clocks show a date and a time. -/
def Shows (zone : TimeZone) (t : ℤ) (date : CivilDate) (hour minute : ℕ) : Prop :=
  (formatToParts zone t).year = date.year ∧ (formatToParts zone t).month = date.month ∧
    (formatToParts zone t).day = date.day ∧ (formatToParts zone t).hour = hour ∧
    (formatToParts zone t).minute = minute

instance (zone : TimeZone) (t : ℤ) (date : CivilDate) (hour minute : ℕ) :
    Decidable (Shows zone t date hour minute) :=
  inferInstanceAs (Decidable (_ ∧ _ ∧ _ ∧ _ ∧ _))

/-- The minutes since 1970 that the clocks show. -/
def localMinutes (zone : TimeZone) (t : ℤ) : ℤ := t / minuteMs + zone t

/-- The date that clocks show. -/
def shownDate (zone : TimeZone) (t : ℤ) : CivilDate :=
  CivilDate.ofDays ((t + zone t * minuteMs) / dayMs)

theorem shows_iff {zone : TimeZone} {t : ℤ} {date : CivilDate} {hour minute : ℕ}
    (hhour : hour < 24) (hminute : minute < 60) :
    Shows zone t date hour minute ↔
      localMinutes zone t = date.days * 1440 + (hour * 60 + minute : ℕ) := by
  have hfields : ((formatToParts zone t).year = date.year ∧
      (formatToParts zone t).month = date.month ∧ (formatToParts zone t).day = date.day) ↔
        (t + zone t * minuteMs) / dayMs = date.days := by
    rw [← CivilDate.days_ofDays ((t + zone t * minuteMs) / dayMs), CivilDate.days_inj]
    obtain ⟨year, month, day, h⟩ := date
    rw [CivilDate.mk.injEq]
    rfl
  have hclock : (formatToParts zone t).hour =
        ((t + zone t * minuteMs) % dayMs).toNat / 1000 / 3600 ∧
      (formatToParts zone t).minute =
        ((t + zone t * minuteMs) % dayMs).toNat / 1000 / 60 % 60 := ⟨rfl, rfl⟩
  have hsplit : Shows zone t date hour minute ↔
      ((formatToParts zone t).year = date.year ∧ (formatToParts zone t).month = date.month ∧
        (formatToParts zone t).day = date.day) ∧
        (formatToParts zone t).hour = hour ∧ (formatToParts zone t).minute = minute := by
    unfold Shows
    simp only [and_assoc]
  rw [hsplit, hfields, hclock.1, hclock.2]
  unfold localMinutes dayMs minuteMs
  omega

/-! ### `renderedDate` -/

theorem pad_inj {width m n : ℕ} (h : (pad width m).toList = (pad width n).toList) : m = n := by
  have hdecimal := congrArg decimal h
  rw [decimal_pad, decimal_pad] at hdecimal
  exact Option.some_inj.mp hdecimal

/-- A year with four digits is written without padding. -/
theorem toString_year {year : ℤ} (h : 1000 ≤ year ∧ year ≤ 9999) :
    (toString year).toList = (pad 4 year.toNat).toList := by
  obtain ⟨n, rfl⟩ := Int.eq_ofNat_of_zero_le (show 0 ≤ year by omega)
  have hlength : (Nat.toDigits 10 n).length = 4 := by
    have hle := Nat.length_toDigits_le_iff (b := 10) (n := n) (k := 4) (by decide) (by decide)
    have hlt := Nat.length_toDigits_le_iff (b := 10) (n := n) (k := 3) (by decide) (by decide)
    omega
  rw [Int.toNat_natCast, toList_pad, hlength, Nat.sub_self, List.replicate_zero, List.nil_append]
  exact Nat.toList_repr

/-- Only such a year is written as it is when it is padded. -/
theorem year_of_toString {year : ℤ} {n : ℕ} (hn : n ≤ 9999)
    (h : (toString year).toList = (pad 4 n).toList) : year = n ∧ 1000 ≤ year := by
  cases year with
  | ofNat m =>
      have hdigits : Nat.toDigits 10 m = (pad 4 n).toList := Nat.toList_repr.symm.trans h
      have hlength : (Nat.toDigits 10 m).length = 4 := by
        rw [hdigits]
        exact length_pad (by decide) (by omega)
      have hle := Nat.length_toDigits_le_iff (b := 10) (n := m) (k := 3) (by decide) (by decide)
      have hvalue := decimal_pad 4 n
      rw [← hdigits] at hvalue
      have hsame := decimal_pad 0 m
      rw [toList_pad, Nat.zero_sub, List.replicate_zero, List.nil_append, hvalue] at hsame
      obtain rfl := Option.some_inj.mp hsame
      refine ⟨rfl, ?_⟩
      show (1000 : ℤ) ≤ (n : ℤ)
      omega
  | negSucc m =>
      have hdash : '-' ∈ (toString (Int.negSucc m)).toList := by
        show '-' ∈ ("-" ++ (m + 1).repr).toList
        rw [String.toList_append]
        exact List.mem_append_left _ (by decide)
      rw [h] at hdash
      exact absurd hdash (dash_notMem_pad 4 n)

/-- A date that clocks show is written as `dateText` writes a date where it is that date, of a year
with four digits. -/
theorem renderedDate_eq_iff (shown : CivilDate) {date : CivilDate} (hyear : 0 ≤ date.year ∧ date.year ≤ 9999) :
    toString shown.year ++ "-" ++ pad 2 shown.month ++ "-" ++ pad 2 shown.day = dateText date ↔
      1000 ≤ date.year ∧ shown = date := by
  rw [← String.toList_inj, toList_dateText]
  have htext : (toString shown.year ++ "-" ++ pad 2 shown.month ++ "-" ++ pad 2 shown.day).toList =
      (toString shown.year).toList ++ '-' ::
        ((pad 2 shown.month).toList ++ '-' :: (pad 2 shown.day).toList) := by
    simp
  rw [htext]
  constructor
  · intro h
    have hlengths (d : CivilDate) :
        ((pad 2 d.month).toList).length = 2 ∧ ((pad 2 d.day).toList).length = 2 :=
      ⟨length_pad (by decide) d.month_lt, length_pad (by decide) d.day_lt⟩
    obtain ⟨hy, hrest⟩ := List.append_inj' h (by
      simp only [List.length_cons, List.length_append, (hlengths shown).1, (hlengths shown).2,
        (hlengths date).1, (hlengths date).2])
    obtain ⟨hm, hd⟩ := List.append_inj (List.cons.inj hrest).2
      ((hlengths shown).1.trans (hlengths date).1.symm)
    obtain ⟨hyears, hlarge⟩ := year_of_toString (by omega) hy
    obtain ⟨year, month, day, hdate⟩ := date
    refine ⟨by omega, ?_⟩
    obtain ⟨year', month', day', hdate'⟩ := shown
    dsimp only at hyears hlarge hyear
    rw [CivilDate.mk.injEq]
    exact ⟨by omega, pad_inj hm, pad_inj (List.cons.inj hd).2⟩
  · rintro ⟨hlarge, rfl⟩
    rw [toString_year ⟨hlarge, hyear.2⟩]

/-! ### `validateLocalDateTime` -/

/-- **A text is accepted** where the clocks show, at the instant that it denotes, what it is meant
to be, in a year with four digits. -/
theorem validateLocalDateTime_eq_ok {zone : TimeZone} {value out : String} {t : ℤ}
    {date : CivilDate} {hour minute : ℕ} (hyear : 0 ≤ date.year ∧ date.year ≤ 9999)
    (hparse : parseDateTime value = some t) :
    validateLocalDateTime zone value (dateText date) hour minute = .ok out ↔
      out = value ∧ 1000 ≤ date.year ∧ Shows zone t date hour minute := by
  have hdate := renderedDate_eq_iff (shownDate zone t) hyear
  have hshown : Shows zone t date hour minute ↔ shownDate zone t = date ∧
      (formatToParts zone t).hour = hour ∧ (formatToParts zone t).minute = minute := by
    obtain ⟨year, month, day, h⟩ := date
    rw [shownDate, CivilDate.ofDays, CivilDate.mk.injEq, and_assoc, and_assoc]
    rfl
  unfold validateLocalDateTime
  rw [hparse, hshown]
  dsimp only
  split
  · rename_i hwrong
    constructor
    · intro h
      cases h
    · rintro ⟨-, hlarge, hsame, hhour, hminute⟩
      rcases hwrong with hne | hne | hne
      · exact absurd (hdate.mpr ⟨hlarge, hsame⟩) hne
      · exact absurd hhour hne
      · exact absurd hminute hne
  · rename_i hright
    obtain ⟨hrendered, hhour, hminute⟩ := not_or.mp hright |>.imp_right not_or.mp
    obtain ⟨hlarge, hsame⟩ := hdate.mp (not_not.mp hrendered)
    refine ⟨fun h => ⟨(Except.ok.inj h).symm, hlarge, hsame, not_not.mp hhour, not_not.mp hminute⟩,
      fun h => congrArg Except.ok h.1.symm⟩

/-! ### `offsetForDate` -/

/-- The dates of `Date.UTC`, from the year 100 on. -/
theorem dateUTC_of_date {date : CivilDate} (hyear : 100 ≤ date.year ∧ date.year ≤ 9999)
    {hour minute second : ℕ} (htime : hour < 24 ∧ minute < 60 ∧ second < 60) :
    dateUTC date.year.toNat date.month date.day hour minute second =
      some (date.days * dayMs + ((hour * 60 + minute) * 60 + second : ℕ) * 1000) := by
  obtain ⟨hmonth, hmonth', hday, -⟩ := date.isDate
  have hdays : daysFromCivil date.year date.month 1 + date.day - 1 = date.days := by
    unfold CivilDate.days daysFromCivil
    dsimp only
    omega
  have hfirst : (date.month - 1) / 12 = 0 ∧ (date.month - 1) % 12 + 1 = date.month := by omega
  have hlarge : ¬ date.year.toNat ≤ 99 := by omega
  obtain ⟨hafter, hbefore⟩ := date.isDate.mem_year
  have hrange : newYear 0 ≤ date.days ∧ date.days < newYear 10000 := by
    have hlow := newYear_mono (a := -1) (b := date.year) (by omega)
    have hhigh := newYear_mono (a := date.year) (b := 10000) (by omega)
    exact ⟨hlow.trans hafter, hbefore.trans_le hhigh⟩
  have hends : newYear 0 = -719528 ∧ newYear 10000 = 2932897 := by decide
  unfold dateUTC
  dsimp only
  rw [if_neg hlarge, hfirst.1, hfirst.2, Int.toNat_of_nonneg (by omega), Nat.cast_zero,
    Int.add_zero, hdays]
  refine if_pos ?_
  unfold dayMs
  omega

/-- Before, the years are those of the twentieth century. -/
theorem dateUTC_early {date : CivilDate} (hyear : 0 ≤ date.year ∧ date.year < 100) {t : ℤ}
    (h : dateUTC date.year.toNat date.month date.day 0 0 0 = some t) :
    (civilFromDays (t / dayMs)).1 ≠ date.year := by
  obtain ⟨hmonth, hmonth', hday, -⟩ := date.isDate
  have hfirst : (date.month - 1) / 12 = 0 ∧ (date.month - 1) % 12 + 1 = date.month := by omega
  unfold dateUTC at h
  dsimp only at h
  rw [if_pos (by omega), hfirst.1, hfirst.2] at h
  obtain rfl : _ = t := by
    unfold timeClip at h
    split at h
    · exact Option.some_inj.mp h
    · cases h
  have hstart : IsDate (1900 + (date.year.toNat : ℤ) + ((0 : ℕ) : ℤ)) date.month 1 := by
    refine ⟨hmonth, hmonth', le_refl 1, ?_⟩
    unfold monthLength
    split
    · split <;> decide
    · split <;> decide
  obtain ⟨hafter, -⟩ := hstart.mem_year
  have hlate := newYear_mono (a := date.year) (b := 1900 + (date.year.toNat : ℤ) + ((0 : ℕ) : ℤ))
    (by omega)
  intro hsame
  obtain ⟨-, hbefore⟩ := (CivilDate.year_eq_iff (CivilDate.ofDays _) date.year).mp hsame
  rw [CivilDate.days_ofDays] at hbefore
  generalize daysFromCivil (1900 + (date.year.toNat : ℤ) + ((0 : ℕ) : ℤ)) date.month 1 = first at *
  unfold dayMs at hbefore
  omega

/-- A year before 100 is not found again, and zero is no year. -/
theorem offsetForDate_early {zone : TimeZone} {date : CivilDate} {offset : String}
    (hyear : 0 ≤ date.year ∧ date.year < 100) : offsetForDate zone (dateText date) ≠ .ok offset := by
  have hsplit := split_dateText date
  unfold offsetForDate
  rw [hsplit]
  dsimp only
  intro h
  split at h
  · cases h
  · have hne : (dateUTC date.year.toNat date.month date.day 0 0 0).map
        (fun t => civilFromDays (t / dayMs)) ≠
          some ((date.year.toNat : ℤ), date.month, date.day) := by
      intro hsame
      obtain ⟨t, ht, hcivil⟩ := Option.map_eq_some_iff.mp hsame
      refine dateUTC_early hyear ht ?_
      rw [hcivil, Int.toNat_of_nonneg hyear.1]
    rw [if_pos hne] at h
    cases h

/-- The offset is that of noon UTC. -/
theorem offsetForDate_dateText {zone : TimeZone} {date : CivilDate} {offset : ℤ}
    (hyear : 100 ≤ date.year ∧ date.year ≤ 9999)
    (hoffset : zone (date.days * dayMs + 43200000) = offset) (hrange : -720 < offset ∧ offset < 720) :
    offsetForDate zone (dateText date) = .ok (offsetText offset) := by
  have hsplit := split_dateText date
  obtain ⟨hmonth, -, hday, -⟩ := date.isDate
  have hcalendar : (dateUTC date.year.toNat date.month date.day 0 0 0).map
      (fun t => civilFromDays (t / dayMs)) =
        some ((date.year.toNat : ℤ), date.month, date.day) := by
    rw [dateUTC_of_date hyear (by decide), Option.map_some,
      show (date.days * dayMs + ((0 * 60 + 0) * 60 + 0 : ℕ) * 1000) / dayMs = date.days by
        unfold dayMs
        omega,
      CivilDate.days, civilFromDays_daysFromCivil date.isDate, Int.toNat_of_nonneg (by omega)]
  have hnoon : dateUTC date.year.toNat date.month date.day 12 0 0 =
      some (date.days * dayMs + 43200000) := dateUTC_of_date hyear (by decide)
  -- at noon the clocks show the same day
  obtain ⟨second, hsecond⟩ : ∃ second : ℕ, (second : ℤ) = 43200 + offset * 60 :=
    ⟨(43200 + offset * 60).toNat, by omega⟩
  have hparts : formatToParts zone (date.days * dayMs + 43200000) =
      ⟨date.year, date.month, date.day, second / 3600, second / 60 % 60, second % 60⟩ := by
    have hshownDay : (date.days * dayMs + 43200000 + offset * minuteMs) / dayMs = date.days := by
      unfold dayMs minuteMs
      omega
    have hshownTime :
        ((date.days * dayMs + 43200000 + offset * minuteMs) % dayMs).toNat / 1000 = second := by
      unfold dayMs minuteMs
      omega
    unfold formatToParts
    dsimp only
    rw [hoffset, hshownDay, hshownTime, CivilDate.days, civilFromDays_daysFromCivil date.isDate]
  have hrendered : dateUTC date.year.toNat date.month date.day (second / 3600) (second / 60 % 60)
      (second % 60) = some (date.days * dayMs + 43200000 + offset * minuteMs) := by
    have hsum : (second / 3600 * 60 + second / 60 % 60) * 60 + second % 60 = second := by omega
    refine (dateUTC_of_date hyear ⟨by omega, by omega, by omega⟩).trans ?_
    rw [hsum, hsecond, minuteMs, Int.add_assoc]
    exact congrArg (fun rest => some (date.days * dayMs + rest)) (by ring)
  unfold offsetForDate
  rw [hsplit]
  dsimp only
  rw [if_neg (by omega), if_neg (not_not.mpr hcalendar), hnoon]
  dsimp only
  rw [hparts]
  dsimp only
  rw [hrendered]
  dsimp only
  have hround : (date.days * dayMs + 43200000 + offset * minuteMs -
      (date.days * dayMs + 43200000) + 30000) / minuteMs = offset := by
    rw [add_sub_cancel_left]
    unfold minuteMs
    omega
  rw [hround]

/-! ### `combineDateTime` -/

/-- The hour and the minute that are meant: without a time, the end of the day. -/
def meant (time : Option Utf16) : Except String (ℕ × ℕ) :=
  (time.filter (· ≠ [])).elim (.ok (23, 59)) clockTime

theorem combineDateTime_eq (zone : TimeZone) (date : String) (time : Option Utf16) :
    combineDateTime zone date time = (offsetForDate zone date).bind fun offset =>
      (meant time).bind fun (h, min) =>
        validateLocalDateTime zone
          (date ++ "T" ++ pad 2 h ++ ":" ++ pad 2 min ++ ":00" ++ offset) date h min := by
  unfold combineDateTime meant
  refine congrArg (offsetForDate zone date).bind (funext fun offset => ?_)
  cases time.filter (· ≠ []) with
  | none =>
      show _ = validateLocalDateTime zone _ date 23 59
      have hend : "T" ++ pad 2 23 ++ ":" ++ pad 2 59 ++ ":00" = "T23:59:00" := by decide
      rw [← hend]
      simp only [String.append_assoc]
  | some time => rfl

theorem clockTime_lt {time : Utf16} {hour minute : ℕ} (h : clockTime time = .ok (hour, minute)) :
    hour < 24 ∧ minute < 60 := by
  unfold clockTime at h
  split at h
  · cases h
  · dsimp only at h
    split at h
    · cases h
    · rename_i m _ hvalid
      obtain ⟨hminute, hvalid⟩ := not_or.mp hvalid
      obtain ⟨hap, hnone⟩ := not_or.mp hvalid
      cases h
      refine ⟨?_, by omega⟩
      cases hgroup : (m.group 3).map fun text => text.map Utf16.lower with
      | none =>
          rw [hgroup] at hnone
          simp at hnone
          simp
          omega
      | some ap =>
          rw [hgroup] at hap
          simp at hap
          split
          · split
            · omega
            · omega
          · split
            · omega
            · omega

theorem meant_lt {time : Option Utf16} {hour minute : ℕ} (h : meant time = .ok (hour, minute)) :
    hour < 24 ∧ minute < 60 := by
  unfold meant at h
  cases htime : time.filter (· ≠ []) with
  | none =>
      rw [htime] at h
      cases h
      decide
  | some time =>
      rw [htime] at h
      exact clockTime_lt h

/-- **A date and a time are combined** where the clocks show them at the instant that the offset of
the day's noon gives, in a year with four digits. -/
theorem combineDateTime_eq_ok {zone : TimeZone} {date : CivilDate} {offset : ℤ}
    {time : Option Utf16} {hour minute : ℕ} (out : String)
    (hyear : 0 ≤ date.year ∧ date.year ≤ 9999)
    (hoffset : zone (date.days * dayMs + 43200000) = offset) (hrange : -720 < offset ∧ offset < 720)
    (hmeant : meant time = .ok (hour, minute)) :
    combineDateTime zone (dateText date) time = .ok out ↔
      out = dateTimeText date hour minute offset ∧ 1000 ≤ date.year ∧
        Shows zone (instantOf date hour minute offset) date hour minute := by
  obtain ⟨hhour, hminute⟩ := meant_lt hmeant
  rw [combineDateTime_eq, hmeant]
  by_cases hearly : date.year < 100
  · constructor
    · intro h
      cases hoffsetText : offsetForDate zone (dateText date) with
      | error message =>
          rw [hoffsetText] at h
          cases h
      | ok text => exact absurd hoffsetText (offsetForDate_early ⟨hyear.1, hearly⟩)
    · rintro ⟨-, hlarge, -⟩
      omega
  · have hparse : parseDateTime (dateTimeText date hour minute offset) =
        some (instantOf date hour minute offset) :=
      parseDateTime_dateTimeText hyear hhour hminute ⟨by omega, by omega⟩
    rw [offsetForDate_dateText ⟨by omega, hyear.2⟩ hoffset hrange, Except.bind, Except.bind]
    exact validateLocalDateTime_eq_ok hyear hparse

end RecruitingOs
