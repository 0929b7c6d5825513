import RecruitingOs.Lib.Calendar
import RecruitingOs.Lib.Utf16

/-!
# Dates of a campus

`src/lib/date.ts`.  Of the platform three things are used: `Date`, in milliseconds since
1970-01-01 UTC and within its range; `toISOString`; and `Intl.DateTimeFormat`, which shows the
clocks of a time zone.
-/

namespace RecruitingOs

open IsoTime Calendar

/-! ### The platform -/

/-- A time zone: the minutes by which its clocks are ahead of UTC, at an instant. -/
abbrev TimeZone := ℤ → ℤ

def minuteMs : ℤ := 60000

/-- The range of `Date`. -/
def timeClip (t : ℤ) : Option ℤ :=
  if -8640000000000000 ≤ t ∧ t ≤ 8640000000000000 then some t else none

/-- `Date.UTC(year, month - 1, day, hour, minute, second)`, with the month and the day counted from
one: a month after December is one of the next year, a day after the month's last one of the next
month. -/
def dateUTC (year month day hour minute second : ℕ) : Option ℤ :=
  let year : ℤ := if year ≤ 99 then 1900 + year else year
  let days := daysFromCivil (year + (((month - 1) / 12 : ℕ) : ℤ)) ((month - 1) % 12 + 1) 1 + day - 1
  timeClip (days * dayMs + ((hour * 60 + minute) * 60 + second : ℕ) * 1000)

/-- The date part of `toISOString()`. -/
def isoDate (t : ℤ) : String :=
  let (year, month, day) := civilFromDays (t / dayMs)
  let year :=
    if 0 ≤ year ∧ year ≤ 9999 then pad 4 year.toNat
    else (if year < 0 then "-" else "+") ++ pad 6 year.natAbs
  year ++ "-" ++ pad 2 month ++ "-" ++ pad 2 day

/-- What the clocks of a time zone show. -/
structure WallClock where
  year : ℤ
  month : ℕ
  day : ℕ
  hour : ℕ
  minute : ℕ
  second : ℕ
deriving Repr, DecidableEq

/-- `formatToParts(instant)` of `Intl.DateTimeFormat` with `timeZone` and `hourCycle: 'h23'`. -/
def formatToParts (zone : TimeZone) (t : ℤ) : WallClock :=
  let shown := t + zone t * minuteMs
  let (year, month, day) := civilFromDays (shown / dayMs)
  let second := (shown % dayMs).toNat / 1000
  ⟨year, month, day, second / 3600, second / 60 % 60, second % 60⟩

/-- Decimal digits. -/
def decimal (digits : List Char) : Option ℕ :=
  if digits ≠ [] ∧ digits.all Char.isDigit then some (Nat.ofDigitChars 10 digits 0) else none

/-- `Number(text)` for a text of digits, with or without `+`; nothing is zero. -/
def number : List Char → Option ℕ
  | [] => some 0
  | '+' :: digits => decimal digits
  | digits => decimal digits

/-- `new Date(text).getTime()` for the texts that `combineDateTime` makes,
`YYYY-MM-DDTHH:MM:SS±HH:MM`. -/
def parseDateTime (text : String) : Option ℤ :=
  let cs := text.toList
  let field (i n : ℕ) : Option ℕ := decimal ((cs.drop i).take n)
  if cs.length = 25 ∧ cs[4]? = some '-' ∧ cs[7]? = some '-' ∧ cs[10]? = some 'T' ∧
      cs[13]? = some ':' ∧ cs[16]? = some ':' ∧ (cs[19]? = some '+' ∨ cs[19]? = some '-') ∧
      cs[22]? = some ':' then do
    let year ← field 0 4
    let month ← field 5 2
    let day ← field 8 2
    let hour ← field 11 2
    let minute ← field 14 2
    let second ← field 17 2
    let offsetHour ← field 20 2
    let offsetMinute ← field 23 2
    let offset : ℤ := if cs[19]? = some '-' then -(offsetHour * 60 + offsetMinute : ℕ)
      else (offsetHour * 60 + offsetMinute : ℕ)
    if IsDate year month day ∧ hour < 24 ∧ minute < 60 ∧ second < 60 ∧ offsetHour < 24 ∧
        offsetMinute < 60 then
      some (daysFromCivil year month day * dayMs +
        ((hour * 60 + minute) * 60 + second : ℕ) * 1000 - offset * minuteMs)
    else none
  else none

/-! ### `resolveRelativeWeekday` -/

def DAYS : List Utf16 :=
  ["sunday", "monday", "tuesday", "wednesday", "thursday", "friday", "saturday"].map Utf16.of

/-- `resolveRelativeWeekday(word, publishedAt)`; `toISOString` throws on a day out of range. -/
def resolveRelativeWeekday (getTime : String → Option ℤ) (word : Utf16)
    (publishedAt : Option String) : Except String (Option String) :=
  match publishedAt.filter (· ≠ "") with
  | none => .ok none
  | some publishedAt =>
      let idx := DAYS.idxOf (word.map Utf16.lower)
      if idx = DAYS.length then .ok none
      else
        match getTime publishedAt with
        | none => .ok none
        | some t =>
            let delta := (idx - weekday (t / dayMs) + 7) % 7
            let delta := if delta = 0 then 7 else delta
            match timeClip (t + delta * dayMs) with
            | none => .error "Invalid time value"
            | some t => .ok (some (String.ofList ((isoDate t).toList.take 10)))

/-! ### `combineDateTime` -/

/-- The text of an offset of so many minutes. -/
def offsetText (offsetMinutes : ℤ) : String :=
  let sign := if 0 ≤ offsetMinutes then "+" else "-"
  let absolute := offsetMinutes.natAbs
  sign ++ pad 2 (absolute / 60) ++ ":" ++ pad 2 (absolute % 60)

def invalidCalendarDate (date : String) : String := "Invalid calendar date: " ++ date

/-- `offsetForDate(date, timeZone)`: the offset at noon UTC. -/
def offsetForDate (zone : TimeZone) (date : String) : Except String String :=
  match (date.toList.splitOn '-').map number with
  | some year :: some month :: some day :: _ =>
      if year = 0 ∨ month = 0 ∨ day = 0 then .error (invalidCalendarDate date)
      else
        let calendar := dateUTC year month day 0 0 0
        if calendar.map (fun t => civilFromDays (t / dayMs)) ≠ some ((year : ℤ), month, day) then
          .error (invalidCalendarDate date)
        else
          match dateUTC year month day 12 0 0 with
          | none => .error "Invalid time value"
          | some sample =>
              let parts := formatToParts zone sample
              let renderedAsUtc := dateUTC parts.year.toNat parts.month parts.day parts.hour
                parts.minute parts.second
              match renderedAsUtc with
              | none => .error "Invalid time value"
              | some renderedAsUtc =>
                  -- Math.round
                  .ok (offsetText ((renderedAsUtc - sample + 30000) / minuteMs))
  | _ => .error (invalidCalendarDate date)

/-- `validateLocalDateTime(value, …)`: the clocks show what the text is meant to be. -/
def validateLocalDateTime (zone : TimeZone) (value expectedDate : String)
    (expectedHour expectedMinute : ℕ) : Except String String :=
  match parseDateTime value with
  | none => .error ("Invalid date-time: " ++ value)
  | some instant =>
      let parts := formatToParts zone instant
      let renderedDate := toString parts.year ++ "-" ++ pad 2 parts.month ++ "-" ++ pad 2 parts.day
      if renderedDate ≠ expectedDate ∨ parts.hour ≠ expectedHour ∨ parts.minute ≠ expectedMinute then
        .error ("Local time does not exist in America/New_York: " ++ expectedDate)
      else .ok value

/-- `/(\d{1,2})(?::(\d{2}))?\s*(am|pm)?/i`. -/
def localTime : Regex UInt16 :=
  .all [
    .group 1 (.run Utf16.isDigit 1 (some 2)),
    .opt (.seq (Utf16.unit ':') (.group 2 (.run Utf16.isDigit 2 (some 2)))),
    .run Utf16.isSpace 0 none,
    .opt (.group 3 (.any (Utf16.word "am") [Utf16.word "pm"]))]

/-- The hour and the minute that a time means. -/
def clockTime (time : Utf16) : Except String (ℕ × ℕ) :=
  match localTime.search time with
  | none => .error ("Invalid local time: " ++ Utf16.decode time)
  | some m =>
      let h := Utf16.value ((m.group 1).getD [])
      let min := Utf16.value ((m.group 2).getD [])
      let ap := (m.group 3).map fun text => text.map Utf16.lower
      if 59 < min ∨ (ap.isSome ∧ (h < 1 ∨ 12 < h)) ∨ (ap.isNone ∧ 23 < h) then
        .error ("Invalid local time: " ++ Utf16.decode time)
      else
        let h := if ap = some (Utf16.of "pm") ∧ h < 12 then h + 12 else h
        let h := if ap = some (Utf16.of "am") ∧ h = 12 then 0 else h
        .ok (h, min)

/-- `combineDateTime(date, time, timeZone)`. -/
def combineDateTime (zone : TimeZone) (date : String) (time : Option Utf16) :
    Except String String :=
  (offsetForDate zone date).bind fun offset =>
    match time.filter (· ≠ []) with
    | none => validateLocalDateTime zone (date ++ "T23:59:00" ++ offset) date 23 59
    | some time =>
        (clockTime time).bind fun (h, min) =>
          validateLocalDateTime zone
            (date ++ "T" ++ pad 2 h ++ ":" ++ pad 2 min ++ ":00" ++ offset) date h min

end RecruitingOs
