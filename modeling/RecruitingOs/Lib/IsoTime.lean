import Mathlib.Data.Nat.Digits.Defs

/-!
# ISO timestamps

`toISOString` is `new Date(ms).toISOString()` for the years 0 to 9999: the civil
date of a day count by the usual era arithmetic, then the padded fields.
-/

namespace IsoTime

/-- Milliseconds of one day. -/
def dayMs : ℤ := 86400000

/-- The civil date (year, month, day) of a count of days since 1970-01-01. -/
def civilFromDays (days : ℤ) : ℤ × ℕ × ℕ :=
  let z := days + 719468
  let era := z / 146097
  let doe := (z % 146097).toNat
  let yoe := (doe - doe / 1460 + doe / 36524 - doe / 146096) / 365
  let doy := doe - (365 * yoe + yoe / 4 - yoe / 100)
  let mp := (5 * doy + 2) / 153
  let day := doy - (153 * mp + 2) / 5 + 1
  let month := if mp < 10 then mp + 3 else mp - 9
  let year := (yoe : ℤ) + era * 400 + (if month ≤ 2 then 1 else 0)
  (year, month, day)

/-- A number with leading zeros, to a width. -/
def pad (width n : ℕ) : String :=
  let digits := Nat.repr n
  String.ofList (List.replicate (width - digits.length) '0') ++ digits

/-- `new Date(ms).toISOString()`. -/
def toISOString (ms : ℤ) : String :=
  let (year, month, day) := civilFromDays (ms / dayMs)
  let rest := (ms % dayMs).toNat
  pad 4 year.toNat ++ "-" ++ pad 2 month ++ "-" ++ pad 2 day ++ "T"
    ++ pad 2 (rest / 3600000) ++ ":" ++ pad 2 (rest / 60000 % 60) ++ ":"
    ++ pad 2 (rest / 1000 % 60) ++ "." ++ pad 3 (rest % 1000) ++ "Z"

end IsoTime
