import RecruitingOs.Extractor.Dates
import RecruitingOs.Ingest.Model

/-!
# The heuristic extractor

`heuristicExtract` of `src/extractor.ts`, with `extractUrls` of `src/lib/util.ts`.  The patterns are
those of the source, and work on the code units of a text.  `getTime` is the parser of `Date`, and
`now` the reading of the clock.
-/

namespace RecruitingOs

open Regex IsoTime

/-! ### Links -/

/-- `stripTrailingPunctuation(url)`. -/
def stripTrailingPunctuation (url : Utf16) : Utf16 :=
  (url.reverse.dropWhile fun u => u ∈ Utf16.of "),.;!?").reverse

/-- `/https?:\/\/[^\s<>"']+/gi`. -/
def urlPattern : Regex UInt16 :=
  .all [Utf16.word "http", .opt (Utf16.word "s"), Utf16.word "://",
    .run (fun u => ¬ Utf16.isSpace u ∧ u ∉ Utf16.of "<>\"'") 1 none]

/-- `extractUrls(text)`. -/
def extractUrls (text : Utf16) : List Utf16 :=
  ((urlPattern.matchAll text).map fun m => stripTrailingPunctuation m.text).eraseDups

/-! ### Dates of a text -/

/-- `20\d{2}`. -/
def centuryYear : Regex UInt16 :=
  .all [Utf16.unit '2', Utf16.unit '0', .run Utf16.isDigit 2 (some 2)]

/-- `/\b(20\d{2})[-\/](\d{1,2})[-\/](\d{1,2})\b/`. -/
def isoDatePattern : Regex UInt16 :=
  .all [
    .boundary Utf16.isWord,
    .group 1 centuryYear,
    .one fun u => u ∈ Utf16.of "-/",
    .group 2 (.run Utf16.isDigit 1 (some 2)),
    .one fun u => u ∈ Utf16.of "-/",
    .group 3 (.run Utf16.isDigit 1 (some 2)),
    .boundary Utf16.isWord]

/-- A month and what may follow its abbreviation, as `jan(?:uary)?`. -/
def stem (short rest : String) : Regex UInt16 := .seq (Utf16.word short) (.opt (Utf16.word rest))

/-- The months of the pattern. -/
def monthNames : Regex UInt16 :=
  .any (stem "jan" "uary") [stem "feb" "ruary", stem "mar" "ch", stem "apr" "il",
    Utf16.word "may", stem "jun" "e", stem "jul" "y", stem "aug" "ust",
    .seq (Utf16.word "sep") (.opt (.seq (Utf16.word "t") (.opt (Utf16.word "ember")))),
    stem "oct" "ober", stem "nov" "ember", stem "dec" "ember"]

/-- `st|nd|rd|th`. -/
def ordinalPattern : Regex UInt16 :=
  .any (Utf16.word "st") [Utf16.word "nd", Utf16.word "rd", Utf16.word "th"]

/-- `,?\s*(20\d{2})`. -/
def yearPattern : Regex UInt16 :=
  .all [.opt (Utf16.unit ','), .run Utf16.isSpace 0 none, .group 3 centuryYear]

/-- `/\b(jan(?:uary)?|…|dec(?:ember)?)\.?\s+(\d{1,2})(?:st|nd|rd|th)?(?:,?\s*(20\d{2}))?/i`. -/
def monthDatePattern : Regex UInt16 :=
  .all [
    .boundary Utf16.isWord,
    .group 1 monthNames,
    .opt (Utf16.unit '.'),
    .run Utf16.isSpace 1 none,
    .group 2 (.run Utf16.isDigit 1 (some 2)),
    .opt ordinalPattern,
    .opt yearPattern]

def months : List (Utf16 × String) :=
  [("jan", "01"), ("january", "01"), ("feb", "02"), ("february", "02"), ("mar", "03"),
    ("march", "03"), ("apr", "04"), ("april", "04"), ("may", "05"), ("jun", "06"), ("june", "06"),
    ("jul", "07"), ("july", "07"), ("aug", "08"), ("august", "08"), ("sep", "09"), ("sept", "09"),
    ("september", "09"), ("oct", "10"), ("october", "10"), ("nov", "11"), ("november", "11"),
    ("dec", "12"), ("december", "12")].map fun (name, number) => (Utf16.of name, number)

/-- `/\b(sunday|monday|…|saturday)\b/i`. -/
def weekdayPattern : Regex UInt16 :=
  .all [
    .boundary Utf16.isWord,
    .group 1 (.any (Utf16.word "sunday") [Utf16.word "monday", Utf16.word "tuesday",
      Utf16.word "wednesday", Utf16.word "thursday", Utf16.word "friday", Utf16.word "saturday"]),
    .boundary Utf16.isWord]

/-- `text.padStart(2, '0')`. -/
def padStart2 (text : Utf16) : Utf16 := List.replicate (2 - text.length) 48 ++ text

/-- `String(date.getUTCFullYear())`; a text that is no date has the year `NaN`. -/
def yearText : Option ℤ → String
  | none => "NaN"
  | some t => toString (civilFromDays (t / dayMs)).1

section

variable (zone : TimeZone) (getTime : String → Option ℤ) (now : ℤ)

/-- The year of a month without one: that of the publication, or the current one. -/
def publicationYear (publishedAt : Option String) : String :=
  yearText (match publishedAt.filter (· ≠ "") with
    | some publishedAt => getTime publishedAt
    | none => some now)

/-- The date that the first pattern finds. -/
def isoDateFromText (s : Utf16) : Option String := do
  let iso ← isoDatePattern.search s
  let year ← iso.group 1
  let month ← iso.group 2
  let day ← iso.group 3
  return Utf16.decode year ++ "-" ++ Utf16.decode (padStart2 month) ++ "-" ++
    Utf16.decode (padStart2 day)

/-- `months[name.toLowerCase().replace('.', '')]`. -/
def monthText (name : Utf16) : String :=
  (months.lookup ((name.map Utf16.lower).erase 46)).getD "undefined"

/-- The date that a match of the second pattern means. -/
def monthDate (m : Regex.Found UInt16) (publishedAt : Option String) : Option String := do
  let name ← m.group 1
  let day ← m.group 2
  let year := ((m.group 3).map Utf16.decode).getD (publicationYear getTime now publishedAt)
  return year ++ "-" ++ monthText name ++ "-" ++ Utf16.decode (padStart2 day)

/-- `dateFromText(s, publishedAt)`. -/
def dateFromText (s : Utf16) (publishedAt : Option String) : Except String (Option String) :=
  match isoDateFromText s with
  | some date => .ok (some date)
  | none =>
      match (monthDatePattern.search s).bind fun m => monthDate getTime now m publishedAt with
      | some date => .ok (some date)
      | none =>
          match (weekdayPattern.search s).bind fun wd => wd.group 1 with
          | some word => resolveRelativeWeekday getTime word publishedAt
          | none => .ok none

/-- `/\b(1[0-2]|0?\d)(?::([0-5]\d))?\s*(am|pm)\b/i`. -/
def timePattern : Regex UInt16 :=
  .all [
    .boundary Utf16.isWord,
    .group 1 (.alt (.seq (Utf16.unit '1') (.one fun u => 48 ≤ u ∧ u ≤ 50))
      (.seq (.opt (Utf16.unit '0')) (.one Utf16.isDigit))),
    .opt (.seq (Utf16.unit ':') (.group 2 (.seq (.one fun u => 48 ≤ u ∧ u ≤ 53)
      (.one Utf16.isDigit)))),
    .run Utf16.isSpace 0 none,
    .group 3 (.any (Utf16.word "am") [Utf16.word "pm"]),
    .boundary Utf16.isWord]

/-- `timeFromText(s)`. -/
def timeFromText (s : Utf16) : Option Utf16 := do
  let m ← timePattern.search s
  let hour ← m.group 1
  let mark ← m.group 3
  return hour ++ Utf16.of ":" ++ (m.group 2).getD (Utf16.of "00") ++ Utf16.of " " ++ mark

/-! ### Claims -/

/-- `/no longer accepting responses|applications? (?:are )?closed|application closed|closed for
applications/i`. -/
def closedPattern : Regex UInt16 :=
  .any (Utf16.word "no longer accepting responses") [
    .all [Utf16.word "application", .opt (Utf16.word "s"), Utf16.word " ",
      .opt (Utf16.word "are "), Utf16.word "closed"],
    Utf16.word "application closed",
    Utf16.word "closed for applications"]

/-- `/applications? (?:are )?(?:now )?(?:open|live)|apply now|accepting applications/i`. -/
def openPattern : Regex UInt16 :=
  .any (.all [Utf16.word "application", .opt (Utf16.word "s"), Utf16.word " ",
      .opt (Utf16.word "are "), .opt (Utf16.word "now "),
      .any (Utf16.word "open") [Utf16.word "live"]]) [
    Utf16.word "apply now",
    Utf16.word "accepting applications"]

/-- `/application|apply|submission/i`. -/
def applicationPattern : Regex UInt16 :=
  .any (Utf16.word "application") [Utf16.word "apply", Utf16.word "submission"]

/-- `/due|deadline|close[sd]?/i`. -/
def duePattern : Regex UInt16 :=
  .any (Utf16.word "due") [Utf16.word "deadline",
    .seq (Utf16.word "close") (.opt (.one fun u => Utf16.lower u ∈ Utf16.of "sd"))]

/-- `/(?:applications?|apply|submissions?)[^.\n]{0,140}(?:due|deadline|close[sd]?)[^.\n]{0,140}/i`.
-/
def phrasePattern : Regex UInt16 :=
  .all [
    .any (.seq (Utf16.word "application") (.opt (Utf16.word "s"))) [Utf16.word "apply",
      .seq (Utf16.word "submission") (.opt (Utf16.word "s"))],
    .run (· ∉ Utf16.of ".\n") 0 (some 140),
    duePattern,
    .run (· ∉ Utf16.of ".\n") 0 (some 140)]

/-- `/interest meeting|info(?:rmation)? session|coffee chat|recruit(?:ing|ment) event|boot\s?camp|
expo/i`. -/
def eventPattern : Regex UInt16 :=
  .any (Utf16.word "interest meeting") [
    .all [Utf16.word "info", .opt (Utf16.word "rmation"), Utf16.word " session"],
    Utf16.word "coffee chat",
    .all [Utf16.word "recruit", .any (Utf16.word "ing") [Utf16.word "ment"], Utf16.word " event"],
    .all [Utf16.word "boot", .opt (.one Utf16.isSpace), Utf16.word "camp"],
    Utf16.word "expo"]

/-- `/forms\.gle|docs\.google\.com\/forms|qualtrics|\/apply/i`. -/
def applicationUrlPattern : Regex UInt16 :=
  .any (Utf16.word "forms.gle") [Utf16.word "docs.google.com/forms", Utf16.word "qualtrics",
    Utf16.word "/apply"]

/-- `/(?:instagram|ig)\s*[:@]?\s*@?([a-z0-9._]{3,30})/gi`. -/
def handlePattern : Regex UInt16 :=
  .all [
    .any (Utf16.word "instagram") [Utf16.word "ig"],
    .run Utf16.isSpace 0 none,
    .opt (.one fun u => u ∈ Utf16.of ":@"),
    .run Utf16.isSpace 0 none,
    .opt (Utf16.unit '@'),
    .group 1 (.run (fun u => Utf16.isLower (Utf16.lower u) ∨ Utf16.isDigit u ∨
      u ∈ Utf16.of "._") 3 (some 30))]

/-- `/https?:\/\/\S+/g`. -/
def linkPattern : Regex UInt16 :=
  .all [Utf16.literal "http", .opt (Utf16.literal "s"), Utf16.literal "://",
    .run (fun u => ¬ Utf16.isSpace u) 1 none]

/-- `temporalPrecision` of a date with a time or without. -/
def precision (time : Option Utf16) : TemporalPrecision :=
  if time.isSome then .dateTime else .date

def TemporalPrecision.text : TemporalPrecision → String
  | .date => "date"
  | .dateTime => "date_time"
  | .relativeInferred => "relative_inferred"

/-- The claims that the words of a text make about the application. -/
def stateClaims (text : Utf16) : List ExtractedClaim :=
  (if closedPattern.test text then
    [⟨.applicationOpen, .bool false, 98 / 100, some "Explicit closed-language in source", none⟩,
      ⟨.status, .str "closed", 98 / 100, some "Explicit closed-language in source", none⟩]
  else []) ++
    if openPattern.test text then
      [⟨.applicationOpen, .bool true, 92 / 100, some "Explicit open-language in source", none⟩]
    else []

/-- The line speaks of the deadline of an application. -/
def isDeadlineLine (line : Utf16) : Bool := applicationPattern.test line && duePattern.test line

/-- The phrase of a line that contains the deadline. -/
def relevant (line : Utf16) : Utf16 := ((phrasePattern.search line).map (·.text)).getD line

/-- The deadline that a line states. -/
def deadlineOf (line : Utf16) (publishedAt : Option String) :
    Except String (List ExtractedClaim) :=
  if isDeadlineLine line then
    (dateFromText getTime now (relevant line) publishedAt).bind fun
      | none => .ok []
      | some date =>
          let time := timeFromText (relevant line)
          (combineDateTime zone date time).bind fun value =>
            .ok [⟨.applicationDeadline, .str value, 94 / 100, some (Utf16.decode (relevant line)),
              some (precision time)⟩]
  else .ok []

/-- The event that a line announces. -/
def eventOf (line : Utf16) (publishedAt : Option String) :
    Except String (List ExtractedClaim) :=
  if eventPattern.test line then
    (dateFromText getTime now line publishedAt).bind fun
      | none => .ok []
      | some date =>
          let time := timeFromText line
          (combineDateTime zone date time).bind fun startsAt =>
            .ok [⟨.event, .obj ([
                ("title", .str (Utf16.decode ((linkPattern.replaceAll [] line).take 160))),
                ("startsAt", .str startsAt),
                ("startsAtPrecision", .str (precision time).text)] ++
                ((extractUrls line).head?.map fun url => ("url", .str (Utf16.decode url))).toList),
              84 / 100, some (Utf16.decode line), none⟩]
  else .ok []

/-- The claims of the lines of a text; an exception ends them. -/
def lineClaims (publishedAt : Option String) : List Utf16 → Except String (List ExtractedClaim)
  | [] => .ok []
  | line :: lines =>
      (deadlineOf zone getTime now line publishedAt).bind fun deadlines =>
        (eventOf zone getTime now line publishedAt).bind fun events =>
          (lineClaims publishedAt lines).bind fun claims =>
            .ok (deadlines ++ events ++ claims)

/-- The links that look like applications. -/
def urlClaims (discoveredUrls : List Utf16) : List ExtractedClaim :=
  (discoveredUrls.filter applicationUrlPattern.test).map fun url =>
    ⟨.applicationUrl, .str (Utf16.decode url), 90 / 100,
      some ("Application-like URL: " ++ Utf16.decode url), none⟩

/-- The accounts that a text names. -/
def handleClaims (text : Utf16) : List ExtractedClaim :=
  (handlePattern.matchAll text).map fun h =>
    ⟨.socialHandle, .obj ([("platform", .str "instagram")] ++
      ((h.group 1).map fun handle => ("handle", .str (Utf16.decode handle))).toList),
      72 / 100, some (Utf16.decode h.text), none⟩

/-- `ExtractionResult`. -/
structure ExtractionResult where
  claims : List ExtractedClaim
  discoveredUrls : List String
deriving Repr, DecidableEq

/-- `source.rawText.replace(/\r/g, '')`. -/
def withoutReturns (rawText : String) : Utf16 := (Utf16.of rawText).filter (· ≠ 13)

/-- The lines of a text that are not empty. -/
def linesOf (text : Utf16) : List Utf16 := ((Utf16.split 10 text).map Utf16.trim).filter (· ≠ [])

/-- `heuristicExtract(source)`. -/
def heuristicExtract (source : SourceItem) : Except String ExtractionResult :=
  let text := withoutReturns source.rawText
  let discoveredUrls := extractUrls text
  (lineClaims zone getTime now source.publishedAt (linesOf text)).bind fun lines =>
    .ok ⟨stateClaims text ++ lines ++ urlClaims discoveredUrls ++ handleClaims text,
      discoveredUrls.map Utf16.decode⟩

end

end RecruitingOs
