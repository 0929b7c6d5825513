import RecruitingOs.Extractor.HeuristicExtract
import RecruitingOs.Lib.Escaping

/-!
# Web pages

`src/connectors/web.ts`: the text, the title and the links that the connector reads from a page.
The five entities that `escapeHtml` of `src/http/ui.ts` writes are decoded by one replacement after
the other, the ampersand first, so an entity that the page shows as text is decoded once more
(`decodeEntities_escapeHtml_iff`).
-/

namespace RecruitingOs.WebConnector

open Regex

/-- `decodeEntities(s)`. -/
def decodeEntities (s : Utf16) : Utf16 :=
  let s := (Utf16.literal "&amp;").replaceAll (Utf16.of "&") s
  let s := (Utf16.literal "&quot;").replaceAll (Utf16.of "\"") s
  let s := (Utf16.literal "&#39;").replaceAll (Utf16.of "'") s
  let s := (Utf16.literal "&lt;").replaceAll (Utf16.of "<") s
  (Utf16.literal "&gt;").replaceAll (Utf16.of ">") s

/-- `escapeHtml(value)` of the user interface. -/
def escapeHtml (value : Utf16) : Utf16 :=
  value.flatMap fun c =>
    if [c] = Utf16.of "&" then Utf16.of "&amp;"
    else if [c] = Utf16.of "<" then Utf16.of "&lt;"
    else if [c] = Utf16.of ">" then Utf16.of "&gt;"
    else if [c] = Utf16.of "\"" then Utf16.of "&quot;"
    else if [c] = Utf16.of "'" then Utf16.of "&#39;"
    else [c]

/-! ### Reading a page -/

/-- `[\s\S]*?`. -/
def anything : Regex UInt16 := .lazyRun (fun _ => true) 0 none

/-- `[^>]*`, or `[^>]+`. -/
def insideTag (min : ℕ) : Regex UInt16 := .run (fun u => u ∉ Utf16.of ">") min none

/-- `/<script[\s\S]*?<\/script>/gi`. -/
def scriptPattern : Regex UInt16 := .all [Utf16.word "<script", anything, Utf16.word "</script>"]

/-- `/<style[\s\S]*?<\/style>/gi`. -/
def stylePattern : Regex UInt16 := .all [Utf16.word "<style", anything, Utf16.word "</style>"]

/-- `/<[^>]+>/g`. -/
def tagPattern : Regex UInt16 := .all [Utf16.unit '<', insideTag 1, Utf16.unit '>']

/-- `/\s+/g`. -/
def spacePattern : Regex UInt16 := .run Utf16.isSpace 1 none

/-- The text of a page as it is written, which `stripTags` decodes. -/
def withoutTags (html : Utf16) : Utf16 :=
  let html := scriptPattern.replaceAll (Utf16.of " ") html
  let html := stylePattern.replaceAll (Utf16.of " ") html
  let html := tagPattern.replaceAll (Utf16.of " ") html
  let html := spacePattern.replaceAll (Utf16.of " ") html
  Utf16.trim html

/-- `stripTags(html)`. -/
def stripTags (html : Utf16) : Utf16 := decodeEntities (withoutTags html)

/-- `/<a\b[^>]*href=["']([^"']+)["'][^>]*>/gi`. -/
def anchorPattern : Regex UInt16 :=
  .all [
    Utf16.word "<a",
    .boundary Utf16.isWord,
    insideTag 0,
    Utf16.word "href=",
    .one fun u => u ∈ Utf16.of "\"'",
    .group 1 (.run (fun u => u ∉ Utf16.of "\"'") 1 none),
    .one fun u => u ∈ Utf16.of "\"'",
    insideTag 0,
    Utf16.unit '>']

/-- The attributes that the pattern reads, as they are written. -/
def hrefs (html : Utf16) : List Utf16 :=
  ((anchorPattern.matchAll html).filterMap fun m => m.group 1).filter (· ≠ [])

/-- `linksFromHtml(html, base)`; `resolve` is `new URL(href, base).toString()`, `none` where it
throws. -/
def linksFromHtml (resolve : Utf16 → Option Utf16) (html : Utf16) : List Utf16 :=
  ((hrefs html).filterMap fun href => resolve (decodeEntities href)).eraseDups

/-- `/<title[^>]*>([\s\S]*?)<\/title>/i`. -/
def titlePattern : Regex UInt16 :=
  .all [Utf16.word "<title", insideTag 0, Utf16.unit '>', .group 1 anything,
    Utf16.word "</title>"]

/-- `titleFromHtml(html)`. -/
def titleFromHtml (html : Utf16) : Option Utf16 :=
  match (titlePattern.search html).bind fun m => m.group 1 with
  | some title => if title = [] then none else some (stripTags title)
  | none => none

/-- What `fetchSource` reads from a page. -/
structure WebPage where
  url : String
  title : Option Utf16
  rawText : Utf16
  links : List Utf16
deriving DecidableEq

/-- The response of the client. -/
structure PageResponse where
  ok : Bool
  status : ℕ
  contentType : Option String
  url : String
  body : Utf16

/-- `fetchSource(orgId, url, sourceType)` behind the request. -/
def fetchSource (newUrl : (base : String) → Utf16 → Option Utf16) (url : String)
    (r : PageResponse) : Except String WebPage :=
  if ¬ r.ok then .error ("Fetch failed " ++ toString r.status ++ ": " ++ url)
  else
    let ct := r.contentType.getD ""
    let finalUrl := if r.url = "" then url else r.url
    if ¬ includes ct "text/html" ∧ ¬ includes ct "text/plain" then
      .error ("Unsupported content-type " ++ ct)
    else
      .ok {
        url := finalUrl
        title := if includes ct "html" then titleFromHtml r.body else none
        rawText := if includes ct "html" then stripTags r.body else r.body
        links :=
          if includes ct "html" then linksFromHtml (newUrl finalUrl) r.body
          else extractUrls r.body }

/-! ### Decoding what was escaped -/

/-- The entities, by the unit that each stands for. -/
def htmlEntities : Entities UInt16 where
  mark := 38
  name c :=
    if c = 38 then Utf16.of "amp;"
    else if c = 34 then Utf16.of "quot;"
    else if c = 39 then Utf16.of "#39;"
    else if c = 60 then Utf16.of "lt;"
    else Utf16.of "gt;"

/-- The units that are decoded behind the ampersand. -/
def quoted : List UInt16 := [34, 39, 60, 62]

theorem replaceAll_literal {c : UInt16} {name letter : String}
    (hname : Utf16.of name = htmlEntities.entity c) (hletter : Utf16.of letter = [c]) (s : Utf16) :
    (Utf16.literal name).replaceAll (Utf16.of letter) s = htmlEntities.replace s c := by
  rw [Entities.replace, ← hname, ← hletter]
  rfl

theorem decodeEntities_eq (s : Utf16) :
    decodeEntities s = htmlEntities.decode (htmlEntities.mark :: quoted) s := by
  unfold decodeEntities
  dsimp only
  rw [replaceAll_literal (c := 62) (by decide) (by decide),
    replaceAll_literal (c := 60) (by decide) (by decide),
    replaceAll_literal (c := 39) (by decide) (by decide),
    replaceAll_literal (c := 34) (by decide) (by decide),
    replaceAll_literal (c := 38) (by decide) (by decide), Entities.decode, quoted]
  simp only [List.foldl_cons, List.foldl_nil, htmlEntities]

theorem escapeHtml_eq (s : Utf16) :
    escapeHtml s = htmlEntities.escape (htmlEntities.mark :: quoted) s := by
  unfold escapeHtml Entities.escape
  congr 1
  funext c
  have hof : Utf16.of "&" = [38] ∧ Utf16.of "<" = [60] ∧ Utf16.of ">" = [62] ∧
      Utf16.of "\"" = [34] ∧ Utf16.of "'" = [39] := by decide
  obtain ⟨hamp, hlt, hgt, hquot, hapos⟩ := hof
  rw [hamp, hlt, hgt, hquot, hapos]
  simp only [List.cons.injEq, and_true]
  by_cases hmem : c ∈ htmlEntities.mark :: quoted
  · rw [if_pos hmem]
    revert c
    decide
  · rw [if_neg hmem]
    simp only [quoted, htmlEntities, List.mem_cons, List.not_mem_nil, or_false, not_or] at hmem
    obtain ⟨h38, h34, h39, h60, h62⟩ := hmem
    rw [if_neg h38, if_neg h60, if_neg h62, if_neg h34, if_neg h39]

theorem htmlEntities_name_ne_nil (c : UInt16) : htmlEntities.name c ≠ [] := by
  simp only [htmlEntities]
  repeat' split
  all_goals decide

theorem htmlEntities_apart : htmlEntities.Apart (htmlEntities.mark :: quoted) where
  mark_notMem := by decide
  special_notMem := by decide
  prefix_eq := by decide

/-- The text has none of the entities of a quote or of an angle bracket. -/
def ShowsNoEntity (s : Utf16) : Prop :=
  ∀ entity ∈ ["&quot;", "&#39;", "&lt;", "&gt;"], ¬ Utf16.of entity <:+: s

instance : DecidablePred ShowsNoEntity := fun s =>
  inferInstanceAs (Decidable (∀ entity ∈ ["&quot;", "&#39;", "&lt;", "&gt;"],
    ¬ Utf16.of entity <:+: s))

theorem showsNoEntity_iff {s : Utf16} :
    ShowsNoEntity s ↔ ∀ c ∈ quoted, ¬ htmlEntities.entity c <:+: s := by
  have hentities : ["&quot;", "&#39;", "&lt;", "&gt;"].map Utf16.of =
      quoted.map htmlEntities.entity := by decide
  have hmap (P : Utf16 → Prop) :
      (∀ entity ∈ ["&quot;", "&#39;", "&lt;", "&gt;"], P (Utf16.of entity)) ↔
        ∀ c ∈ quoted, P (htmlEntities.entity c) := by
    rw [← List.forall_mem_map, hentities, List.forall_mem_map]
  exact hmap fun entity => ¬ entity <:+: s

theorem decodeEntities_escapeHtml (s : Utf16) :
    decodeEntities (escapeHtml s) = htmlEntities.decode quoted s := by
  rw [decodeEntities_eq, escapeHtml_eq]
  exact Entities.decode_escape htmlEntities_apart (by decide)

theorem decodeEntities_escapeHtml_eq {s : Utf16} :
    decodeEntities (escapeHtml s) = s ↔ ShowsNoEntity s := by
  rw [decodeEntities_escapeHtml, showsNoEntity_iff]
  exact Entities.decode_eq_self_iff htmlEntities_name_ne_nil

/-- What has been decoded shows no entity. -/
theorem showsNoEntity_decodeEntities (s : Utf16) :
    ShowsNoEntity (decodeEntities (escapeHtml s)) := by
  rw [decodeEntities_escapeHtml, showsNoEntity_iff]
  exact Entities.not_infix_decode (by decide)

/-- A page of HTML. -/
def PageResponse.IsHtml (r : PageResponse) : Prop :=
  r.ok ∧ includes (r.contentType.getD "") "text/html"

/-- The address that the links are resolved against. -/
def PageResponse.finalUrl (r : PageResponse) (url : String) : String :=
  if r.url = "" then url else r.url

theorem fetchSource_html {newUrl : String → Utf16 → Option Utf16} {url : String}
    {r : PageResponse} (h : r.IsHtml) : fetchSource newUrl url r = .ok {
      url := r.finalUrl url
      title := titleFromHtml r.body
      rawText := stripTags r.body
      links := linksFromHtml (newUrl (r.finalUrl url)) r.body } := by
  obtain ⟨hok, hct⟩ := h
  have hhtml : includes (r.contentType.getD "") "html" = true := by
    have hpart : "html".toList <:+: "text/html".toList := by decide
    exact decide_eq_true (hpart.trans (of_decide_eq_true hct))
  unfold fetchSource
  rw [if_neg (not_not.mpr hok)]
  dsimp only
  rw [if_neg fun hneither => hneither.1 hct, if_pos hhtml, if_pos hhtml, if_pos hhtml]
  rfl

theorem stripTags_escaped_iff {html s : Utf16} (h : withoutTags html = escapeHtml s) :
    stripTags html = s ↔ ShowsNoEntity s := by
  rw [stripTags, h]
  exact decodeEntities_escapeHtml_eq

/-- The links of a page are resolved as the page shows them when none of them shows an entity, and
only then: some parser of addresses tells the others apart. -/
theorem linksFromHtml_escaped_iff {html : Utf16} {shown : List Utf16}
    (h : hrefs html = shown.map escapeHtml) :
    (∀ resolve, linksFromHtml resolve html = (shown.filterMap resolve).eraseDups) ↔
      ∀ href ∈ shown, ShowsNoEntity href := by
  have hlinks (resolve : Utf16 → Option Utf16) : linksFromHtml resolve html =
      (shown.filterMap fun href => resolve (decodeEntities (escapeHtml href))).eraseDups := by
    rw [linksFromHtml, h, List.filterMap_map]
    rfl
  constructor
  · intro hall href hmem
    by_contra hshows
    -- a parser that knows no address but this one
    have hsame := (hlinks _).symm.trans (hall fun text => if text = href then some [] else none)
    have hnone : (shown.filterMap fun other =>
        if decodeEntities (escapeHtml other) = href then some ([] : Utf16) else none) = [] := by
      rw [List.filterMap_eq_nil_iff]
      intro other _
      refine if_neg fun heq => hshows ?_
      rw [← heq]
      exact showsNoEntity_decodeEntities other
    have hsome : ([] : Utf16) ∈ shown.filterMap fun text => if text = href then some [] else none :=
      List.mem_filterMap.mpr ⟨href, hmem, if_pos rfl⟩
    rw [hnone] at hsame
    rw [← List.mem_eraseDups, ← hsame] at hsome
    cases hsome
  · intro hall resolve
    rw [hlinks]
    refine congrArg List.eraseDups (List.filterMap_congr fun href hmem => ?_)
    rw [decodeEntities_escapeHtml_eq.mpr (hall href hmem)]

section Page

variable {url : String} {r : PageResponse}

theorem fetchSource_text_iff {newUrl : String → Utf16 → Option Utf16} (hhtml : r.IsHtml)
    {s : Utf16} (h : withoutTags r.body = escapeHtml s) :
    (∃ page, fetchSource newUrl url r = .ok page ∧ page.rawText = s) ↔ ShowsNoEntity s := by
  rw [← stripTags_escaped_iff h]
  constructor
  · rintro ⟨page, hpage, htext⟩
    rw [fetchSource_html hhtml, Except.ok.injEq] at hpage
    rw [← hpage] at htext
    simpa only using htext
  · intro htext
    refine ⟨_, fetchSource_html hhtml, ?_⟩
    simpa only using htext

theorem fetchSource_links_iff (hhtml : r.IsHtml) {shown : List Utf16}
    (h : hrefs r.body = shown.map escapeHtml) :
    (∀ newUrl, ∃ page, fetchSource newUrl url r = .ok page ∧
        page.links = (shown.filterMap (newUrl (r.finalUrl url))).eraseDups) ↔
      ∀ href ∈ shown, ShowsNoEntity href := by
  rw [← linksFromHtml_escaped_iff h]
  constructor
  · intro hall resolve
    obtain ⟨page, hpage, hlinks⟩ := hall fun _ => resolve
    rw [fetchSource_html hhtml, Except.ok.injEq] at hpage
    rw [← hpage] at hlinks
    simpa only using hlinks
  · intro hall newUrl
    refine ⟨_, fetchSource_html hhtml, ?_⟩
    simpa only using hall (newUrl (r.finalUrl url))

end Page

/-- **Entities are decoded once** exactly where the escaped text does not show one of those that are
decoded after the ampersand: so for any text, for the text of a page and for its links. -/
theorem decodeEntities_escapeHtml_iff (s : Utf16) (newUrl : String → Utf16 → Option Utf16)
    (url : String) (r : PageResponse) (shown : List Utf16) :
    (decodeEntities (escapeHtml s) = s ↔ ShowsNoEntity s) ∧
    (r.IsHtml → withoutTags r.body = escapeHtml s →
      ((∃ page, fetchSource newUrl url r = .ok page ∧ page.rawText = s) ↔ ShowsNoEntity s)) ∧
    (r.IsHtml → hrefs r.body = shown.map escapeHtml →
      ((∀ newUrl', ∃ page, fetchSource newUrl' url r = .ok page ∧
          page.links = (shown.filterMap (newUrl' (r.finalUrl url))).eraseDups) ↔
        ∀ href ∈ shown, ShowsNoEntity href)) :=
  ⟨decodeEntities_escapeHtml_eq, fun hhtml => fetchSource_text_iff hhtml,
    fun hhtml => fetchSource_links_iff hhtml⟩

/-- A page with an ampersand and an angle bracket in its text, and an ampersand in its link. -/
def clubPage : PageResponse where
  ok := true
  status := 200
  contentType := some "text/html; charset=utf-8"
  url := ""
  body := Utf16.of "<p>Salt &amp; Pepper &lt; 5</p><a href=\"/x?a=1&amp;b=2\">Apply</a>"

/-- They come back as they are shown. -/
theorem decodeEntities_escapeHtml_club :
    decodeEntities (escapeHtml (Utf16.of "Salt & Pepper < 5")) = Utf16.of "Salt & Pepper < 5" ∧
    (∃ page, fetchSource (fun _ => some) "https://club.example" clubPage = .ok page ∧
      page.rawText = Utf16.of "Salt & Pepper < 5 Apply") ∧
    ∀ newUrl, ∃ page, fetchSource newUrl "https://club.example" clubPage = .ok page ∧
      page.links = ([Utf16.of "/x?a=1&b=2"].filterMap
        (newUrl (clubPage.finalUrl "https://club.example"))).eraseDups := by
  have hhtml : clubPage.IsHtml := ⟨rfl, by decide⟩
  have htext : withoutTags clubPage.body = escapeHtml (Utf16.of "Salt & Pepper < 5 Apply") := by
    decide +kernel
  have hread : hrefs clubPage.body = [Utf16.of "/x?a=1&b=2"].map escapeHtml := by
    decide +kernel
  have hplain := decodeEntities_escapeHtml_iff (Utf16.of "Salt & Pepper < 5") (fun _ => some)
    "https://club.example" clubPage [Utf16.of "/x?a=1&b=2"]
  have hpage := decodeEntities_escapeHtml_iff (Utf16.of "Salt & Pepper < 5 Apply") (fun _ => some)
    "https://club.example" clubPage [Utf16.of "/x?a=1&b=2"]
  exact ⟨hplain.1.mpr (by decide +kernel), (hpage.2.1 hhtml htext).mpr (by decide +kernel),
    (hpage.2.2 hhtml hread).mpr (by decide +kernel)⟩

/-- A text that shows the entity of an angle bracket is decoded twice. -/
theorem decodeEntities_not_escapeHtml : ¬ ∀ s, decodeEntities (escapeHtml s) = s := by
  intro h
  exact absurd (h (Utf16.of "&lt;")) (by decide +kernel)

end RecruitingOs.WebConnector
