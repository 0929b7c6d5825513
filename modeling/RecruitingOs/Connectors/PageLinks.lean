import RecruitingOs.Connectors.PageText

/-!
# Links of a page

Which attributes `linksFromHtml` reads from a page of texts, tags and links.  Its pattern goes on to
the last `href=` of a tag with a quote behind it, so a link must not end in `href=` itself; other
links are read as they are written (`hrefs_html`), and resolved as they are shown unless one of them
shows an entity (`fetchSource_page_iff`).
-/

namespace RecruitingOs.WebConnector

open Regex

/-- The pattern takes the tag for an anchor. -/
def Tag.IsAnchor (t : Tag) : Prop :=
  (t.content.head?.any fun u => Utf16.lower u = 97) ∧ ¬ t.content.tail.head?.any Utf16.isWord

/-- A part from which the pattern reads what is written there. -/
def PagePart.Legible : PagePart → Prop
  | .text _ => True
  | .tag t => ¬ t.IsAnchor
  | .link href => href ≠ [] ∧ ¬ Utf16.of "href=" <:+ href.map Utf16.lower

/-- The link of a part. -/
def PagePart.link? : PagePart → Option Utf16
  | .text _ | .tag _ => none
  | .link href => some href

/-! ### Where the pattern stops -/

/-- Two texts split at a letter of a kind are split at the same place: one has no such letter
before, and the other one none before either or none behind. -/
theorem split_at_letter {α : Type} {p : α → Prop} {u u' v v' : List α} {a b : α}
    (h : u ++ a :: v = u' ++ b :: v') (ha : p a) (hu' : ∀ x ∈ u', ¬ p x)
    (hb : (p b ∧ ∀ x ∈ u, ¬ p x) ∨ ∀ x ∈ v', ¬ p x) : u = u' ∧ a = b ∧ v = v' := by
  rcases List.append_eq_append_iff.mp h with ⟨t, rfl, ht⟩ | ⟨t, rfl, ht⟩
  · cases t with
    | nil =>
        obtain ⟨rfl, rfl⟩ := List.cons.inj ht
        exact ⟨(List.append_nil u).symm, rfl, rfl⟩
    | cons x t =>
        obtain ⟨rfl, -⟩ := List.cons.inj ht
        exact absurd ha (hu' a (List.mem_append_right u List.mem_cons_self))
  · cases t with
    | nil =>
        obtain ⟨rfl, rfl⟩ := List.cons.inj ht
        exact ⟨List.append_nil u', rfl, rfl⟩
    | cons x t =>
        obtain ⟨rfl, rfl⟩ := List.cons.inj ht
        rcases hb with ⟨hb, hu⟩ | hv'
        · exact absurd hb (hu b (List.mem_append_right u' List.mem_cons_self))
        · exact absurd ha (hv' a (List.mem_append_right t List.mem_cons_self))

/-- A text without a semicolon that an escape ends with, the text ends with. -/
theorem suffix_of_suffix_escapeHtml {u s : Utf16} (hu : 59 ∉ u) (h : u <:+ escapeHtml s) :
    u <:+ s := by
  have hends : ∀ c ∈ htmlEntities.mark :: quoted, ∃ name, htmlEntities.entity c = name ++ [59] := by
    intro c hc
    have hlast : ∀ c ∈ htmlEntities.mark :: quoted, (htmlEntities.entity c).getLast? = some 59 := by
      decide
    exact (List.getLast?_eq_some_iff.mp (hlast c hc))
  induction u using List.reverseRecOn generalizing s with
  | nil => exact List.nil_suffix
  | append_singleton u a ih =>
      rw [List.mem_append, List.mem_singleton, not_or] at hu
      induction s using List.reverseRecOn with
      | nil => exact absurd (List.suffix_nil.mp h) (by simp)
      | append_singleton s b _ =>
          rw [escapeHtml_append, escapeHtml_eq [b], Entities.escape_singleton] at h
          split at h
          · rename_i hb
            obtain ⟨name, hname⟩ := hends b hb
            rw [hname, ← List.append_assoc] at h
            obtain ⟨t, ht⟩ := h
            rw [← List.append_assoc] at ht
            have hsame := (List.append_inj' ht rfl).2
            exact absurd (List.cons.inj hsame).1.symm hu.2
          · obtain ⟨t, ht⟩ := h
            rw [← List.append_assoc] at ht
            obtain ⟨hfront, hsame⟩ := List.append_inj' ht rfl
            obtain ⟨t', ht'⟩ := ih hu.1 ⟨t, hfront⟩
            exact ⟨t', by rw [← List.append_assoc, ht', hsame]⟩

/-! ### What the pattern reads -/

def isQuote (u : UInt16) : Bool := u ∈ Utf16.of "\"'"

/-- A match by its parts. -/
structure AnchorParts (w : Utf16) (f : Found UInt16) where
  opening : Utf16
  before : Utf16
  name : Utf16
  quote : UInt16
  href : Utf16
  closing : UInt16
  after : Utf16
  text : w = opening ++ (before ++ (name ++ quote :: (href ++ closing :: (after ++ 62 :: f.rest))))
  opening_lower : opening.map Utf16.lower = (Utf16.of "<a").map Utf16.lower
  edge : ¬ (w.drop 2).head?.any Utf16.isWord
  before_inside : ∀ u ∈ before, u ≠ 62
  name_lower : name.map Utf16.lower = Utf16.of "href="
  isQuote_quote : isQuote quote
  href_inside : ∀ u ∈ href, ¬ isQuote u
  isQuote_closing : isQuote closing
  after_inside : ∀ u ∈ after, u ≠ 62
  group : f.group 1 = some href

theorem opening_eq {opening : Utf16}
    (h : opening.map Utf16.lower = (Utf16.of "<a").map Utf16.lower) :
    ∃ x y, opening = [x, y] ∧ Utf16.lower x = 60 ∧ Utf16.lower y = 97 := by
  rw [show (Utf16.of "<a").map Utf16.lower = [60, 97] by decide] at h
  obtain ⟨x, others, rfl, hx, hothers⟩ := List.map_eq_cons_iff.mp h
  obtain ⟨y, others, rfl, hy, hnil⟩ := List.map_eq_cons_iff.mp hothers
  obtain rfl := List.map_eq_nil_iff.mp hnil
  exact ⟨x, y, rfl, hx, hy⟩

theorem isWord_of_lower {u : UInt16} (h : Utf16.lower u = 97) : Utf16.isWord u = true := by
  rcases Utf16.eq_of_lower_eq h with rfl | rfl <;> decide

theorem exists_anchorParts {f : Found UInt16} {w : Utf16}
    (h : f ∈ anchorPattern.matchesAt none w) : Nonempty (AnchorParts w f) := by
  obtain ⟨o, ho, f₁, h₁, rfl⟩ := mem_matchesAt_seq.mp h
  obtain ⟨opening, w₁, rfl, hopening, rfl⟩ := Utf16.mem_matchesAt_word.mp ho
  obtain ⟨edge, hedge, f₂, h₂, rfl⟩ := mem_matchesAt_seq.mp h₁
  obtain ⟨hword, rfl⟩ := mem_matchesAt_boundary.mp hedge
  obtain ⟨before, hbefore, f₃, h₃, rfl⟩ := mem_matchesAt_seq.mp h₂
  obtain ⟨n, hn, f₄, h₄, rfl⟩ := mem_matchesAt_seq.mp h₃
  obtain ⟨name, w₄, hname, hlower, rfl⟩ := Utf16.mem_matchesAt_word.mp hn
  obtain ⟨q, hq, f₅, h₅, rfl⟩ := mem_matchesAt_seq.mp h₄
  obtain ⟨quote, w₅, rfl, hquote, rfl⟩ := mem_matchesAt_one.mp hq
  obtain ⟨g, hg, f₆, h₆, rfl⟩ := mem_matchesAt_seq.mp h₅
  obtain ⟨href, hhref, rfl⟩ := mem_matchesAt_group.mp hg
  obtain ⟨c, hc, f₇, h₇, rfl⟩ := mem_matchesAt_seq.mp h₆
  obtain ⟨closing, w₇, hclosing, hquote', rfl⟩ := mem_matchesAt_one.mp hc
  obtain ⟨after, hafter, f₈, h₈, rfl⟩ := mem_matchesAt_seq.mp h₇
  obtain ⟨e, he, f₉, h₉, rfl⟩ := mem_matchesAt_seq.mp h₈
  obtain ⟨last, w₉, hlast, hend, rfl⟩ := mem_matchesAt_one.mp he
  obtain rfl := mem_matchesAt_empty.mp h₉
  have hend : last = 62 := by simpa [show Utf16.of ">" = [62] by decide] using hend
  obtain ⟨x, y, rfl, hx, hy⟩ := opening_eq hopening
  have hbeforeText : before.text ++ (name ++ quote :: w₅) = w₁ := by
    rw [← hname]
    exact text_append_rest hbefore
  have hhrefText : href.text ++ closing :: w₇ = w₅ := by
    rw [← hclosing]
    exact text_append_rest hhref
  have hafterText : after.text ++ 62 :: w₉ = w₇ := by
    rw [← hend, ← hlast]
    exact text_append_rest hafter
  have hinside : ∀ {f : Found UInt16} {prev w}, f ∈ (insideTag 0).matchesAt prev w →
      ∀ u ∈ f.text, u ≠ 62 := fun hf u hu => by
    simpa [show Utf16.of ">" = [62] by decide] using forall_mem_run hf u hu
  exact ⟨{
    opening := [x, y]
    before := before.text
    name := name
    quote := quote
    href := href.text
    closing := closing
    after := after.text
    text := by rw [hafterText, hhrefText, hbeforeText]
    opening_lower := hopening
    edge := by
      have hletter : Utf16.isWord y = true := isWord_of_lower hy
      intro hboth
      exact hword (hletter.trans hboth.symm)
    before_inside := hinside hbefore
    name_lower := by rw [hlower]; decide
    isQuote_quote := hquote
    href_inside := fun u hu => by simpa [isQuote] using forall_mem_run hhref u hu
    isQuote_closing := hquote'
    after_inside := hinside hafter
    group := by
      simp only [Found.group, groups_eq_nil rfl hbefore, List.nil_append, List.cons_append,
        List.lookup_cons_self] }⟩

theorem local_anchorPattern : anchorPattern.Local := (Utf16.local_word (by decide)).seq

theorem matchAt_anchorPattern_of_ne {u : UInt16} (hu : u ≠ 60) (rest : Utf16) :
    anchorPattern.matchAt none (u :: rest) = none := by
  refine matchAt_seq_eq_none (Utf16.matchesAt_word_eq_nil fun h => ?_)
  rw [show (Utf16.of "<a").map Utf16.lower = [60, 97] by decide, List.map_cons] at h
  exact hu (lower_eq_lt (List.cons_prefix_cons.mp h).1.symm)

/-- Another tag is not read. -/
theorem matchAt_anchorPattern_tag {t : Tag} (ht : ¬ t.IsAnchor) (rest : Utf16) :
    anchorPattern.matchAt none (60 :: (t.content ++ 62 :: rest)) = none := by
  rw [matchAt_eq_none, List.eq_nil_iff_forall_not_mem]
  intro f hf
  obtain ⟨c, cs, hcontent⟩ := List.exists_cons_of_ne_nil t.ne_nil
  rw [hcontent] at hf
  obtain ⟨parts⟩ := exists_anchorParts hf
  obtain ⟨x, y, hopening, -, hy⟩ := opening_eq parts.opening_lower
  have htext := parts.text
  have hedge := parts.edge
  rw [hopening] at htext
  obtain rfl : c = y := (List.cons.inj (List.cons.inj htext).2).1
  refine ht ⟨by rw [hcontent]; simp [hy], ?_⟩
  rw [hcontent, List.tail_cons]
  cases cs with
  | nil => exact fun h => absurd h (by decide)
  | cons d ds => exact hedge

section Link

variable {href : Utf16} (hne : href ≠ []) (hend : ¬ Utf16.of "href=" <:+ href.map Utf16.lower)

theorem linkTag_html (rest : Utf16) : (linkTag href).html ++ rest =
    [60, 97] ++ ([32] ++ (Utf16.of "href=" ++ 34 :: (escapeHtml href ++ 34 :: (62 :: rest)))) := by
  have hof : Utf16.of "<" = [60] ∧ Utf16.of ">" = [62] ∧ Utf16.of "\"" = [34] ∧
      Utf16.of "a href=\"" = 97 :: 32 :: (Utf16.of "href=" ++ [34]) := by decide
  obtain ⟨hlt, hgt, hquot, hname⟩ := hof
  have hcontent : (linkTag href).content =
      Utf16.of "a href=\"" ++ (escapeHtml href ++ Utf16.of "\"") := rfl
  rw [Tag.html, hcontent, hlt, hgt, hquot, hname]
  simp only [List.append_assoc, List.cons_append, List.nil_append]

theorem not_isQuote_escapeHtml {u : UInt16} (hu : u ∈ escapeHtml href) : ¬ isQuote u := by
  intro hquote
  have hquoted : ∀ u ∈ Utf16.of "\"'", u ∈ quoted := by decide
  exact notMem_escapeHtml (hquoted u (of_decide_eq_true hquote)) href hu

/-- Such a tag is read. -/
theorem exists_matchAt_link (hne : href ≠ []) (rest : Utf16) :
    ∃ f, anchorPattern.matchAt none ((linkTag href).html ++ rest) = some f := by
  have hesc : ∀ u ∈ escapeHtml href, decide (u ∉ Utf16.of "\"'") = true := fun u hu =>
    decide_eq_true fun hmem => not_isQuote_escapeHtml hu (decide_eq_true hmem)
  have hstop : ∀ u : UInt16, (34 :: 62 :: rest : Utf16).head? = some u →
      decide (u ∉ Utf16.of "\"'") = false := by
    intro u hu
    obtain rfl := Option.some_inj.mp hu
    decide
  have hhref : ∀ prev, (⟨escapeHtml href, 34 :: 62 :: rest, []⟩ : Found UInt16) ∈
      (run (fun u => decide (u ∉ Utf16.of "\"'")) 1 none).matchesAt prev
        (escapeHtml href ++ 34 :: 62 :: rest) := fun prev =>
    mem_of_matchAt (matchAt_run_append hesc (List.length_pos_iff.mpr (escapeHtml_ne_nil hne))
      (fun m hm => by cases hm) (.inr hstop))
  have hmem : ∃ f, f ∈ anchorPattern.matchesAt none ((linkTag href).html ++ rest) := by
    rw [linkTag_html]
    -- `<a`, the end of the word, and one space
    refine exists_mem_matchesAt_seq
      (Utf16.mem_matchesAt_word.mpr ⟨[60, 97], _, rfl, by decide, rfl⟩) ?_
    refine exists_mem_matchesAt_seq (mem_matchesAt_boundary.mpr ⟨Bool.noConfusion, rfl⟩) ?_
    refine exists_mem_matchesAt_seq (f := ⟨[32], _, []⟩)
      (mem_matchesAt_run.mpr ⟨1, Nat.zero_le 1, Nat.succ_le_succ (Nat.zero_le _), rfl⟩) ?_
    -- the attribute between its quotes
    refine exists_mem_matchesAt_seq
      (Utf16.mem_matchesAt_word.mpr ⟨Utf16.of "href=", _, rfl, rfl, rfl⟩) ?_
    refine exists_mem_matchesAt_seq (mem_matchesAt_one.mpr ⟨34, _, rfl, by decide, rfl⟩) ?_
    refine exists_mem_matchesAt_seq (mem_matchesAt_group.mpr ⟨_, hhref _, rfl⟩) ?_
    refine exists_mem_matchesAt_seq (mem_matchesAt_one.mpr ⟨34, _, rfl, by decide, rfl⟩) ?_
    -- the end of the tag
    refine exists_mem_matchesAt_seq (f := ⟨[], 62 :: rest, []⟩)
      (mem_matchesAt_run.mpr ⟨0, Nat.le_refl 0, Nat.zero_le _, rfl⟩) ?_
    refine exists_mem_matchesAt_seq (mem_matchesAt_one.mpr ⟨62, _, rfl, by decide, rfl⟩) ?_
    exact ⟨_, mem_matchesAt_empty.mpr rfl⟩
  obtain ⟨f, hmem⟩ := hmem
  cases hfound : anchorPattern.matchAt none ((linkTag href).html ++ rest) with
  | none =>
      rw [matchAt_eq_none.mp hfound] at hmem
      cases hmem
  | some f => exact ⟨f, rfl⟩

/-- The pattern does not stop at the quote behind the link. -/
theorem not_suffix_name (hend : ¬ Utf16.of "href=" <:+ href.map Utf16.lower) {before name : Utf16}
    (hname : name.map Utf16.lower = Utf16.of "href=") :
    before ++ name ≠ [32] ++ (Utf16.of "href=" ++ 34 :: escapeHtml href) := by
  intro h
  have habsent : ∀ u, Utf16.lower u ∉ Utf16.of "href=" → u ∉ name := fun u hu hmem =>
    hu (hname ▸ List.mem_map_of_mem hmem)
  have hsuffix : name <:+ [32] ++ (Utf16.of "href=" ++ 34 :: escapeHtml href) :=
    h ▸ List.suffix_append before name
  have hquoted : 34 :: escapeHtml href <:+ [32] ++ (Utf16.of "href=" ++ 34 :: escapeHtml href) := by
    rw [← List.append_assoc]
    exact List.suffix_append _ _
  have hquote : 34 ∉ name := habsent 34 (by decide)
  rcases List.suffix_or_suffix_of_suffix hsuffix hquoted with hshort | hlong
  · rcases List.suffix_cons_iff.mp hshort with rfl | hhref
    · exact hquote List.mem_cons_self
    · have hown := suffix_of_suffix_escapeHtml (habsent 59 (by decide)) hhref
      rw [← hname] at hend
      exact hend (hown.map Utf16.lower)
  · exact hquote (hlong.subset List.mem_cons_self)

/-- What is read there is the link, and the search goes on behind the tag. -/
theorem matchAt_link {f : Found UInt16}
    (hend : ¬ Utf16.of "href=" <:+ href.map Utf16.lower) {rest : Utf16}
    (h : anchorPattern.matchAt none ((linkTag href).html ++ rest) = some f) :
    f.rest = rest ∧ f.group 1 = some (escapeHtml href) := by
  have hmem := mem_of_matchAt h
  rw [linkTag_html] at hmem
  obtain ⟨opening, before, name, quote, written, closing, after, htext, hopening, -, hbefore, hname,
    hquote, hwritten, hclosing, hafter, hgroup⟩ := exists_anchorParts hmem
  obtain ⟨x, y, rfl, -, -⟩ := opening_eq hopening
  -- the name and its quote are inside the tag
  have hbody : (before ++ name ++ [quote]) ++ (written ++ closing :: (after ++ 62 :: f.rest)) =
      ([32] ++ (Utf16.of "href=" ++ 34 :: escapeHtml href) ++ [34]) ++ 62 :: rest := by
    simpa using (List.cons.inj (List.cons.inj htext).2).2.symm
  have hplain : 62 ∉ before ++ name ++ [quote] := by
    have hmap : 62 ∉ name := fun hmem => by
      have hlower : Utf16.lower 62 ∈ Utf16.of "href=" := hname ▸ List.mem_map_of_mem hmem
      exact absurd hlower (by decide)
    have hne : quote ≠ 62 := by
      rintro rfl
      exact absurd hquote (by decide)
    simp only [List.mem_append, List.mem_singleton, not_or]
    exact ⟨⟨fun hmem => hbefore 62 hmem rfl, hmap⟩, hne.symm⟩
  obtain ⟨t, ht⟩ := prefix_of_notMem hplain (hbody ▸ List.prefix_append _ _)
  rcases List.eq_nil_or_concat t with rfl | ⟨t, z, rfl⟩
  · rw [List.append_nil] at ht
    exact absurd (List.append_inj' ht rfl).1 (not_suffix_name hend hname)
  · rw [List.concat_eq_append, ← List.append_assoc] at ht
    obtain ⟨hfront, hz⟩ := List.append_inj' ht rfl
    have hesc : ∀ u ∈ escapeHtml href, ¬ isQuote u := fun u hu => not_isQuote_escapeHtml hu
    have hnamed : (before ++ name) ++ quote :: t =
        ([32] ++ Utf16.of "href=") ++ 34 :: escapeHtml href := by
      simpa using hfront
    obtain ⟨-, rfl, rfl⟩ := split_at_letter (p := fun u => isQuote u) hnamed hquote (by decide)
      (.inr hesc)
    have hbehind : written ++ closing :: (after ++ 62 :: f.rest) =
        escapeHtml href ++ 34 :: (62 :: rest) := by
      rw [← ht] at hbody
      simpa [hz] using hbody
    obtain ⟨rfl, -, hclosed⟩ := split_at_letter (p := fun u => isQuote u) hbehind hclosing hesc
      (.inl ⟨by decide, hwritten⟩)
    have hended : after ++ 62 :: f.rest = [] ++ 62 :: rest := hclosed
    obtain ⟨-, -, hrest⟩ := split_at_letter (p := fun u => u = 62) hended rfl
      (List.forall_mem_nil _) (.inl ⟨rfl, hafter⟩)
    exact ⟨hrest, hgroup⟩

end Link

theorem matchAll_anchorPattern_text (s rest : Utf16) :
    anchorPattern.matchAll (escapeHtml s ++ rest) = anchorPattern.matchAll rest :=
  local_anchorPattern.matchAll_append fun _ hu _ =>
    matchAt_anchorPattern_of_ne (ne_of_mem_escapeHtml hu) _

theorem matchAll_anchorPattern_tag {t : Tag} (ht : ¬ t.IsAnchor) (rest : Utf16) :
    anchorPattern.matchAll (t.html ++ rest) = anchorPattern.matchAll rest := by
  have hhtml : t.html ++ rest = 60 :: ((t.content ++ [62]) ++ rest) := rfl
  have hnone : anchorPattern.matchAt none (60 :: ((t.content ++ [62]) ++ rest)) = none := by
    rw [← List.append_cons]
    exact matchAt_anchorPattern_tag ht rest
  rw [hhtml, local_anchorPattern.matchAll_cons_none hnone,
    local_anchorPattern.matchAll_append fun u hu _ => matchAt_anchorPattern_of_ne (t.ne_of_mem hu) _]

/-- **The links** of a page are read as they are written. -/
theorem hrefs_html (page : List PagePart) (h : ∀ part ∈ page, part.Legible) :
    hrefs (page.flatMap PagePart.html) = (page.filterMap PagePart.link?).map escapeHtml := by
  induction page with
  | nil =>
      rw [hrefs, List.flatMap_nil, local_anchorPattern.matchAll_nil]
      rfl
  | cons part page ih =>
      rw [List.forall_mem_cons] at h
      have hrest := ih h.2
      unfold hrefs at hrest ⊢
      rw [List.flatMap_cons]
      cases part with
      | text s =>
          rw [PagePart.html, matchAll_anchorPattern_text, hrest]
          rfl
      | tag t =>
          rw [PagePart.html, matchAll_anchorPattern_tag h.1, hrest]
          rfl
      | link href =>
          obtain ⟨hne, hend⟩ := h.1
          obtain ⟨f, hf⟩ := exists_matchAt_link hne (page.flatMap PagePart.html)
          obtain ⟨hbehind, hgroup⟩ := matchAt_link hend hf
          have hkept : (decide (escapeHtml href ≠ [])) = true :=
            decide_eq_true (escapeHtml_ne_nil hne)
          rw [PagePart.html, local_anchorPattern.matchAll_match hf, hbehind,
            List.filterMap_cons_some (f := fun m : Found UInt16 => m.group 1) hgroup,
            List.filter_cons, if_pos hkept, hrest]
          rfl

/-- **What is read of a page** of escaped texts: the text that it shows, unless that shows an
entity, and the links that it has, unless one of them does. -/
theorem fetchSource_page_iff (page : List PagePart) (url : String) {r : PageResponse}
    (hhtml : r.IsHtml) (hbody : r.body = page.flatMap PagePart.html) :
    (∀ newUrl, (∃ read, fetchSource newUrl url r = .ok read ∧ read.rawText = shownText page) ↔
      ShowsNoEntity (shownText page)) ∧
    ((∀ part ∈ page, part.Legible) →
      ((∀ newUrl, ∃ read, fetchSource newUrl url r = .ok read ∧ read.links =
          ((page.filterMap PagePart.link?).filterMap (newUrl (r.finalUrl url))).eraseDups) ↔
        ∀ href ∈ page.filterMap PagePart.link?, ShowsNoEntity href)) := by
  refine ⟨fun newUrl => ?_, fun hlegible => ?_⟩
  · exact fetchSource_text_iff hhtml (hbody ▸ withoutTags_html page)
  · exact fetchSource_links_iff hhtml (hbody ▸ hrefs_html page hlegible)

end RecruitingOs.WebConnector
