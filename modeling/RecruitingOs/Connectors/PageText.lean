import RecruitingOs.Connectors.WebPage

/-!
# Pages of escaped texts

A page that is made of tags and of texts that are escaped once.  What is left of it without its
tags is the escape of the text that it shows, so `stripTags` gives that text unless it shows an
entity (`stripTags_html_iff`).
-/

namespace RecruitingOs.WebConnector

open Regex

/-- A tag that does not begin a script or a style sheet. -/
structure Tag where
  content : Utf16
  ne_nil : content ≠ []
  inside : ∀ u ∈ content, u ∉ Utf16.of "<>"
  name : ∀ opening ∈ ["<script", "<style"],
    ¬ Utf16.of opening <+: (Utf16.of "<" ++ content).map Utf16.lower

theorem notMem_escapeHtml {u : UInt16} (hu : u ∈ quoted) (s : Utf16) : u ∉ escapeHtml s := by
  rw [escapeHtml_eq]
  refine Entities.notMem_escape htmlEntities_apart (List.mem_cons_of_mem _ hu) ?_
  rintro rfl
  exact absurd hu (by decide)

/-- The tag of a link. -/
def linkTag (href : Utf16) : Tag where
  content := Utf16.of "a href=\"" ++ (escapeHtml href ++ Utf16.of "\"")
  ne_nil := List.append_ne_nil_of_left_ne_nil (by decide) _
  inside u hu hmem := by
    have hplain : ∀ u ∈ Utf16.of "<>", u ∈ quoted ∧ u ∉ Utf16.of "a href=\"" ∧
        u ∉ Utf16.of "\"" := by decide
    obtain ⟨hquoted, hfront, hback⟩ := hplain u hmem
    rw [List.mem_append, List.mem_append] at hu
    rcases hu with hu | hu | hu
    · exact hfront hu
    · exact notMem_escapeHtml hquoted href hu
    · exact hback hu
  name opening hopening h := by
    rw [List.map_append, List.map_append] at h
    rcases List.mem_pair.mp hopening with rfl | rfl
    · exact absurd (List.cons_prefix_cons.mp (List.cons_prefix_cons.mp h).2).1 (by decide)
    · exact absurd (List.cons_prefix_cons.mp (List.cons_prefix_cons.mp h).2).1 (by decide)

/-- A part of a page. -/
inductive PagePart
  | text (s : Utf16)
  | tag (t : Tag)
  | link (href : Utf16)

def Tag.html (t : Tag) : Utf16 := Utf16.of "<" ++ (t.content ++ Utf16.of ">")

/-- Behind its first letter a tag opens no other. -/
theorem Tag.ne_of_mem (t : Tag) {u : UInt16} (hu : u ∈ t.content ++ [62]) : u ≠ 60 := by
  rintro rfl
  rcases List.mem_append.mp hu with hmem | hmem
  · exact t.inside 60 hmem (by decide)
  · exact absurd hmem (by decide)

namespace PagePart

/-- A part as it is written. -/
def html : PagePart → Utf16
  | text s => escapeHtml s
  | tag t => t.html
  | link href => (linkTag href).html

/-- A part as it is shown: a tag is a space. -/
def shown : PagePart → Utf16
  | text s => s
  | tag _ | link _ => Utf16.of " "

end PagePart

/-- The text of a page, with its white space collapsed. -/
def shownText (page : List PagePart) : Utf16 :=
  Utf16.trim (spacePattern.replaceAll (Utf16.of " ") (page.flatMap PagePart.shown))

theorem escapeHtml_append (s t : Utf16) : escapeHtml (s ++ t) = escapeHtml s ++ escapeHtml t :=
  List.flatMap_append

/-! ### Without tags -/

/-- A text without a letter, in front of which there is one, ends before it. -/
theorem prefix_of_notMem {α : Type} {u v w : List α} {a : α} (ha : a ∉ u)
    (h : u <+: v ++ a :: w) : u <+: v := by
  rcases List.prefix_or_prefix_of_prefix h (List.prefix_append v (a :: w)) with hle | ⟨t, rfl⟩
  · exact hle
  · cases t with
    | nil => rw [List.append_nil]
    | cons b t =>
        have hfirst := (List.prefix_append_right_inj v).mp h
        obtain rfl := (List.cons_prefix_cons.mp hfirst).1
        exact absurd (List.mem_append_right v List.mem_cons_self) ha

theorem lower_eq_lt {u : UInt16} (h : Utf16.lower u = 60) : u = 60 := by
  rcases Utf16.eq_of_lower_eq h with rfl | rfl
  · rfl
  · exact absurd h (by decide)

theorem ne_of_mem_escapeHtml {u : UInt16} {s : Utf16} (hu : u ∈ escapeHtml s) : u ≠ 60 := by
  rintro rfl
  exact notMem_escapeHtml (by decide) s hu

section Block

variable {opening : String} {tail : Regex UInt16} {r rest : Utf16}
  (hopening : opening ∈ ["<script", "<style"])
include hopening

theorem opening_cons : ∃ name, (Utf16.of opening).map Utf16.lower = 60 :: name ∧
    Utf16.of opening = 60 :: name ∧ 62 ∉ Utf16.of opening := by
  rcases List.mem_pair.mp hopening with rfl | rfl
  · exact ⟨Utf16.of "script", by decide, by decide, by decide⟩
  · exact ⟨Utf16.of "style", by decide, by decide, by decide⟩

theorem local_block : (Regex.seq (Utf16.word opening) tail).Local := by
  obtain ⟨name, -, hof, -⟩ := opening_cons hopening
  refine (Utf16.local_word ?_).seq
  rw [hof]
  exact List.cons_ne_nil _ _

theorem matchAt_block_of_ne {u : UInt16} (hu : u ≠ 60) :
    (Regex.seq (Utf16.word opening) tail).matchAt none (u :: rest) = none := by
  obtain ⟨name, hlower, -⟩ := opening_cons hopening
  refine matchAt_seq_eq_none (Utf16.matchesAt_word_eq_nil fun h => ?_)
  rw [hlower, List.map_cons] at h
  exact hu (lower_eq_lt (List.cons_prefix_cons.mp h).1.symm)

theorem matchAt_block_tag (t : Tag) :
    (Regex.seq (Utf16.word opening) tail).matchAt none (60 :: (t.content ++ 62 :: rest)) = none := by
  obtain ⟨name, hlower, hof, habsent⟩ := opening_cons hopening
  refine matchAt_seq_eq_none (Utf16.matchesAt_word_eq_nil fun h => t.name opening hopening ?_)
  rw [hlower, ← hof, ← List.cons_append, List.map_append, List.map_cons] at h
  exact prefix_of_notMem habsent h

theorem replaceAll_block_tag (t : Tag) :
    (Regex.seq (Utf16.word opening) tail).replaceAll r (t.html ++ rest) =
      t.html ++ (Regex.seq (Utf16.word opening) tail).replaceAll r rest := by
  have hlocal : (Regex.seq (Utf16.word opening) tail).Local := local_block hopening
  have hhtml : t.html = 60 :: (t.content ++ [62]) := rfl
  have hnone : (Regex.seq (Utf16.word opening) tail).matchAt none
      (60 :: ((t.content ++ [62]) ++ rest)) = none := by
    rw [← List.append_cons]
    exact matchAt_block_tag hopening t
  rw [hhtml, List.cons_append, hlocal.replaceAll_cons_none hnone,
    hlocal.replaceAll_append fun u hu rest => matchAt_block_of_ne hopening (t.ne_of_mem hu)]
  rfl

theorem replaceAll_block_text (s : Utf16) :
    (Regex.seq (Utf16.word opening) tail).replaceAll r (escapeHtml s ++ rest) =
      escapeHtml s ++ (Regex.seq (Utf16.word opening) tail).replaceAll r rest :=
  (local_block hopening).replaceAll_append fun _ hu _ =>
    matchAt_block_of_ne hopening (ne_of_mem_escapeHtml hu)

/-- A page of texts and tags has no such block. -/
theorem replaceAll_block (page : List PagePart) :
    (Regex.seq (Utf16.word opening) tail).replaceAll r (page.flatMap PagePart.html) =
      page.flatMap PagePart.html := by
  induction page with
  | nil => exact (local_block hopening).replaceAll_nil
  | cons part page ih =>
      rw [List.flatMap_cons]
      cases part with
      | text s => rw [PagePart.html, replaceAll_block_text hopening, ih]
      | tag t => rw [PagePart.html, replaceAll_block_tag hopening, ih]
      | link href => rw [PagePart.html, replaceAll_block_tag hopening, ih]

end Block

theorem local_tagPattern : tagPattern.Local := (local_run Nat.one_pos).seq

theorem matchAt_tagPattern_of_ne {u : UInt16} (hu : u ≠ 60) (rest : Utf16) :
    tagPattern.matchAt none (u :: rest) = none := by
  refine matchAt_seq_eq_none (matchesAt_one_eq_nil fun v hv => ?_)
  obtain rfl := Option.some_inj.mp hv
  exact decide_eq_false hu

theorem matchAt_tagPattern (t : Tag) (rest : Utf16) :
    tagPattern.matchAt none (60 :: (t.content ++ 62 :: rest)) =
      some ⟨60 :: (t.content ++ [62]), rest, []⟩ := by
  have hinside : ∀ u ∈ t.content, decide (u ∉ Utf16.of ">") = true := by
    intro u hu
    refine decide_eq_true fun hmem => t.inside u hu ?_
    rw [show Utf16.of ">" = [62] by decide, List.mem_singleton] at hmem
    rw [hmem]
    decide
  have hrun : ∀ prev, (insideTag 1).matchAt prev (t.content ++ 62 :: rest) =
      some ⟨t.content, 62 :: rest, []⟩ := fun prev =>
    matchAt_run_append hinside (List.length_pos_iff.mpr t.ne_nil) (fun m hm => by cases hm)
      (.inr fun u hu => by
        obtain rfl := Option.some_inj.mp hu
        decide)
  have hclose : ∀ prev, (Regex.seq (Utf16.unit '>') .empty).matchAt prev (62 :: rest) =
      some ⟨[62], rest, []⟩ := fun prev =>
    matchAt_seq (f := ⟨[62], rest, []⟩) (g := ⟨[], rest, []⟩) (matchAt_one_cons rfl) matchAt_empty
  exact matchAt_seq (matchAt_one_cons rfl) (matchAt_seq (hrun _) (hclose _))

theorem replaceAll_tagPattern_tag (t : Tag) (rest : Utf16) :
    tagPattern.replaceAll (Utf16.of " ") (t.html ++ rest) =
      escapeHtml (Utf16.of " ") ++ tagPattern.replaceAll (Utf16.of " ") rest := by
  have hhtml : t.html ++ rest = 60 :: (t.content ++ 62 :: rest) := by
    rw [List.append_cons, ← List.cons_append]
    rfl
  have hspace : escapeHtml (Utf16.of " ") = Utf16.of " " := by decide
  rw [hhtml, local_tagPattern.replaceAll_cons_some (matchAt_tagPattern t _), hspace]

theorem replaceAll_tagPattern (page : List PagePart) :
    tagPattern.replaceAll (Utf16.of " ") (page.flatMap PagePart.html) =
      escapeHtml (page.flatMap PagePart.shown) := by
  induction page with
  | nil => exact local_tagPattern.replaceAll_nil
  | cons part page ih =>
      rw [List.flatMap_cons, List.flatMap_cons, escapeHtml_append, ← ih]
      cases part with
      | text s =>
          exact local_tagPattern.replaceAll_append fun u hu rest =>
            matchAt_tagPattern_of_ne (ne_of_mem_escapeHtml hu) rest
      | tag t => exact replaceAll_tagPattern_tag t _
      | link href => exact replaceAll_tagPattern_tag (linkTag href) _

/-! ### White space -/

theorem escapeHtml_cons (u : UInt16) (s : Utf16) :
    escapeHtml (u :: s) = escapeHtml [u] ++ escapeHtml s := escapeHtml_append [u] s

theorem escapeHtml_of_isSpace {u : UInt16} (hu : Utf16.isSpace u = true) :
    escapeHtml [u] = [u] := by
  have hplain : ∀ c ∈ htmlEntities.mark :: quoted, Utf16.isSpace c = false := by decide
  rw [escapeHtml_eq, Entities.escape_singleton, if_neg]
  intro hmem
  rw [hplain u hmem] at hu
  cases hu

theorem escapeHtml_of_not_isSpace {u : UInt16} (hu : Utf16.isSpace u = false) :
    escapeHtml [u] ≠ [] ∧ ∀ v ∈ escapeHtml [u], Utf16.isSpace v = false := by
  have hentity : ∀ c ∈ htmlEntities.mark :: quoted, ∀ v ∈ htmlEntities.entity c,
      Utf16.isSpace v = false := by decide
  rw [escapeHtml_eq, Entities.escape_singleton]
  split
  · rename_i hmem
    exact ⟨Entities.entity_ne_nil, hentity u hmem⟩
  · refine ⟨List.cons_ne_nil _ _, fun v hv => ?_⟩
    obtain rfl := List.mem_singleton.mp hv
    exact hu

theorem escapeHtml_ne_nil {s : Utf16} (hs : s ≠ []) : escapeHtml s ≠ [] := by
  obtain ⟨u, s, rfl⟩ := List.exists_cons_of_ne_nil hs
  rw [escapeHtml_cons]
  refine List.append_ne_nil_of_left_ne_nil ?_ _
  cases hu : Utf16.isSpace u with
  | false => exact (escapeHtml_of_not_isSpace hu).1
  | true =>
      rw [escapeHtml_of_isSpace hu]
      exact List.cons_ne_nil u []

theorem escapeHtml_spaces {s : Utf16} (hs : ∀ u ∈ s, Utf16.isSpace u = true) :
    escapeHtml s = s := by
  induction s with
  | nil => rfl
  | cons u s ih =>
      rw [escapeHtml_cons, escapeHtml_of_isSpace (hs u List.mem_cons_self),
        ih fun v hv => hs v (List.mem_cons_of_mem u hv)]
      rfl

theorem head?_escapeHtml {s : Utf16} (hs : ∀ u, s.head? = some u → Utf16.isSpace u = false) :
    ∀ u, (escapeHtml s).head? = some u → Utf16.isSpace u = false := by
  cases s with
  | nil =>
      intro u hu
      cases hu
  | cons v s =>
      intro u hu
      obtain ⟨hne, hplain⟩ := escapeHtml_of_not_isSpace (hs v rfl)
      obtain ⟨first, others, hfirst⟩ := List.exists_cons_of_ne_nil hne
      rw [escapeHtml_cons, hfirst, List.cons_append, List.head?_cons] at hu
      obtain rfl := Option.some_inj.mp hu
      exact hplain _ (hfirst ▸ List.mem_cons_self)

theorem local_spacePattern : spacePattern.Local := local_run Nat.one_pos

theorem matchAt_spacePattern {spaces rest : Utf16} (hne : spaces ≠ [])
    (hspaces : ∀ u ∈ spaces, Utf16.isSpace u = true)
    (hrest : ∀ u, rest.head? = some u → Utf16.isSpace u = false) :
    spacePattern.matchAt none (spaces ++ rest) = some ⟨spaces, rest, []⟩ :=
  matchAt_run_append hspaces (List.length_pos_iff.mpr hne) (fun m hm => by cases hm) (.inr hrest)

theorem matchAt_spacePattern_of_not {u : UInt16} (hu : Utf16.isSpace u = false) (rest : Utf16) :
    spacePattern.matchAt none (u :: rest) = none := by
  rw [matchAt_eq_none, List.eq_nil_iff_forall_not_mem]
  intro f hf
  obtain ⟨k, hlo, hk, -⟩ := mem_matchesAt_run.mp hf
  rw [reach, List.takeWhile_cons_of_neg (by simp [hu])] at hk
  exact absurd (Nat.le_trans hlo hk) (by decide)

theorem replaceAll_spacePattern_escapeHtml (s : Utf16) :
    spacePattern.replaceAll (Utf16.of " ") (escapeHtml s) =
      escapeHtml (spacePattern.replaceAll (Utf16.of " ") s) := by
  have hlocal := local_spacePattern
  induction hlength : s.length using Nat.strong_induction_on generalizing s with
  | _ length ih =>
      subst hlength
      cases s with
      | nil =>
          rw [hlocal.replaceAll_nil]
          exact hlocal.replaceAll_nil
      | cons u s =>
          cases hu : Utf16.isSpace u with
          | false =>
              rw [escapeHtml_cons, hlocal.replaceAll_append fun v hv rest =>
                  matchAt_spacePattern_of_not ((escapeHtml_of_not_isSpace hu).2 v hv) rest,
                hlocal.replaceAll_cons_none (matchAt_spacePattern_of_not hu s),
                ih s.length (Nat.lt_succ_self _) s rfl, ← escapeHtml_cons]
          | true =>
              have hspaces : ∀ v ∈ (u :: s).takeWhile Utf16.isSpace, Utf16.isSpace v = true :=
                fun v hv => List.mem_takeWhile_imp hv
              have hrest : ∀ v, ((u :: s).dropWhile Utf16.isSpace).head? = some v →
                  Utf16.isSpace v = false := fun v hv => by
                simpa [hv] using (u :: s).head?_dropWhile_not Utf16.isSpace
              have hne : (u :: s).takeWhile Utf16.isSpace ≠ [] := by
                rw [List.takeWhile_cons_of_pos hu]
                exact List.cons_ne_nil _ _
              have hshorter : ((u :: s).dropWhile Utf16.isSpace).length < (u :: s).length := by
                rw [List.dropWhile_cons_of_pos hu]
                exact Nat.lt_succ_of_le (List.dropWhile_sublist _).length_le
              have hsplit := (List.takeWhile_append_dropWhile (p := Utf16.isSpace) (l := u :: s)).symm
              rw [hsplit, escapeHtml_append, escapeHtml_spaces hspaces,
                hlocal.replaceAll_match (matchAt_spacePattern hne hspaces (head?_escapeHtml hrest)),
                hlocal.replaceAll_match (matchAt_spacePattern hne hspaces hrest), escapeHtml_append,
                ih _ hshorter _ rfl]
              rfl

theorem dropWhile_escapeHtml (s : Utf16) :
    (escapeHtml s).dropWhile Utf16.isSpace = escapeHtml (s.dropWhile Utf16.isSpace) := by
  induction s with
  | nil => rfl
  | cons u s ih =>
      cases hu : Utf16.isSpace u with
      | true =>
          rw [escapeHtml_cons, escapeHtml_of_isSpace hu, List.dropWhile_cons_of_pos hu, ← ih]
          exact List.dropWhile_cons_of_pos hu
      | false =>
          obtain ⟨hne, hplain⟩ := escapeHtml_of_not_isSpace hu
          obtain ⟨first, others, hfirst⟩ := List.exists_cons_of_ne_nil hne
          have hstop := hplain first (hfirst ▸ List.mem_cons_self)
          rw [List.dropWhile_cons_of_neg (by simp [hu]), escapeHtml_cons, hfirst, List.cons_append,
            List.dropWhile_cons_of_neg (by simp [hstop])]

theorem dropWhile_reverse_escapeHtml (s : Utf16) :
    ((escapeHtml s).reverse.dropWhile Utf16.isSpace).reverse =
      escapeHtml (s.reverse.dropWhile Utf16.isSpace).reverse := by
  induction s using List.reverseRecOn with
  | nil => rfl
  | append_singleton s u ih =>
      rw [escapeHtml_append, List.reverse_append, List.reverse_append, List.reverse_singleton,
        List.singleton_append]
      cases hu : Utf16.isSpace u with
      | true =>
          rw [escapeHtml_of_isSpace hu, List.reverse_singleton, List.singleton_append,
            List.dropWhile_cons_of_pos hu, List.dropWhile_cons_of_pos hu, ih]
      | false =>
          obtain ⟨hne, hplain⟩ := escapeHtml_of_not_isSpace hu
          obtain ⟨last, others, hlast⟩ :=
            List.exists_cons_of_ne_nil (List.reverse_ne_nil_iff.mpr hne)
          have hstop := hplain last (List.mem_reverse.mp (hlast ▸ List.mem_cons_self))
          rw [List.dropWhile_cons_of_neg (by simp [hu]), hlast, List.cons_append,
            List.dropWhile_cons_of_neg (by simp [hstop]), ← List.cons_append, ← hlast,
            ← List.reverse_append, List.reverse_reverse, List.reverse_cons, List.reverse_reverse,
            escapeHtml_append]

theorem trim_escapeHtml (s : Utf16) : Utf16.trim (escapeHtml s) = escapeHtml (Utf16.trim s) := by
  rw [Utf16.trim, dropWhile_escapeHtml, dropWhile_reverse_escapeHtml, Utf16.trim]

/-- **Without its tags** a page is the escape of the text that it shows. -/
theorem withoutTags_html (page : List PagePart) :
    withoutTags (page.flatMap PagePart.html) = escapeHtml (shownText page) := by
  unfold withoutTags shownText
  dsimp only
  have hscript : scriptPattern.replaceAll (Utf16.of " ") (page.flatMap PagePart.html) =
      page.flatMap PagePart.html := replaceAll_block (by decide) page
  have hstyle : stylePattern.replaceAll (Utf16.of " ") (page.flatMap PagePart.html) =
      page.flatMap PagePart.html := replaceAll_block (by decide) page
  rw [hscript, hstyle, replaceAll_tagPattern, replaceAll_spacePattern_escapeHtml, trim_escapeHtml]

theorem stripTags_html_iff (page : List PagePart) :
    stripTags (page.flatMap PagePart.html) = shownText page ↔ ShowsNoEntity (shownText page) :=
  stripTags_escaped_iff (withoutTags_html page)

end RecruitingOs.WebConnector
