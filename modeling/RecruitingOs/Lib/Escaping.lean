import RecruitingOs.Lib.Regex

/-!
# Escapes and their replacement

Letters that are written as a mark and a name, as `&lt;` for `<`, and the decoder that replaces one
such entity after the other in the whole text.  Where it begins with the entity of the mark, the
text that this leaves may have further entities in it, which were no entities of the escaped text:
`decode_escape` says what comes out, and `decode_eq_self_iff` when it is the text that was escaped.
-/

namespace Regex

variable {α : Type} [DecidableEq α] {t r w rest : List α} {prev : Option α} {f : Found α} {a : α}

/-- The pattern that is a text. -/
def text (t : List α) : Regex α := .all (t.map fun a => .one fun b => b = a)

theorem mem_matchesAt_text :
    f ∈ (text t).matchesAt prev w ↔ ∃ rest, w = t ++ rest ∧ f = ⟨t, rest, []⟩ := by
  induction t generalizing prev w f with
  | nil =>
      rw [text, List.map_nil, all, mem_matchesAt_empty]
      constructor
      · rintro rfl
        exact ⟨w, rfl, rfl⟩
      · rintro ⟨rest, rfl, rfl⟩
        rfl
  | cons a t ih =>
      rw [text, List.map_cons, all, mem_matchesAt_seq]
      constructor
      · rintro ⟨first, hfirst, others, hothers, rfl⟩
        obtain ⟨b, rest, rfl, hb, rfl⟩ := mem_matchesAt_one.mp hfirst
        obtain ⟨rest, rfl, rfl⟩ := ih.mp hothers
        obtain rfl := of_decide_eq_true hb
        exact ⟨rest, rfl, rfl⟩
      · rintro ⟨rest, rfl, rfl⟩
        exact ⟨⟨[a], t ++ rest, []⟩,
          mem_matchesAt_one.mpr ⟨a, t ++ rest, rfl, decide_eq_true rfl, rfl⟩,
          ⟨t, rest, []⟩, ih.mpr ⟨rest, rfl, rfl⟩, rfl⟩

theorem matchAt_text_append : (text t).matchAt prev (t ++ rest) = some ⟨t, rest, []⟩ := by
  refine matchAt_of_unique (mem_matchesAt_text.mpr ⟨rest, rfl, rfl⟩) fun g hg => ?_
  obtain ⟨rest', hsame, rfl⟩ := mem_matchesAt_text.mp hg
  rw [List.append_cancel_left hsame]

theorem matchAt_text_eq_none (h : ¬ t <+: w) : (text t).matchAt prev w = none := by
  rw [matchAt_eq_none, List.eq_nil_iff_forall_not_mem]
  intro g hg
  obtain ⟨rest, rfl, -⟩ := mem_matchesAt_text.mp hg
  exact h (List.prefix_append t rest)

theorem local_text (ht : t ≠ []) : (text t).Local := by
  obtain ⟨a, t, rfl⟩ := List.exists_cons_of_ne_nil ht
  exact (local_run Nat.one_pos).seq

/-! ### Replacing a text -/

section Replace

variable (ht : t ≠ [])
include ht

theorem replaceAll_text_nil : (text t).replaceAll r [] = [] := (local_text ht).replaceAll_nil

theorem replaceAll_text_append :
    (text t).replaceAll r (t ++ w) = r ++ (text t).replaceAll r w := by
  obtain ⟨a, t, rfl⟩ := List.exists_cons_of_ne_nil ht
  exact (local_text ht).replaceAll_cons_some matchAt_text_append

theorem replaceAll_text_cons (h : ¬ t <+: a :: w) :
    (text t).replaceAll r (a :: w) = a :: (text t).replaceAll r w :=
  (local_text ht).replaceAll_cons_none (matchAt_text_eq_none h)

/-- **Induction** as the pattern is found: at the beginning, or a letter goes by. -/
@[elab_as_elim]
theorem text_induction {motive : List α → Prop} (nil : motive [])
    (found : ∀ rest, motive rest → motive (t ++ rest))
    (other : ∀ a rest, ¬ t <+: a :: rest → motive rest → motive (a :: rest)) (w : List α) :
    motive w := by
  induction hlength : w.length using Nat.strong_induction_on generalizing w with
  | _ length ih =>
      subst hlength
      by_cases hstarts : t <+: w
      · obtain ⟨rest, rfl⟩ := hstarts
        refine found rest (ih rest.length ?_ rest rfl)
        have hpos := List.length_pos_iff.mpr ht
        rw [List.length_append]
        omega
      · cases w with
        | nil => exact nil
        | cons a rest => exact other a rest hstarts (ih rest.length (Nat.lt_succ_self _) rest rfl)

theorem replaceAll_text_of_not_infix (h : ¬ t <:+: w) : (text t).replaceAll r w = w := by
  induction w with
  | nil => exact replaceAll_text_nil ht
  | cons a w ih =>
      rw [List.infix_cons_iff, not_or] at h
      rw [replaceAll_text_cons ht h.1, ih h.2]

/-- Replacing a text by a shorter one makes a text no longer, and shorter if there is one to
replace. -/
theorem length_replaceAll_text (hr : r.length < t.length) (w : List α) :
    ((text t).replaceAll r w).length ≤ w.length ∧
      (t <:+: w → ((text t).replaceAll r w).length < w.length) := by
  induction w using text_induction ht with
  | nil =>
      rw [replaceAll_text_nil ht]
      exact ⟨Nat.le_refl _, fun h => absurd (List.infix_nil.mp h) ht⟩
  | found rest ih =>
      rw [replaceAll_text_append ht, List.length_append, List.length_append]
      exact ⟨by omega, fun _ => by omega⟩
  | other a rest hstarts ih =>
      rw [replaceAll_text_cons ht hstarts, List.length_cons, List.length_cons]
      refine ⟨Nat.succ_le_succ ih.1, fun hinfix => Nat.succ_lt_succ (ih.2 ?_)⟩
      exact (List.infix_cons_iff.mp hinfix).resolve_left hstarts

end Replace

end Regex

/-- Letters that are written as a mark and a name. -/
structure Entities (α : Type) where
  mark : α
  name : α → List α

namespace Entities

variable {α : Type} {e : Entities α} {special : List α} {a c : α} {w : List α}

def entity (e : Entities α) (c : α) : List α := e.mark :: e.name c

theorem entity_ne_nil : e.entity c ≠ [] := List.cons_ne_nil _ _

/-- The names have neither the mark nor a letter that is escaped, and none begins with another. -/
structure Apart (e : Entities α) (special : List α) : Prop where
  mark_notMem : ∀ c ∈ special, e.mark ∉ e.name c
  special_notMem : ∀ c ∈ special, ∀ a ∈ e.name c, a ∉ special
  prefix_eq : ∀ c ∈ special, ∀ d ∈ special, e.name c <+: e.name d → c = d

theorem Apart.eq_of_prefix (h : e.Apart special) (hc : c ∈ special) (ha : a ∈ special)
    (hstarts : e.name c <+: e.name a ++ w) : c = a := by
  rcases List.prefix_or_prefix_of_prefix hstarts (List.prefix_append _ _) with hle | hle
  · exact h.prefix_eq c hc a ha hle
  · exact (h.prefix_eq a ha c hc hle).symm

theorem Apart.tail (h : e.Apart (c :: special)) : e.Apart special where
  mark_notMem a ha := h.mark_notMem a (List.mem_cons_of_mem c ha)
  special_notMem a ha b hb hmem :=
    h.special_notMem a (List.mem_cons_of_mem c ha) b hb (List.mem_cons_of_mem c hmem)
  prefix_eq a ha b hb := h.prefix_eq a (List.mem_cons_of_mem c ha) b (List.mem_cons_of_mem c hb)

variable [DecidableEq α]

/-- The letters of `special` are written as entities, and the others as they are. -/
def escape (e : Entities α) (special w : List α) : List α :=
  w.flatMap fun a => if a ∈ special then e.entity a else [a]

/-- Every entity of a letter is replaced by the letter. -/
def replace (e : Entities α) (w : List α) (c : α) : List α :=
  (Regex.text (e.entity c)).replaceAll [c] w

/-- One letter after the other. -/
def decode (e : Entities α) (order w : List α) : List α := order.foldl e.replace w

theorem escape_cons : e.escape special (a :: w) =
    (if a ∈ special then e.entity a else [a]) ++ e.escape special w := List.flatMap_cons

theorem escape_of_notMem {u : List α} (h : ∀ a ∈ u, a ∉ special) :
    e.escape special (u ++ w) = u ++ e.escape special w := by
  induction u with
  | nil => rfl
  | cons a u ih =>
      rw [List.cons_append, escape_cons, if_neg (h a List.mem_cons_self),
        ih fun b hb => h b (List.mem_cons_of_mem a hb)]
      rfl

theorem escape_nil_special : e.escape [] w = w := by
  induction w with
  | nil => rfl
  | cons a w ih =>
      rw [escape_cons, if_neg List.not_mem_nil, ih]
      rfl

theorem escape_singleton :
    e.escape special [a] = if a ∈ special then e.entity a else [a] := by
  rw [escape_cons]
  exact List.append_nil _

/-- An escaped text has none of the letters that are escaped, but the mark. -/
theorem notMem_escape (hapart : e.Apart special) (hc : c ∈ special) (hne : c ≠ e.mark) :
    c ∉ e.escape special w := by
  rw [escape, List.mem_flatMap]
  rintro ⟨a, -, hmem⟩
  split at hmem
  · rename_i ha
    rcases List.mem_cons.mp hmem with hsame | hname
    · exact hne hsame
    · exact hapart.special_notMem a ha c hname hc
  · rename_i ha
    obtain rfl := List.mem_singleton.mp hmem
    exact ha hc

/-- What an escaped text begins with and has no mark, the text begins with. -/
theorem prefix_of_prefix_escape {u : List α} (hmark : e.mark ∉ u)
    (h : u <+: e.escape special w) : u <+: w := by
  induction u generalizing w with
  | nil => exact List.nil_prefix
  | cons b u ih =>
      cases w with
      | nil => exact absurd (List.prefix_nil.mp h) (List.cons_ne_nil _ _)
      | cons a w =>
          rw [escape_cons] at h
          rw [List.mem_cons, not_or] at hmark
          split at h
          · exact absurd (List.cons_prefix_cons.mp h).1.symm hmark.1
          · obtain ⟨rfl, hrest⟩ := List.cons_prefix_cons.mp h
            exact List.cons_prefix_cons.mpr ⟨rfl, ih hmark.2 hrest⟩

theorem replace_entity_append : e.replace (e.entity c ++ w) c = c :: e.replace w c :=
  Regex.replaceAll_text_append entity_ne_nil

theorem replace_cons (h : ¬ e.entity c <+: a :: w) :
    e.replace (a :: w) c = a :: e.replace w c :=
  Regex.replaceAll_text_cons entity_ne_nil h

theorem replace_nil : e.replace [] c = [] := Regex.replaceAll_text_nil entity_ne_nil

theorem replace_cons_of_ne (h : a ≠ e.mark) : e.replace (a :: w) c = a :: e.replace w c :=
  replace_cons fun hstarts => h (List.cons_prefix_cons.mp hstarts).1.symm

theorem replace_append_of_notMem {u : List α} (h : e.mark ∉ u) :
    e.replace (u ++ w) c = u ++ e.replace w c := by
  induction u with
  | nil => rfl
  | cons a u ih =>
      rw [List.mem_cons, not_or] at h
      rw [List.cons_append, replace_cons_of_ne (Ne.symm h.1), ih h.2, List.cons_append]

/-- An entity of another letter stays. -/
theorem replace_other (hapart : e.Apart special) (hc : c ∈ special) (ha : a ∈ special)
    (hne : a ≠ c) : e.replace (e.entity a ++ w) c = e.entity a ++ e.replace w c := by
  have hother : ¬ e.entity c <+: e.mark :: (e.name a ++ w) := fun h =>
    hne (hapart.eq_of_prefix hc ha (List.cons_prefix_cons.mp h).2).symm
  rw [entity, List.cons_append, replace_cons hother,
    replace_append_of_notMem (hapart.mark_notMem a ha), List.cons_append]

/-- The mark first: what is left of an escaped text has the marks of the text itself. -/
theorem replace_mark (hapart : e.Apart (e.mark :: special)) (hmark : e.mark ∉ special) :
    e.replace (e.escape (e.mark :: special) w) e.mark = e.escape special w := by
  induction w with
  | nil => exact replace_nil
  | cons a w ih =>
      rw [escape_cons, escape_cons]
      by_cases hspecial : a ∈ special
      · have hne : a ≠ e.mark := fun h => hmark (h ▸ hspecial)
        rw [if_pos (List.mem_cons_of_mem _ hspecial), if_pos hspecial,
          replace_other hapart List.mem_cons_self (List.mem_cons_of_mem _ hspecial) hne, ih]
      · rw [if_neg hspecial]
        by_cases hsame : a = e.mark
        · obtain rfl := hsame
          rw [if_pos List.mem_cons_self, replace_entity_append, ih]
          rfl
        · rw [if_neg (by simp [hsame, hspecial]), List.cons_append, replace_cons_of_ne hsame,
            List.nil_append, ih]
          rfl

/-- A letter after the mark: the entities of the text itself are replaced too. -/
theorem replace_escape (hapart : e.Apart (c :: special)) (hmark : e.mark ∉ c :: special)
    (hc : c ∉ special) :
    e.replace (e.escape (c :: special) w) c = e.escape special (e.replace w c) := by
  induction w using Regex.text_induction (entity_ne_nil (e := e) (c := c)) with
  | nil =>
      rw [replace_nil]
      exact replace_nil
  | found rest ih =>
      have hnames : ∀ a ∈ e.entity c, a ∉ c :: special := by
        intro a ha
        rcases List.mem_cons.mp ha with rfl | ha
        · exact hmark
        · exact hapart.special_notMem c List.mem_cons_self a ha
      rw [escape_of_notMem hnames, replace_entity_append, replace_entity_append, escape_cons,
        if_neg hc, ih]
      rfl
  | other a w hstarts ih =>
      rw [replace_cons hstarts, escape_cons, escape_cons, ← ih]
      by_cases hsame : a = c
      · obtain rfl := hsame
        rw [if_pos List.mem_cons_self, if_neg hc, replace_entity_append]
        rfl
      · by_cases hspecial : a ∈ special
        · rw [if_pos (List.mem_cons_of_mem _ hspecial), if_pos hspecial,
            replace_other hapart List.mem_cons_self (List.mem_cons_of_mem _ hspecial) hsame]
        · have hplain : ¬ e.entity c <+: a :: e.escape (c :: special) w := by
            intro h
            obtain ⟨hfirst, hname⟩ := List.cons_prefix_cons.mp h
            exact hstarts (List.cons_prefix_cons.mpr ⟨hfirst, prefix_of_prefix_escape
              (hapart.mark_notMem c List.mem_cons_self) hname⟩)
          rw [if_neg (by simp [hsame, hspecial]), if_neg hspecial, List.cons_append,
            List.nil_append, replace_cons hplain]
          rfl

theorem decode_escape_rest (hapart : e.Apart special) (hmark : e.mark ∉ special)
    (hnodup : special.Nodup) : e.decode special (e.escape special w) = e.decode special w := by
  induction special generalizing w with
  | nil => exact escape_nil_special
  | cons c special ih =>
      rw [List.nodup_cons] at hnodup
      have hrest : e.decode special (e.escape special (e.replace w c)) =
          e.decode special (e.replace w c) :=
        ih hapart.tail (fun h => hmark (List.mem_cons_of_mem c h)) hnodup.2
      rw [← replace_escape hapart hmark hnodup.1] at hrest
      exact hrest

/-- **Decoding the mark first** leaves the text that was escaped, with its own entities decoded. -/
theorem decode_escape (hapart : e.Apart (e.mark :: special)) (hnodup : (e.mark :: special).Nodup) :
    e.decode (e.mark :: special) (e.escape (e.mark :: special) w) = e.decode special w := by
  obtain ⟨hmark, hrest⟩ := List.nodup_cons.mp hnodup
  rw [decode, List.foldl_cons, replace_mark hapart hmark]
  exact decode_escape_rest hapart.tail hmark hrest

theorem length_decode_le (hname : ∀ c, e.name c ≠ []) :
    (e.decode special w).length ≤ w.length := by
  induction special generalizing w with
  | nil => exact Nat.le_refl _
  | cons c special ih =>
      have hlength := (Regex.length_replaceAll_text (r := [c]) (t := e.entity c) entity_ne_nil
        (Nat.succ_lt_succ (List.length_pos_iff.mpr (hname c))) w).1
      exact Nat.le_trans ih hlength

/-- A text is decoded to itself when it has none of the entities. -/
theorem decode_eq_self_iff (hname : ∀ c, e.name c ≠ []) :
    e.decode special w = w ↔ ∀ c ∈ special, ¬ e.entity c <:+: w := by
  induction special with
  | nil => exact ⟨fun _ _ h => absurd h List.not_mem_nil, fun _ => rfl⟩
  | cons c special ih =>
      have hshort : [c].length < (e.entity c).length :=
        Nat.succ_lt_succ (List.length_pos_iff.mpr (hname c))
      rw [List.forall_mem_cons, ← ih]
      constructor
      · intro hsame
        have habsent : ¬ e.entity c <:+: w := by
          intro hinfix
          have hlt := (Regex.length_replaceAll_text entity_ne_nil hshort w).2 hinfix
          have hle : (e.decode special (e.replace w c)).length ≤ (e.replace w c).length :=
            length_decode_le hname
          rw [decode, List.foldl_cons] at hsame
          rw [decode, hsame] at hle
          exact absurd hlt (Nat.not_lt_of_le hle)
        have hkept : e.replace w c = w :=
          Regex.replaceAll_text_of_not_infix entity_ne_nil habsent
        rw [decode, List.foldl_cons, hkept] at hsame
        exact ⟨habsent, hsame⟩
      · rintro ⟨habsent, hsame⟩
        have hkept : e.replace w c = w :=
          Regex.replaceAll_text_of_not_infix entity_ne_nil habsent
        rw [decode, List.foldl_cons, hkept]
        exact hsame

/-! ### A decoded text has no entities -/

section Decoded

variable {u : List α}

/-- What has not the letter itself was there before. -/
theorem prefix_of_prefix_replace (hc : c ∉ u) (h : u <+: e.replace w c) : u <+: w := by
  induction u generalizing w with
  | nil => exact List.nil_prefix
  | cons b u ih =>
      rw [List.mem_cons, not_or] at hc
      by_cases hstarts : e.entity c <+: w
      · obtain ⟨rest, rfl⟩ := hstarts
        rw [replace_entity_append] at h
        exact absurd (List.cons_prefix_cons.mp h).1.symm hc.1
      · cases w with
        | nil =>
            rw [replace_nil] at h
            exact absurd (List.prefix_nil.mp h) (List.cons_ne_nil _ _)
        | cons a rest =>
            rw [replace_cons hstarts] at h
            obtain ⟨rfl, hrest⟩ := List.cons_prefix_cons.mp h
            exact List.cons_prefix_cons.mpr ⟨rfl, ih hc.2 hrest⟩

theorem infix_of_infix_replace (hc : c ∉ u) (h : u <:+: e.replace w c) : u <:+: w := by
  induction w using Regex.text_induction (entity_ne_nil (e := e) (c := c)) with
  | nil =>
      rw [replace_nil] at h
      exact h
  | found rest ih =>
      by_cases hstarts : u <+: e.replace (e.entity c ++ rest) c
      · exact (prefix_of_prefix_replace hc hstarts).isInfix
      · rw [replace_entity_append] at h hstarts
        exact List.infix_append_of_infix_right
          (ih ((List.infix_cons_iff.mp h).resolve_left hstarts))
  | other a rest habsent ih =>
      by_cases hstarts : u <+: e.replace (a :: rest) c
      · exact (prefix_of_prefix_replace hc hstarts).isInfix
      · rw [replace_cons habsent] at h hstarts
        exact List.infix_cons (ih ((List.infix_cons_iff.mp h).resolve_left hstarts))

theorem not_infix_replace (hc : c ∉ e.entity c) : ¬ e.entity c <:+: e.replace w c := by
  induction w using Regex.text_induction (entity_ne_nil (e := e) (c := c)) with
  | nil =>
      rw [replace_nil]
      exact fun h => entity_ne_nil (List.infix_nil.mp h)
  | found rest ih =>
      intro h
      rw [replace_entity_append] at h
      rcases List.infix_cons_iff.mp h with hstarts | hrest
      · have hmark := (List.cons_prefix_cons.mp hstarts).1
        exact hc (hmark ▸ List.mem_cons_self)
      · exact ih hrest
  | other a rest habsent ih =>
      intro h
      have hsame := replace_cons habsent
      rw [hsame] at h
      rcases List.infix_cons_iff.mp h with hstarts | hrest
      · rw [← hsame] at hstarts
        exact habsent (prefix_of_prefix_replace hc hstarts)
      · exact ih hrest

theorem infix_of_infix_decode (hspecial : ∀ c ∈ special, c ∉ u)
    (h : u <:+: e.decode special w) : u <:+: w := by
  induction special generalizing w with
  | nil => exact h
  | cons c special ih =>
      rw [List.forall_mem_cons] at hspecial
      exact infix_of_infix_replace hspecial.1 (ih hspecial.2 h)

theorem not_infix_decode (hspecial : ∀ c ∈ special, ∀ d ∈ special, d ∉ e.entity c) :
    ∀ c ∈ special, ¬ e.entity c <:+: e.decode special w := by
  induction special generalizing w with
  | nil => exact List.forall_mem_nil _
  | cons d special ih =>
      rw [List.forall_mem_cons]
      constructor
      · intro h
        refine not_infix_replace (hspecial d List.mem_cons_self d List.mem_cons_self)
          (@infix_of_infix_decode α e special (e.replace w d) _ (e.entity d) (fun c hc => ?_) h)
        exact hspecial d List.mem_cons_self c (List.mem_cons_of_mem d hc)
      · exact ih fun c hc d' hd' =>
          hspecial c (List.mem_cons_of_mem d hc) d' (List.mem_cons_of_mem d hd')

end Decoded

end Entities
