import Mathlib.Data.List.Basic
import Mathlib.Data.List.DropRight
import Mathlib.Data.List.TakeWhile

/-!
# References that start with a slash

The part of the URL standard that resolves such a reference against an `https` origin.  The
reference is cleaned of tabs, newlines and trailing blanks; a second slash makes what follows an
authority, whose origin is a parameter; then come the path, the query and the fragment, each
percent-encoded by its own set.  Dot segments are resolved with a stack (`resolveDots`), and a
backslash counts as a slash.

* `resolveDots_eq` — which segments survive, without a stack: those that no later `..` takes
  away (`kept`).
* `parse_serialize` — a URL that was parsed, written down again and resolved is the same URL,
  unless its path starts with an empty segment.
-/

-- What is asked of the letters of a text goes along the text, not through every letter there is.
attribute [instance (2000)] List.decidableBAll

namespace UrlReference

/-! ### Percent-encoding -/

/-- The digit of a number below 16. -/
def hexDigit (n : ℕ) : Char := "0123456789ABCDEF".toList.getD n '0'

/-- What an escape is written with. -/
def escapeChars : List Char := "%0123456789ABCDEF".toList

/-- A percent-encode set: it has neither `%` nor a digit of an escape, and all characters that
are not graphic ASCII ones. -/
structure EncodeSet where
  mem : Char → Bool
  escape : ∀ c ∈ escapeChars, mem c = false
  graphic : ∀ c, mem c = false → 0x20 < c.toNat ∧ c.toNat ≤ 0x7E

/-- The characters that every set has. -/
def notGraphic (c : Char) : Bool := c.toNat ≤ 0x20 ∨ 0x7E < c.toNat

theorem graphic_of_not {c : Char} {p : Prop} [Decidable p]
    (h : (notGraphic c || decide p) = false) : 0x20 < c.toNat ∧ c.toNat ≤ 0x7E := by
  have hgraphic := (Bool.or_eq_false_iff.mp h).1
  unfold notGraphic at hgraphic
  have hboth := of_decide_eq_false hgraphic
  omega

/-- The path percent-encode set. -/
def pathSet : EncodeSet where
  mem c := notGraphic c || c ∈ "\"#<>?^`{}".toList
  escape := by decide +kernel
  graphic _ h := graphic_of_not h

/-- The special-query percent-encode set. -/
def querySet : EncodeSet where
  mem c := notGraphic c || c ∈ "\"#<>'".toList
  escape := by decide +kernel
  graphic _ h := graphic_of_not h

/-- The fragment percent-encode set. -/
def fragmentSet : EncodeSet where
  mem c := notGraphic c || c ∈ "\"<>`".toList
  escape := by decide +kernel
  graphic _ h := graphic_of_not h

/-- An escaped byte. -/
def encodeByte (b : UInt8) : List Char := ['%', hexDigit (b.toNat / 16), hexDigit (b.toNat % 16)]

/-- UTF-8 percent-encode. -/
def encode (set : EncodeSet) (text : List Char) : List Char :=
  text.flatMap fun c => if set.mem c then (String.utf8EncodeChar c).flatMap encodeByte else [c]

variable {set : EncodeSet} {text : List Char}

theorem hexDigit_mem (n : ℕ) : hexDigit n ∈ escapeChars := by
  unfold hexDigit
  rw [List.getD_eq_getElem?_getD]
  cases hdigit : ("0123456789ABCDEF".toList)[n]? with
  | none => decide
  | some c =>
      have hall : ∀ c ∈ "0123456789ABCDEF".toList, c ∈ escapeChars := by decide
      exact hall c (List.mem_of_getElem? hdigit)

theorem mem_of_mem_encodeByte {c : Char} {b : UInt8} (h : c ∈ encodeByte b) : c ∈ escapeChars := by
  obtain rfl | rfl | rfl : c = '%' ∨ c = hexDigit (b.toNat / 16) ∨ c = hexDigit (b.toNat % 16) := by
    simpa [encodeByte] using h
  · decide
  · exact hexDigit_mem _
  · exact hexDigit_mem _

/-- Nothing in an encoded text has to be encoded. -/
theorem not_mem_of_mem_encode {c : Char} (h : c ∈ encode set text) : set.mem c = false := by
  obtain ⟨origin, -, hc⟩ := List.mem_flatMap.mp h
  split at hc
  · obtain ⟨b, -, hc⟩ := List.mem_flatMap.mp hc
    exact set.escape c (mem_of_mem_encodeByte hc)
  · rename_i hplain
    obtain rfl := List.mem_singleton.mp hc
    simpa using hplain

theorem encode_eq_self (h : ∀ c ∈ text, set.mem c = false) : encode set text = text := by
  induction text with
  | nil => rfl
  | cons c rest ih =>
      unfold encode at ih ⊢
      rw [List.flatMap_cons, h c List.mem_cons_self,
        ih fun other hother => h other (List.mem_cons_of_mem _ hother)]
      rfl

/-- A character that is not in the set, and not of an escape, comes from the text. -/
theorem mem_of_mem_encode {c : Char} (h : c ∈ encode set text) (hescape : c ∉ escapeChars) :
    c ∈ text := by
  obtain ⟨origin, horigin, hc⟩ := List.mem_flatMap.mp h
  split at hc
  · obtain ⟨b, -, hc⟩ := List.mem_flatMap.mp hc
    exact absurd (mem_of_mem_encodeByte hc) hescape
  · obtain rfl := List.mem_singleton.mp hc
    exact horigin

/-! ### Dot segments -/

/-- ASCII lower case. -/
def lower (segment : List Char) : List Char := segment.map Char.toLower

def isSingleDot (segment : List Char) : Bool := lower segment ∈ [".".toList, "%2e".toList]

def isDoubleDot (segment : List Char) : Bool :=
  lower segment ∈ ["..".toList, ".%2e".toList, "%2e.".toList, "%2e%2e".toList]

/-- The path state on the segments that are left; the stack has the path so far, last segment
first. -/
def resolveDots : List (List Char) → List (List Char) → List (List Char)
  | stack, [] => stack.reverse
  | stack, [last] =>
      if isDoubleDot last then ([] :: stack.tail).reverse
      else if isSingleDot last then ([] :: stack).reverse
      else (last :: stack).reverse
  | stack, segment :: rest =>
      if isDoubleDot segment then resolveDots stack.tail rest
      else if isSingleDot segment then resolveDots stack rest
      else resolveDots (segment :: stack) rest

/-- How many segments before them the segments take away. -/
def demand : List (List Char) → ℕ
  | [] => 0
  | segment :: rest =>
      if isDoubleDot segment then demand rest + 1
      else if isSingleDot segment then demand rest
      else demand rest - 1

/-- The segments that no later one takes away; dots at the end leave an empty one. -/
def kept : List (List Char) → List (List Char)
  | [] => []
  | [last] => if isDoubleDot last ∨ isSingleDot last then [[]] else [last]
  | segment :: rest =>
      if isDoubleDot segment ∨ isSingleDot segment ∨ demand rest ≠ 0 then kept rest
      else segment :: kept rest

theorem kept_cons {segment : List Char} {rest : List (List Char)} (h : rest ≠ []) :
    kept (segment :: rest) =
      if isDoubleDot segment ∨ isSingleDot segment ∨ demand rest ≠ 0 then kept rest
      else segment :: kept rest := by
  cases rest with
  | nil => exact absurd rfl h
  | cons _ _ => rfl

/-- **Dot segments without a stack.** -/
theorem resolveDots_eq (stack segments : List (List Char)) :
    resolveDots stack segments = (stack.drop (demand segments)).reverse ++ kept segments := by
  fun_induction resolveDots stack segments with
  | case1 stack => simp [demand, kept]
  | case2 stack last hdouble => simp [demand, kept, hdouble]
  | case3 stack last hdouble hsingle => simp [demand, kept, hdouble, hsingle]
  | case4 stack last hdouble hsingle => simp [demand, kept, hdouble, hsingle]
  | case5 stack segment rest hne hdouble ih =>
      rw [ih, demand, if_pos hdouble, kept_cons hne, if_pos (.inl hdouble), ← List.drop_one,
        List.drop_drop, Nat.add_comm 1]
  | case6 stack segment rest hne hdouble hsingle ih =>
      rw [ih, demand, if_neg hdouble, if_pos hsingle, kept_cons hne,
        if_pos (.inr (.inl hsingle))]
  | case7 stack segment rest hne hdouble hsingle ih =>
      rw [ih, demand, if_neg hdouble, if_neg hsingle, kept_cons hne]
      cases hdemand : demand rest with
      | zero => simp [hdouble, hsingle]
      | succ n => simp

/-- A segment that is no dot segment. -/
def IsPlain (segment : List Char) : Prop :=
  isDoubleDot segment = false ∧ isSingleDot segment = false

theorem isPlain_nil : IsPlain [] := ⟨by decide, by decide⟩

theorem kept_plain (segments : List (List Char)) :
    ∀ segment ∈ kept segments, IsPlain segment ∧ (segment ∈ segments ∨ segment = []) := by
  fun_induction kept segments with
  | case1 => simp
  | case2 last hdots =>
      intro segment hmem
      obtain rfl := List.mem_singleton.mp hmem
      exact ⟨isPlain_nil, .inr rfl⟩
  | case3 last hdots =>
      intro segment hmem
      obtain rfl := List.mem_singleton.mp hmem
      rw [not_or, Bool.not_eq_true, Bool.not_eq_true] at hdots
      exact ⟨hdots, .inl List.mem_cons_self⟩
  | case4 segment rest hne hgone ih =>
      intro other hmem
      exact (ih other hmem).imp_right (.imp_left (List.mem_cons_of_mem _))
  | case5 segment rest hne hstays ih =>
      rw [not_or, not_or, Bool.not_eq_true, Bool.not_eq_true] at hstays
      intro other hmem
      obtain rfl | hmem := List.mem_cons.mp hmem
      · exact ⟨⟨hstays.1, hstays.2.1⟩, .inl List.mem_cons_self⟩
      · exact (ih other hmem).imp_right (.imp_left (List.mem_cons_of_mem _))

theorem kept_ne_nil {segments : List (List Char)} (h : segments ≠ []) : kept segments ≠ [] := by
  fun_induction kept segments with
  | case1 => exact absurd rfl h
  | case2 | case3 => simp
  | case4 segment rest hne hgone ih => exact ih hne
  | case5 => simp

/-- Without dot segments all segments are kept. -/
theorem kept_eq_self {segments : List (List Char)} (h : ∀ segment ∈ segments, IsPlain segment) :
    kept segments = segments := by
  have hdemand : ∀ segments : List (List Char), (∀ segment ∈ segments, IsPlain segment) →
      demand segments = 0 := by
    intro segments
    induction segments with
    | nil => intro _; rfl
    | cons segment rest ih =>
        intro h
        obtain ⟨hdouble, hsingle⟩ := h segment List.mem_cons_self
        rw [demand, hdouble, hsingle, ih fun other hmem => h other (List.mem_cons_of_mem _ hmem)]
        rfl
  induction segments with
  | nil => rfl
  | cons segment rest ih =>
      obtain ⟨hdouble, hsingle⟩ := h segment List.mem_cons_self
      have hrest := fun other hmem => h other (List.mem_cons_of_mem segment hmem)
      cases rest with
      | nil => simp [kept, hdouble, hsingle]
      | cons next rest =>
          rw [kept_cons (by simp), hdemand _ hrest, ih hrest]
          simp [hdouble, hsingle]

/-! ### References -/

/-- A slash, or a backslash, which counts as one. -/
def isSlash (c : Char) : Bool := c = '/' ∨ c = '\\'

/-- A URL, as far as a reference determines it; an empty query and none are the same. -/
structure Url (ω : Type) where
  origin : ω
  path : List (List Char)
  query : List Char
  fragment : List Char
deriving DecidableEq

/-- Without blanks and control characters at the end, and without tabs and newlines. -/
def clean (text : List Char) : List Char :=
  (text.rdropWhile fun c => c.toNat ≤ 0x20).filter fun c => c ∉ ['\t', '\n', '\r']

/-- The path of a text. -/
def pathOf (text : List Char) : List (List Char) :=
  resolveDots [] ((text.splitOnP isSlash).map (encode pathSet))

/-- The path, the query and the fragment. -/
def parseRest {ω : Type} (origin : ω) (text : List Char) : Url ω where
  origin := origin
  path := pathOf (text.takeWhile fun c => c ≠ '?' ∧ c ≠ '#')
  query := encode querySet ((((text.takeWhile (· ≠ '#')).dropWhile (· ≠ '?')).drop 1))
  fragment := encode fragmentSet ((text.dropWhile (· ≠ '#')).drop 1)

/-- A reference with a second slash names an authority. -/
def namesAuthority (reference : List Char) : Bool := ((clean reference).drop 1).head?.any isSlash

/-- The characters of an authority. -/
def inAuthority (c : Char) : Bool := ¬ isSlash c ∧ c ≠ '?' ∧ c ≠ '#'

/-- What follows the slash that starts the path. -/
def afterSlash (reference : List Char) : List Char :=
  let rest := (clean reference).drop 1
  if namesAuthority reference then
    let after := (rest.dropWhile isSlash).dropWhile inAuthority
    if after.head?.any isSlash then after.drop 1 else after
  else rest

/-- Resolve a reference that starts with a slash.  `authority` has the origin of an authority,
or `none` where it is not one. -/
def parse {ω : Type} (authority : List Char → Option ω) (base : ω) (reference : List Char) :
    Option (Url ω) :=
  if namesAuthority reference then
    (authority ((((clean reference).drop 1).dropWhile isSlash).takeWhile inAuthority)).map
      fun origin => parseRest origin (afterSlash reference)
  else some (parseRest base (afterSlash reference))

/-- `url.pathname`. -/
def Url.pathname {ω : Type} (url : Url ω) : List Char := url.path.flatMap ('/' :: ·)

/-- `url.search`. -/
def Url.search {ω : Type} (url : Url ω) : List Char :=
  if url.query = [] then [] else '?' :: url.query

/-- `url.hash`. -/
def Url.hash {ω : Type} (url : Url ω) : List Char :=
  if url.fragment = [] then [] else '#' :: url.fragment

/-- Path, query and fragment, written down. -/
def Url.serialize {ω : Type} (url : Url ω) : List Char := url.pathname ++ url.search ++ url.hash

/-! ### Round trip -/

variable {ω : Type} {url : Url ω} {authority : List Char → Option ω} {base origin : ω}

theorem parse_eq_some {reference : List Char} (h : parse authority base reference = some url) :
    url = parseRest url.origin (afterSlash reference) := by
  unfold parse at h
  split at h
  · obtain ⟨origin, -, rfl⟩ := Option.map_eq_some_iff.mp h
    rfl
  · obtain rfl := Option.some.inj h
    rfl

/-- The parser adds no character. -/
theorem mem_afterSlash {reference : List Char} {c : Char} (h : c ∈ afterSlash reference) :
    c ∈ reference := by
  have hclean : ∀ c ∈ (clean reference).drop 1, c ∈ reference := by
    intro c hc
    have hfiltered := (List.mem_filter.mp (List.mem_of_mem_drop hc)).1
    exact (List.rdropWhile_prefix _ _).subset hfiltered
  unfold afterSlash at h
  split at h
  · have hafter : ∀ c ∈ (((clean reference).drop 1).dropWhile isSlash).dropWhile inAuthority,
        c ∈ reference := fun c hc =>
      hclean c ((List.dropWhile_sublist _).subset ((List.dropWhile_sublist _).subset hc))
    dsimp only at h
    split at h
    · exact hafter c (List.mem_of_mem_drop h)
    · exact hafter c h
  · exact hclean c h

/-- A URL whose components are as the parser leaves them. -/
structure Url.Normal (url : Url ω) : Prop where
  path_ne : url.path ≠ []
  plain : ∀ segment ∈ url.path, IsPlain segment
  path : ∀ segment ∈ url.path, ∀ c ∈ segment, pathSet.mem c = false ∧ isSlash c = false
  query : ∀ c ∈ url.query, querySet.mem c = false
  fragment : ∀ c ∈ url.fragment, fragmentSet.mem c = false

/-- No segment has a slash in it. -/
theorem isSlash_of_mem_splitOnP {segment : List Char} (h : segment ∈ text.splitOnP isSlash) :
    ∀ c ∈ segment, isSlash c = false := by
  induction text generalizing segment with
  | nil =>
      obtain rfl := List.mem_singleton.mp h
      simp
  | cons first rest ih =>
      rw [List.splitOnP_cons_eq_if_modifyHead] at h
      split at h
      · obtain rfl | h := List.mem_cons.mp h
        · simp
        · exact ih h
      · rename_i hfirst
        cases hsplit : rest.splitOnP isSlash with
        | nil => exact absurd hsplit (List.splitOnP_ne_nil _ _)
        | cons head tail =>
            rw [hsplit] at h ih
            obtain rfl | h := List.mem_cons.mp h
            · intro c hc
              obtain rfl | hc := List.mem_cons.mp hc
              · simpa using hfirst
              · exact ih List.mem_cons_self c hc
            · exact ih (List.mem_cons_of_mem _ h)

/-- What the parser leaves is normal. -/
theorem parseRest_normal (origin : ω) (text : List Char) : (parseRest origin text).Normal := by
  have hpath : ∀ segment ∈ (parseRest origin text).path, IsPlain segment ∧
      ∀ c ∈ segment, pathSet.mem c = false ∧ isSlash c = false := by
    intro segment hmem
    have hmem : segment ∈ pathOf _ := hmem
    rw [pathOf, resolveDots_eq] at hmem
    obtain ⟨hplain, horigin⟩ := kept_plain _ segment (by simpa using hmem)
    refine ⟨hplain, fun c hc => ?_⟩
    obtain hencoded | rfl := horigin
    · obtain ⟨raw, hraw, rfl⟩ := List.mem_map.mp hencoded
      refine ⟨not_mem_of_mem_encode hc, ?_⟩
      by_contra hslash
      have hno : ∀ c ∈ escapeChars, isSlash c = false := by decide
      have hc := mem_of_mem_encode hc fun hescape => hslash (hno c hescape)
      exact hslash (isSlash_of_mem_splitOnP hraw c hc)
    · cases hc
  refine ⟨?_, fun segment h => (hpath segment h).1, fun segment h => (hpath segment h).2,
    fun c => not_mem_of_mem_encode, fun c => not_mem_of_mem_encode⟩
  show pathOf _ ≠ []
  rw [pathOf, resolveDots_eq]
  simpa using kept_ne_nil (by simp [List.splitOnP_ne_nil])

/-- Where a character that is written down comes from. -/
theorem mem_serialize {c : Char} (h : c ∈ url.serialize) : (c = '/' ∨ c = '?' ∨ c = '#') ∨
    (∃ segment ∈ url.path, c ∈ segment) ∨ c ∈ url.query ∨ c ∈ url.fragment := by
  unfold Url.serialize Url.pathname Url.search Url.hash at h
  rw [List.mem_append, List.mem_append, List.mem_flatMap] at h
  obtain (⟨segment, hsegment, h⟩ | h) | h := h
  · obtain rfl | h := List.mem_cons.mp h
    · exact .inl (.inl rfl)
    · exact .inr (.inl ⟨segment, hsegment, h⟩)
  · split at h
    · cases h
    · obtain rfl | h := List.mem_cons.mp h
      · exact .inl (.inr (.inl rfl))
      · exact .inr (.inr (.inl h))
  · split at h
    · cases h
    · obtain rfl | h := List.mem_cons.mp h
      · exact .inl (.inr (.inr rfl))
      · exact .inr (.inr (.inr h))

/-- What is written down consists of graphic characters. -/
theorem graphic_of_mem_serialize (h : url.Normal) :
    ∀ c ∈ url.serialize, 0x20 < c.toNat ∧ c.toNat ≤ 0x7E := by
  intro c hc
  obtain hmark | ⟨segment, hsegment, hc⟩ | hc | hc := mem_serialize hc
  · obtain rfl | rfl | rfl := hmark <;> decide
  · exact pathSet.graphic c (h.path segment hsegment c hc).1
  · exact querySet.graphic c (h.query c hc)
  · exact fragmentSet.graphic c (h.fragment c hc)

theorem clean_eq_self (h : ∀ c ∈ text, 0x20 < c.toNat) : clean text = text := by
  unfold clean
  have hlast : (text.rdropWhile fun c => c.toNat ≤ 0x20) = text :=
    List.rdropWhile_eq_self_iff.mpr fun hne => by
      have := h _ (List.getLast_mem hne)
      simpa using this
  rw [hlast, List.filter_eq_self]
  intro c hc
  have hgraphic := h c hc
  refine decide_eq_true fun hmem => ?_
  have hlow : ∀ c ∈ ['\t', '\n', '\r'], c.toNat ≤ 0x20 := by decide
  exact absurd (hlow c hmem) (by omega)

/-- Segments, written down one after the other, are read back. -/
theorem splitOnP_join {segment : List Char} {more : List (List Char)}
    (h : ∀ s ∈ segment :: more, ∀ c ∈ s, isSlash c = false) :
    (segment ++ more.flatMap ('/' :: ·)).splitOnP isSlash = segment :: more := by
  induction more generalizing segment with
  | nil =>
      rw [List.flatMap_nil, List.append_nil]
      exact List.splitOnP_eq_singleton (h segment List.mem_cons_self)
  | cons next more ih =>
      rw [List.flatMap_cons, List.cons_append, List.splitOnP_append_cons_of_forall_mem
        (h segment List.mem_cons_self) '/' (by decide),
        ih fun s hs => h s (List.mem_cons_of_mem _ hs)]

/-- A text up to a character that ends it. -/
theorem takeWhile_ended {p : Char → Bool} {body rest : List Char} (hbody : ∀ c ∈ body, p c)
    (hrest : ∀ c, rest.head? = some c → p c = false) :
    (body ++ rest).takeWhile p = body ∧ (body ++ rest).dropWhile p = rest := by
  rw [List.takeWhile_append_of_pos hbody, List.dropWhile_append_of_pos hbody]
  cases rest with
  | nil => exact ⟨List.append_nil _, rfl⟩
  | cons c rest =>
      have hc := hrest c rfl
      rw [List.takeWhile_cons_of_neg (by simp [hc]), List.dropWhile_cons_of_neg (by simp [hc])]
      exact ⟨List.append_nil _, rfl⟩

/-- The path of a written path. -/
theorem pathOf_join {segment : List Char} {more : List (List Char)}
    (hplain : ∀ s ∈ segment :: more, IsPlain s)
    (h : ∀ s ∈ segment :: more, ∀ c ∈ s, pathSet.mem c = false ∧ isSlash c = false) :
    pathOf (segment ++ more.flatMap ('/' :: ·)) = segment :: more := by
  have hencode : (segment :: more).map (encode pathSet) = segment :: more :=
    (List.map_congr_left fun s hs => encode_eq_self fun c hc => (h s hs c hc).1).trans
      (List.map_id _)
  rw [pathOf, splitOnP_join fun s hs c hc => (h s hs c hc).2, hencode, resolveDots_eq,
    kept_eq_self hplain]
  simp

theorem Url.head_search {c : Char} (h : url.search.head? = some c) : c = '?' := by
  unfold search at h
  split at h
  · cases h
  · exact (Option.some.inj h).symm

theorem Url.head_hash {c : Char} (h : url.hash.head? = some c) : c = '#' := by
  unfold hash at h
  split at h
  · cases h
  · exact (Option.some.inj h).symm

/-- What comes after the path begins with its mark. -/
theorem Url.head_search_hash {c : Char} (h : (url.search ++ url.hash).head? = some c) :
    c = '?' ∨ c = '#' := by
  rw [List.head?_append] at h
  obtain h | ⟨-, h⟩ := Option.or_eq_some_iff.mp h
  · exact .inl (Url.head_search h)
  · exact .inr (Url.head_hash h)

theorem Url.Normal.search_ne (h : url.Normal) : ∀ c ∈ url.search, c ≠ '#' := by
  have hset : querySet.mem '#' = true := by decide
  intro c hc
  unfold Url.search at hc
  split at hc
  · cases hc
  · obtain rfl | hc := List.mem_cons.mp hc
    · decide
    · rintro rfl
      rw [h.query _ hc] at hset
      cases hset

/-- The segments of a normal path do not end it. -/
theorem Url.Normal.pathname_ne (h : url.Normal) : ∀ c ∈ url.pathname, c ≠ '?' ∧ c ≠ '#' := by
  have hset : pathSet.mem '?' = true ∧ pathSet.mem '#' = true := by decide
  intro c hc
  obtain ⟨segment, hsegment, hc⟩ := List.mem_flatMap.mp hc
  obtain rfl | hc := List.mem_cons.mp hc
  · decide
  · have hmem := (h.path segment hsegment c hc).1
    refine ⟨?_, ?_⟩
    · rintro rfl
      rw [hset.1] at hmem
      cases hmem
    · rintro rfl
      rw [hset.2] at hmem
      cases hmem

theorem Url.drop_search : url.search.drop 1 = url.query := by
  unfold search
  split
  · rename_i hnone
    exact hnone.symm
  · rfl

theorem Url.drop_hash : url.hash.drop 1 = url.fragment := by
  unfold hash
  split
  · rename_i hnone
    exact hnone.symm
  · rfl

/-- The components of a normal URL are read back. -/
theorem Url.Normal.parseRest (h : url.Normal) :
    UrlReference.parseRest base (url.serialize.drop 1) = { url with origin := base } := by
  obtain ⟨segment, more, hpath⟩ := List.exists_cons_of_ne_nil h.path_ne
  have hname : url.pathname = '/' :: (segment ++ more.flatMap ('/' :: ·)) := by
    rw [Url.pathname, hpath, List.flatMap_cons]
    rfl
  have hbody : ∀ c ∈ segment ++ more.flatMap ('/' :: ·), c ≠ '?' ∧ c ≠ '#' := by
    intro c hc
    exact h.pathname_ne c (by rw [hname]; exact List.mem_cons_of_mem _ hc)
  have hread : pathOf (segment ++ more.flatMap ('/' :: ·)) = url.path := by
    rw [hpath]
    exact pathOf_join (hpath ▸ h.plain) (hpath ▸ h.path)
  have hrest : url.serialize.drop 1 =
      (segment ++ more.flatMap ('/' :: ·)) ++ url.search ++ url.hash := by
    rw [Url.serialize, hname]
    rfl
  rw [hrest]
  generalize segment ++ more.flatMap ('/' :: ·) = body at hbody hread
  have hpathText : (body ++ url.search ++ url.hash).takeWhile (fun c => c ≠ '?' ∧ c ≠ '#') =
      body := by
    rw [List.append_assoc]
    refine (takeWhile_ended (fun c hc => decide_eq_true (hbody c hc)) fun c hc => ?_).1
    obtain rfl | rfl := Url.head_search_hash hc
    · decide
    · decide
  have hsplit : (body ++ url.search ++ url.hash).takeWhile (· ≠ '#') = body ++ url.search ∧
      (body ++ url.search ++ url.hash).dropWhile (· ≠ '#') = url.hash := by
    refine takeWhile_ended (fun c hc => decide_eq_true ?_) fun c hc => ?_
    · obtain hc | hc := List.mem_append.mp hc
      · exact (hbody c hc).2
      · exact h.search_ne c hc
    · rw [Url.head_hash hc]
      decide
  have hquery : (body ++ url.search).dropWhile (· ≠ '?') = url.search := by
    refine (takeWhile_ended (fun c hc => decide_eq_true (hbody c hc).1) fun c hc => ?_).2
    rw [Url.head_search hc]
    decide
  unfold UrlReference.parseRest
  rw [hpathText, hsplit.1, hsplit.2, hquery, hread, Url.drop_search, Url.drop_hash,
    encode_eq_self h.query, encode_eq_self h.fragment]

/-- What follows the first slash of a written URL is no slash. -/
theorem Url.Normal.second (h : url.Normal)
    (hstart : ∀ second more, url.path ≠ [] :: second :: more) {c : Char}
    (hc : (url.serialize.drop 1).head? = some c) : isSlash c = false := by
  obtain ⟨segment, more, hpath⟩ := List.exists_cons_of_ne_nil h.path_ne
  have hrest : url.serialize.drop 1 =
      segment ++ more.flatMap ('/' :: ·) ++ url.search ++ url.hash := by
    rw [Url.serialize, Url.pathname, hpath, List.flatMap_cons]
    rfl
  rw [hrest] at hc
  cases segment with
  | cons first rest =>
      obtain rfl := Option.some.inj hc
      exact (h.path _ (hpath ▸ List.mem_cons_self) _ List.mem_cons_self).2
  | nil =>
      cases more with
      | cons second more => exact absurd hpath (hstart second more)
      | nil =>
          have hc : (url.search ++ url.hash).head? = some c := hc
          obtain rfl | rfl := Url.head_search_hash hc
          · decide
          · decide

/-- **Round trip.**  A normal URL that is written down and resolved against any origin has the
same components, unless its path starts with an empty segment that another one follows. -/
theorem parse_serialize (h : url.Normal) (hstart : ∀ second more, url.path ≠ [] :: second :: more) :
    parse authority base url.serialize = some { url with origin := base } := by
  have hclean := clean_eq_self fun c hc => (graphic_of_mem_serialize h c hc).1
  have hsecond : ¬ namesAuthority url.serialize = true := by
    unfold namesAuthority
    rw [hclean]
    intro hslash
    obtain ⟨c, hc, hslash⟩ := (Option.any_eq_true _ _).mp hslash
    rw [h.second hstart hc] at hslash
    cases hslash
  unfold parse afterSlash
  rw [if_neg hsecond, if_neg hsecond, hclean, h.parseRest]

end UrlReference
