import RecruitingOs.Extractor.HeuristicExtract

/-!
# Dates with the name of a month

What `dateFromText` reads behind the name of a month: at most two digits for the day, and four for
the year, whatever comes after them.  A month with its year has a day in the first two digits of
the year (`dateFromText_whole_iff`).
-/

namespace RecruitingOs

open Regex

variable {prev : Option UInt16} {v w : Utf16} {f : Found UInt16}

/-! ### What follows a month name -/

/-- Behind an optional sign, and space. -/
def skip (sign : UInt16) (text : Utf16) : Utf16 :=
  (if text.head? = some sign then text.tail else text).dropWhile Utf16.isSpace

/-- The ending of an ordinal number. -/
def IsOrdinal (text : Utf16) : Prop :=
  text.map Utf16.lower ∈ ["st", "nd", "rd", "th"].map Utf16.of

instance (text : Utf16) : Decidable (IsOrdinal text) := inferInstanceAs (Decidable (_ ∈ _))

/-- What is written behind a day, when an ordinal ending, a comma and space are left aside. -/
def behindDay (text : Utf16) : Utf16 :=
  skip 44 (if IsOrdinal (text.take 2) then text.drop 2 else text)

/-- The number that a text begins with. -/
def numberOf (text : Utf16) : Utf16 := text.takeWhile Utf16.isDigit

/-- The number behind the day. -/
def yearNumber (text : Utf16) : Utf16 := numberOf (behindDay (text.dropWhile Utf16.isDigit))

section

variable (getTime : String → Option ℤ) (now : ℤ)

/-- The date of a month whose day and year are the numbers behind its name. -/
def wholeDate (publishedAt : Option String) (name text : Utf16) : String :=
  (if (yearNumber text).length = 4 ∧ (yearNumber text).take 2 = Utf16.of "20" then
    Utf16.decode (yearNumber text) else publicationYear getTime now publishedAt) ++ "-" ++
    monthText name ++ "-" ++ Utf16.decode (padStart2 (numberOf text))

end

/-! ### What the pattern finds -/

/-- The four digits of a year, with which a longer number may begin. -/
def foundYear (number : Utf16) : Option Utf16 :=
  if 4 ≤ number.length ∧ number.take 2 = Utf16.of "20" then some (number.take 4) else none

theorem mem_matchesAt_centuryYear : f ∈ centuryYear.matchesAt prev w ↔
    ∃ a b rest, w = 50 :: 48 :: a :: b :: rest ∧ Utf16.isDigit a = true ∧
      Utf16.isDigit b = true ∧ f = ⟨[50, 48, a, b], rest, []⟩ := by
  simp only [centuryYear, all, mem_matchesAt_seq, Utf16.unit, mem_matchesAt_one,
    mem_matchesAt_run_two, mem_matchesAt_empty]
  constructor
  · rintro ⟨_, ⟨x, rest, rfl, hx, rfl⟩, _, ⟨_, ⟨y, rest', hrest, hy, rfl⟩, _, ⟨_, ⟨a, b, rest'',
      hrest', ha, hb, rfl⟩, _, rfl, rfl⟩, rfl⟩, rfl⟩
    dsimp only at hrest hrest'
    subst hrest
    subst hrest'
    obtain rfl : x = 50 := of_decide_eq_true hx
    obtain rfl : y = 48 := of_decide_eq_true hy
    exact ⟨a, b, rest'', rfl, ha, hb, rfl⟩
  · rintro ⟨a, b, rest, rfl, ha, hb, rfl⟩
    exact ⟨_, ⟨50, _, rfl, rfl, rfl⟩, _, ⟨_, ⟨48, _, rfl, rfl, rfl⟩, _, ⟨_, ⟨a, b, rest, rfl, ha, hb,
      rfl⟩, _, rfl, rfl⟩, rfl⟩, rfl⟩

/-- A text begins with such a year where its number does. -/
theorem begins_year_iff : 4 ≤ (numberOf w).length ∧ (numberOf w).take 2 = Utf16.of "20" ↔
    ∃ a b rest, w = 50 :: 48 :: a :: b :: rest ∧ Utf16.isDigit a = true ∧
      Utf16.isDigit b = true := by
  have hof : Utf16.of "20" = [50, 48] := by decide
  rw [hof]
  constructor
  · rintro ⟨hlength, htake⟩
    have hsplit : numberOf w ++ w.dropWhile Utf16.isDigit = w := List.takeWhile_append_dropWhile
    have hdigits : ∀ u ∈ numberOf w, Utf16.isDigit u = true := fun u hu =>
      List.mem_takeWhile_imp hu
    generalize numberOf w = number at hlength htake hsplit hdigits
    obtain ⟨x, y, a, b, rest, rfl⟩ : ∃ x y a b rest, number = x :: y :: a :: b :: rest := by
      rcases number with _ | ⟨x, _ | ⟨y, _ | ⟨a, _ | ⟨b, rest⟩⟩⟩⟩
      · simp at hlength
      · simp at hlength
      · simp at hlength
      · simp at hlength
      · exact ⟨x, y, a, b, rest, rfl⟩
    obtain ⟨rfl, rfl⟩ : x = 50 ∧ y = 48 := by simpa using htake
    exact ⟨a, b, _, hsplit.symm, hdigits a (by simp), hdigits b (by simp)⟩
  · rintro ⟨a, b, rest, rfl, ha, hb⟩
    have h2 : Utf16.isDigit 50 = true := by decide
    have h0 : Utf16.isDigit 48 = true := by decide
    simp [numberOf, ha, hb, h2, h0]

/-- Behind an optional sign and a run of space, there is what follows them. -/
theorem rest_eq_skip {sign u : UInt16} {lo : ℕ} {prev' : Option UInt16} {a b : Found UInt16}
    (ha : a ∈ (opt (one fun v => decide (v = sign))).matchesAt prev w)
    (hb : b ∈ (run Utf16.isSpace lo none).matchesAt prev' a.rest) (hu : b.rest.head? = some u)
    (hspace : Utf16.isSpace u = false) (hsign : Utf16.isSpace sign = false) (hne : u ≠ sign) :
    b.rest = skip sign w := by
  have hrest := (run_eq_takeWhile hb fun x hx => by
    obtain rfl := Option.some_inj.mp (hu.symm.trans hx)
    exact hspace).2
  rw [hrest, skip]
  rcases mem_matchesAt_opt.mp ha with ha | rfl
  · obtain ⟨x, rest, rfl, hx, rfl⟩ := mem_matchesAt_one.mp ha
    obtain rfl := of_decide_eq_true hx
    rw [if_pos List.head?_cons, List.tail_cons]
  · -- a sign would end the run
    rw [if_neg]
    intro hhead
    refine hne ?_
    obtain ⟨rest, rfl⟩ := List.head?_eq_some_iff.mp hhead
    rw [hrest, List.dropWhile_cons_of_neg (by simp [hsign])] at hu
    exact (Option.some_inj.mp hu).symm

theorem mem_yearPattern (h : f ∈ yearPattern.matchesAt prev v) :
    ∃ a b rest, skip 44 v = 50 :: 48 :: a :: b :: rest ∧ Utf16.isDigit a = true ∧
      Utf16.isDigit b = true ∧ f.groups = [(3, [50, 48, a, b])] := by
  obtain ⟨comma, hcomma, _, hbehind, rfl⟩ := mem_matchesAt_seq.mp h
  obtain ⟨space, hspace, _, hlast, rfl⟩ := mem_matchesAt_seq.mp hbehind
  obtain ⟨year, hyear, _, hend, rfl⟩ := mem_matchesAt_seq.mp hlast
  obtain ⟨found, hfound, rfl⟩ := mem_matchesAt_group.mp hyear
  obtain ⟨a, b, rest, hrest, ha, hb, rfl⟩ := mem_matchesAt_centuryYear.mp hfound
  obtain rfl := mem_matchesAt_empty.mp hend
  have hskip : space.rest = skip 44 v :=
    rest_eq_skip (u := 50) hcomma hspace (by rw [hrest]; rfl) (by decide) (by decide) (by decide)
  refine ⟨a, b, rest, hskip.symm.trans hrest, ha, hb, ?_⟩
  · rw [groups_eq_nil rfl hcomma, groups_eq_nil rfl hspace]
    rfl

theorem yearPattern_ne_nil {a b : UInt16} {rest : Utf16}
    (h : skip 44 v = 50 :: 48 :: a :: b :: rest) (ha : Utf16.isDigit a = true)
    (hb : Utf16.isDigit b = true) : yearPattern.matchesAt prev v ≠ [] := by
  obtain ⟨comma, hcomma, hskip⟩ : ∃ comma ∈ (opt (Utf16.unit ',')).matchesAt prev v,
      skip 44 v = comma.rest.dropWhile Utf16.isSpace := by
    unfold skip
    split
    · rename_i hhead
      obtain ⟨rest, rfl⟩ := List.head?_eq_some_iff.mp hhead
      exact ⟨⟨[44], rest, []⟩,
        mem_matchesAt_opt.mpr (.inl (mem_matchesAt_one.mpr ⟨44, rest, rfl, rfl, rfl⟩)), rfl⟩
    · exact ⟨⟨[], v, []⟩, mem_matchesAt_opt.mpr (.inr rfl), rfl⟩
  refine List.ne_nil_of_mem (mem_matchesAt_seq.mpr ⟨comma, hcomma, _, mem_matchesAt_seq.mpr
    ⟨_, takeWhile_mem_run (Nat.zero_le _), _, mem_matchesAt_seq.mpr ⟨_, mem_matchesAt_group.mpr
      ⟨_, mem_matchesAt_centuryYear.mpr ⟨a, b, rest, hskip.symm.trans h, ha, hb, rfl⟩, rfl⟩, _,
        mem_matchesAt_empty.mpr rfl, rfl⟩, rfl⟩, rfl⟩)

/-- The year that is found behind a day. -/
theorem matchAt_opt_yearPattern (prev : Option UInt16) (v : Utf16) :
    ∃ f, (opt yearPattern).matchAt prev v = some f ∧
      f.groups = ((foundYear (numberOf (skip 44 v))).map fun year => (3, year)).toList := by
  refine ⟨_, matchAt_opt, ?_⟩
  unfold foundYear
  cases hfound : yearPattern.matchAt prev v with
  | some f =>
      obtain ⟨a, b, rest, hskip, ha, hb, hgroups⟩ := mem_yearPattern (mem_of_matchAt hfound)
      have hdigits : Utf16.isDigit 50 = true ∧ Utf16.isDigit 48 = true := by decide
      rw [if_pos (begins_year_iff.mpr ⟨a, b, rest, hskip, ha, hb⟩), Option.getD_some, hgroups,
        hskip]
      simp [numberOf, ha, hb, hdigits]
  | none =>
      rw [if_neg]
      · rfl
      · intro hyear
        obtain ⟨a, b, rest, hskip, ha, hb⟩ := begins_year_iff.mp hyear
        exact yearPattern_ne_nil hskip ha hb (matchAt_eq_none.mp hfound)

theorem mem_ordinalPattern : f ∈ ordinalPattern.matchesAt prev w ↔
    IsOrdinal (w.take 2) ∧ f = ⟨w.take 2, w.drop 2, []⟩ := by
  have htwo : ∀ s ∈ ["st", "nd", "rd", "th"], (Utf16.of s).map Utf16.lower = Utf16.of s ∧
      (Utf16.of s).length = 2 := by decide
  have hordinal : f ∈ ordinalPattern.matchesAt prev w ↔
      ∃ s ∈ ["st", "nd", "rd", "th"], f ∈ (Utf16.word s).matchesAt prev w := by
    rw [ordinalPattern, mem_matchesAt_any]
    simp only [List.mem_cons, List.not_mem_nil, or_false, exists_eq_or_imp, exists_eq_left]
  rw [hordinal]
  constructor
  · rintro ⟨s, hs, hfound⟩
    obtain ⟨text, rest, rfl, htext, rfl⟩ := Utf16.mem_matchesAt_word.mp hfound
    rw [(htwo s hs).1] at htext
    have hlength : text.length = 2 := by
      rw [← (htwo s hs).2, ← htext, List.length_map]
    rw [← hlength, List.take_left, List.drop_left]
    exact ⟨List.mem_map.mpr ⟨s, hs, htext.symm⟩, rfl⟩
  · rintro ⟨hending, rfl⟩
    obtain ⟨s, hs, htext⟩ := List.mem_map.mp hending
    exact ⟨s, hs, Utf16.mem_matchesAt_word.mpr ⟨_, _, (List.take_append_drop 2 w).symm,
      htext.symm.trans (htwo s hs).1.symm, rfl⟩⟩

/-- An ordinal ending is left aside. -/
theorem matchAt_opt_ordinalPattern (prev : Option UInt16) (w : Utf16) :
    ∃ f, (opt ordinalPattern).matchAt prev w = some f ∧
      f.rest = (if IsOrdinal (w.take 2) then w.drop 2 else w) ∧ f.groups = [] := by
  by_cases hordinal : IsOrdinal (w.take 2)
  · have hfound : ordinalPattern.matchAt prev w = some ⟨w.take 2, w.drop 2, []⟩ :=
      matchAt_of_unique (mem_ordinalPattern.mpr ⟨hordinal, rfl⟩)
        fun g hg => (mem_ordinalPattern.mp hg).2
    refine ⟨⟨w.take 2, w.drop 2, []⟩, ?_, ?_, rfl⟩
    · rw [matchAt_opt, hfound]
      rfl
    · rw [if_pos hordinal]
  · refine ⟨⟨[], w, []⟩, matchAt_opt_none (List.eq_nil_iff_forall_not_mem.mpr fun g hg => ?_), ?_,
      rfl⟩
    · exact hordinal (mem_ordinalPattern.mp hg).1
    · rw [if_neg hordinal]

/-- The groups of a day, and of a year behind it. -/
def dayGroups (text : Utf16) : List (ℕ × Utf16) :=
  (2, (numberOf text).take 2) ::
    ((foundYear (numberOf (behindDay (text.drop ((numberOf text).take 2).length)))).map
      fun year => (3, year)).toList

/-- The part of the pattern from the day on. -/
theorem matchAt_day (h : (all [group 2 (run Utf16.isDigit 1 (some 2)), opt ordinalPattern,
    opt yearPattern]).matchAt prev w = some f) : numberOf w ≠ [] ∧ f.groups = dayGroups w := by
  obtain ⟨day, hday, -⟩ := exists_of_matchAt_seq h
  obtain ⟨digits, hdigits, rfl⟩ := mem_matchesAt_group.mp hday
  have hpos : 1 ≤ reach Utf16.isDigit (some 2) w := by
    obtain ⟨k, hlo, hk, -⟩ := mem_matchesAt_run.mp hdigits
    exact Nat.le_trans hlo hk
  have hnumber : numberOf w ≠ [] :=
    List.ne_nil_of_length_pos (Nat.lt_of_lt_of_le hpos reach_le_takeWhile)
  have htake : w.take (reach Utf16.isDigit (some 2) w) = (numberOf w).take 2 := by
    rw [take_eq_take_takeWhile reach_le_takeWhile, reach, ← List.take_eq_take_min]
    rfl
  have hdrop : w.drop (reach Utf16.isDigit (some 2) w) =
      w.drop ((numberOf w).take 2).length := by
    rw [List.length_take]
    rfl
  obtain ⟨ordinal, hordinal, hrest, hgroups⟩ := matchAt_opt_ordinalPattern
    (((numberOf w).take 2).getLast?.or prev) (w.drop ((numberOf w).take 2).length)
  obtain ⟨year, hyear, hyearGroups⟩ := matchAt_opt_yearPattern
    (ordinal.text.getLast?.or (((numberOf w).take 2).getLast?.or prev)) ordinal.rest
  have hrun : (run Utf16.isDigit 1 (some 2)).matchAt prev w = _ := matchAt_run hpos
  have hfound := (matchAt_group (n := 2)).trans (congrArg (Option.map _) hrun)
  rw [htake, hdrop] at hfound
  have hmatch := matchAt_seq hfound (matchAt_seq hordinal (matchAt_seq hyear matchAt_empty))
  rw [all, all, all, all] at h
  obtain rfl := Option.some_inj.mp (h.symm.trans hmatch)
  refine ⟨hnumber, ?_⟩
  simp only [hgroups, hyearGroups, hrest, dayGroups, behindDay, List.nil_append, List.append_nil,
    List.cons_append]

theorem lower_of_stem {short rest : String} (h : f ∈ (stem short rest).matchesAt prev w) :
    f.text.map Utf16.lower = (Utf16.of short).map Utf16.lower ∨
      f.text.map Utf16.lower =
        (Utf16.of short).map Utf16.lower ++ (Utf16.of rest).map Utf16.lower := by
  obtain ⟨a, ha, b, hb, rfl⟩ := mem_matchesAt_seq.mp h
  obtain ⟨first, behind, rfl, hfirst, rfl⟩ := Utf16.mem_matchesAt_word.mp ha
  rw [List.map_append, hfirst]
  rcases mem_matchesAt_opt.mp hb with hb | rfl
  · obtain ⟨second, behind, rfl, hsecond, rfl⟩ := Utf16.mem_matchesAt_word.mp hb
    rw [hsecond]
    exact .inr rfl
  · rw [List.map_nil, List.append_nil]
    exact .inl rfl

/-- The names of the pattern are those of the table. -/
theorem monthText_of_monthNames (h : f ∈ monthNames.matchesAt prev w) :
    ∃ n, 1 ≤ n ∧ n ≤ 12 ∧ monthText f.text = IsoTime.pad 2 n := by
  have htable : ∀ name ∈ months.map Prod.fst, ∃ n < 13, 1 ≤ n ∧
      (months.lookup (name.erase 46)).getD "undefined" = IsoTime.pad 2 n := by decide +kernel
  suffices hname : f.text.map Utf16.lower ∈ months.map Prod.fst by
    obtain ⟨n, hle, hpos, htext⟩ := htable _ hname
    exact ⟨n, hpos, Nat.le_of_lt_succ hle, htext⟩
  have hstem : ∀ {short rest : String},
      (Utf16.of short).map Utf16.lower ∈ months.map Prod.fst →
      (Utf16.of short).map Utf16.lower ++ (Utf16.of rest).map Utf16.lower ∈ months.map Prod.fst →
      f ∈ (stem short rest).matchesAt prev w → f.text.map Utf16.lower ∈ months.map Prod.fst := by
    intro short rest hshort hlong hfound
    rcases lower_of_stem hfound with hname | hname
    · rwa [hname]
    · rwa [hname]
  rw [monthNames, mem_matchesAt_any] at h
  simp only [List.mem_cons, List.not_mem_nil, or_false, exists_eq_or_imp, exists_eq_left] at h
  rcases h with h | h | h | h | h | h | h | h | h | h | h | h
  · exact hstem (by decide) (by decide) h
  · exact hstem (by decide) (by decide) h
  · exact hstem (by decide) (by decide) h
  · exact hstem (by decide) (by decide) h
  · obtain ⟨text, rest, rfl, htext, rfl⟩ := Utf16.mem_matchesAt_word.mp h
    rw [htext]
    decide
  · exact hstem (by decide) (by decide) h
  · exact hstem (by decide) (by decide) h
  · exact hstem (by decide) (by decide) h
  · -- the abbreviation may be longer by a letter
    obtain ⟨a, ha, b, hb, rfl⟩ := mem_matchesAt_seq.mp h
    obtain ⟨first, behind, rfl, hfirst, rfl⟩ := Utf16.mem_matchesAt_word.mp ha
    rw [List.map_append, hfirst]
    rcases mem_matchesAt_opt.mp hb with hb | rfl
    · have hlong : b ∈ (stem "t" "ember").matchesAt _ _ := hb
      rcases lower_of_stem hlong with hrest | hrest
      · rw [hrest]
        decide
      · rw [hrest]
        decide
    · rw [List.map_nil, List.append_nil]
      decide
  · exact hstem (by decide) (by decide) h
  · exact hstem (by decide) (by decide) h
  · exact hstem (by decide) (by decide) h
/-- What the pattern finds: the name of a month, and the numbers behind it. -/
theorem exists_of_monthDatePattern (h : monthDatePattern.matchAt prev w = some f) :
    ∃ name rest, w = name ++ rest ∧ f.group 1 = some name ∧
      (∃ n, 1 ≤ n ∧ n ≤ 12 ∧ monthText name = IsoTime.pad 2 n) ∧
      numberOf (skip 46 rest) ≠ [] ∧ f.groups = (1, name) :: dayGroups (skip 46 rest) := by
  obtain ⟨edge, hedge, named, hnamed, rfl⟩ := exists_of_matchAt_seq h
  obtain rfl := eq_of_mem_matchesAt_boundary hedge
  obtain ⟨first, hfirst, tail, htail, rfl⟩ := exists_of_matchAt_seq hnamed
  obtain ⟨name, hname, rfl⟩ := mem_matchesAt_group.mp hfirst
  obtain ⟨point, hpoint, behind, hbehind, rfl⟩ := exists_of_matchAt_seq htail
  obtain ⟨space, hspace, numbers, hnumbers, rfl⟩ := exists_of_matchAt_seq hbehind
  obtain ⟨hnumber, hgroups⟩ := matchAt_day hnumbers
  obtain ⟨u, digits, hdigits⟩ := List.exists_cons_of_ne_nil hnumber
  have hdigit : Utf16.isDigit u = true :=
    List.mem_takeWhile_imp (hdigits ▸ List.mem_cons_self : u ∈ numberOf space.rest)
  have hhead : space.rest.head? = some u := by
    have hsplit : numberOf space.rest ++ space.rest.dropWhile Utf16.isDigit = space.rest :=
      List.takeWhile_append_dropWhile
    rw [← hsplit, hdigits]
    rfl
  have hskip : space.rest = skip 46 name.rest :=
    rest_eq_skip hpoint hspace hhead (Utf16.not_isSpace_of_isDigit hdigit) (by decide) (by
      rintro rfl
      exact absurd hdigit (by decide))
  refine ⟨name.text, name.rest, (text_append_rest hname).symm, rfl,
    monthText_of_monthNames hname, hskip ▸ hnumber, ?_⟩
  simp only [groups_eq_nil rfl hname, groups_eq_nil rfl hpoint, groups_eq_nil rfl hspace, hgroups,
    hskip, List.nil_append, List.cons_append]

/-! ### The date that is answered -/

/-- `dateFromText` answers from the name of a month: no date of digits is found, and the name is
the first in the text that a number follows. -/
structure MonthNamed (s before name rest : Utf16) : Prop where
  noIso : isoDateFromText s = none
  text : s = before ++ (name ++ rest)
  found : ∃ f, monthDatePattern.searchFrom none s = some (before, f) ∧ f.group 1 = some name

/-- The number behind a day may begin as a year of this century does, and be longer. -/
def IsLongYear (number : Utf16) : Prop := 4 < number.length ∧ number.take 2 = Utf16.of "20"

variable {getTime : String → Option ℤ} {now : ℤ} {s before name rest : Utf16}
  {publishedAt : Option String}

theorem monthDate_eq (hname : f.group 1 = some name) {text : Utf16}
    (hgroups : f.groups = (1, name) :: dayGroups text) :
    monthDate getTime now f publishedAt =
      some (((foundYear (numberOf (behindDay (text.drop ((numberOf text).take 2).length)))).map
        Utf16.decode).getD (publicationYear getTime now publishedAt) ++ "-" ++ monthText name ++
          "-" ++ Utf16.decode (padStart2 ((numberOf text).take 2))) := by
  have hday : f.group 2 = some ((numberOf text).take 2) := by
    rw [Found.group, hgroups]
    rfl
  have hyear : f.group 3 =
      foundYear (numberOf (behindDay (text.drop ((numberOf text).take 2).length))) := by
    rw [Found.group, hgroups]
    unfold dayGroups
    generalize foundYear (numberOf (behindDay (text.drop ((numberOf text).take 2).length))) = year
    cases year with
    | none => rfl
    | some year => rfl
  unfold monthDate
  rw [hname, hday, hyear]
  rfl

/-- Every answer of the second pattern is one. -/
theorem exists_monthNamed {date : String} (hiso : isoDateFromText s = none)
    (h : (monthDatePattern.search s).bind (fun m => monthDate getTime now m publishedAt) =
      some date) : ∃ before name rest, MonthNamed s before name rest := by
  obtain ⟨f, hsearch, -⟩ := Option.bind_eq_some_iff.mp h
  obtain ⟨⟨before, f⟩, hfound, rfl⟩ := Option.map_eq_some_iff.mp hsearch
  obtain ⟨hmatch, htext⟩ := matchAt_of_searchFrom hfound
  obtain ⟨name, rest, hname, hgroup, -⟩ := exists_of_monthDatePattern hmatch
  refine ⟨before, name, rest, hiso, ?_, f, hfound, hgroup⟩
  rw [← hname, ← htext, List.drop_left]

/-- The answer is the month's number between a year and the digits of a day. -/
theorem MonthNamed.dateFromText_eq (h : MonthNamed s before name rest) :
    (∃ n, 1 ≤ n ∧ n ≤ 12 ∧ monthText name = IsoTime.pad 2 n) ∧ numberOf (skip 46 rest) ≠ [] ∧
    dateFromText getTime now s publishedAt =
      .ok (some (((foundYear (numberOf (behindDay ((skip 46 rest).drop
        ((numberOf (skip 46 rest)).take 2).length)))).map Utf16.decode).getD
          (publicationYear getTime now publishedAt) ++ "-" ++ monthText name ++ "-" ++
            Utf16.decode (padStart2 ((numberOf (skip 46 rest)).take 2)))) := by
  obtain ⟨hiso, htext, f, hfound, hname⟩ := h
  obtain ⟨hmatch, -⟩ := matchAt_of_searchFrom hfound
  obtain ⟨name', rest', hsplit, hname', hmonth, hnumber, hgroups⟩ := exists_of_monthDatePattern hmatch
  obtain rfl : name = name' := Option.some_inj.mp (hname.symm.trans hname')
  rw [htext, List.drop_left] at hsplit
  obtain rfl := List.append_cancel_left hsplit
  refine ⟨hmonth, hnumber, ?_⟩
  have hsearch : monthDatePattern.search s = some f := by
    rw [search, hfound]
    rfl
  unfold dateFromText
  rw [hiso, hsearch]
  dsimp only [Option.bind_some]
  rw [monthDate_eq hname hgroups]
/-- The last part of a joined text is determined by it. -/
theorem last_join_inj {xs ys a b : List Char} (ha : '-' ∉ a) (hb : '-' ∉ b)
    (h : xs ++ '-' :: a = ys ++ '-' :: b) : xs = ys ∧ a = b := by
  rcases List.append_eq_append_iff.mp h with ⟨c, rfl, hc⟩ | ⟨c, rfl, hc⟩
  · cases c with
    | nil => exact ⟨(List.append_nil xs).symm, (List.cons.inj hc).2⟩
    | cons x c =>
        rw [List.cons_append] at hc
        rw [(List.cons.inj hc).2] at ha
        exact absurd (List.mem_append_right c List.mem_cons_self) ha
  · cases c with
    | nil => exact ⟨List.append_nil ys, ((List.cons.inj hc).2).symm⟩
    | cons x c =>
        rw [List.cons_append] at hc
        rw [(List.cons.inj hc).2] at hb
        exact absurd (List.mem_append_right c List.mem_cons_self) hb

theorem toList_join (x d : String) : (x ++ "-" ++ d).toList = x.toList ++ '-' :: d.toList := by
  rw [String.toList_append, String.toList_append, List.append_assoc]
  rfl

theorem isDigit_padStart2 {number : Utf16} (h : ∀ u ∈ number, Utf16.isDigit u = true) :
    ∀ u ∈ padStart2 number, Utf16.isDigit u = true := by
  intro u hu
  rcases List.mem_append.mp hu with hzero | hdigit
  · obtain ⟨-, rfl⟩ := List.mem_replicate.mp hzero
    decide
  · exact h u hdigit

theorem dash_notMem_decode {number : Utf16} (h : ∀ u ∈ number, Utf16.isDigit u = true) :
    '-' ∉ (Utf16.decode number).toList := by
  rw [Utf16.toList_decode h]
  intro hdash
  obtain ⟨u, hu, heq⟩ := List.mem_map.mp hdash
  have hdigit := Utf16.isDigit_digitChar (h u hu)
  rw [heq] at hdigit
  exact absurd hdigit (by decide)

/-- **The date of a month name** is read whole where its day has at most two digits, and the number
behind the day is no longer than a year, or begins with the year of the publication. -/
theorem dateFromText_whole_iff (getTime : String → Option ℤ) (now : ℤ)
    (publishedAt : Option String) (s before name rest : Utf16)
    (h : MonthNamed s before name rest) :
    dateFromText getTime now s publishedAt =
        .ok (some (wholeDate getTime now publishedAt name (skip 46 rest))) ↔
      (numberOf (skip 46 rest)).length ≤ 2 ∧
        (IsLongYear (yearNumber (skip 46 rest)) →
          Utf16.decode ((yearNumber (skip 46 rest)).take 4) =
            publicationYear getTime now publishedAt) := by
  rw [h.dateFromText_eq.2.2]
  generalize skip 46 rest = text
  have hdigits : ∀ u ∈ numberOf text, Utf16.isDigit u = true := fun u hu =>
    List.mem_takeWhile_imp hu
  have htake : ∀ u ∈ (numberOf text).take 2, Utf16.isDigit u = true := fun u hu =>
    hdigits u (List.mem_of_mem_take hu)
  rw [Except.ok.injEq, Option.some_inj, wholeDate]
  by_cases hlength : (numberOf text).length ≤ 2
  · -- the day is read whole, and the years are to be compared
    have hdrop : text.drop (numberOf text).length = text.dropWhile Utf16.isDigit := by
      have hsplit : numberOf text ++ text.dropWhile Utf16.isDigit = text :=
        List.takeWhile_append_dropWhile
      calc text.drop (numberOf text).length
          = (numberOf text ++ text.dropWhile Utf16.isDigit).drop (numberOf text).length := by
            rw [hsplit]
        _ = text.dropWhile Utf16.isDigit := List.drop_left
    rw [List.take_of_length_le hlength, hdrop, String.append_left_inj, String.append_left_inj,
      String.append_left_inj, String.append_left_inj, and_iff_right hlength]
    unfold IsLongYear
    show Option.getD (Option.map _ (foundYear (yearNumber text))) _ = _ ↔ _
    generalize yearNumber text = number
    unfold foundYear
    by_cases hyear : 4 ≤ number.length ∧ number.take 2 = Utf16.of "20"
    · rw [if_pos hyear, Option.map_some, Option.getD_some]
      by_cases hlong : number.length = 4
      · rw [if_pos ⟨hlong, hyear.2⟩, List.take_of_length_le hlong.le]
        exact iff_of_true rfl fun hlonger => absurd hlonger.1 (by omega)
      · rw [if_neg fun hfour => hlong hfour.1, forall_prop_of_true ⟨by omega, hyear.2⟩]
    · rw [if_neg hyear, if_neg fun hfour => hyear ⟨hfour.1.ge, hfour.2⟩]
      exact iff_of_true rfl fun hlonger => absurd ⟨hlonger.1.le, hlonger.2⟩ hyear
  · -- two digits of a longer number are not all of them
    refine iff_of_false (fun hsame => ?_) fun hboth => hlength hboth.1
    have hlists := (toList_join _ _).symm.trans
      ((congrArg String.toList hsame).trans (toList_join _ _))
    obtain ⟨-, hday⟩ := last_join_inj (dash_notMem_decode (isDigit_padStart2 htake))
      (dash_notMem_decode (isDigit_padStart2 hdigits)) hlists
    rw [Utf16.toList_decode (isDigit_padStart2 htake),
      Utf16.toList_decode (isDigit_padStart2 hdigits)] at hday
    have hlengths := congrArg List.length hday
    simp only [padStart2, List.length_map, List.length_append, List.length_replicate,
      List.length_take] at hlengths
    omega

theorem monthNamed_september : MonthNamed (Utf16.of "due September 3rd, 2026")
    (Utf16.of "due ") (Utf16.of "September") (Utf16.of " 3rd, 2026") :=
  ⟨by decide +kernel, by decide +kernel, ⟨Utf16.of "September 3rd, 2026", [],
    [(1, Utf16.of "September"), (2, Utf16.of "3"), (3, Utf16.of "2026")]⟩, by decide +kernel, rfl⟩

/-- A day and its year. -/
theorem dateFromText_whole_september :
    dateFromText (fun _ => none) 0 (Utf16.of "due September 3rd, 2026") none =
      .ok (some (wholeDate (fun _ => none) 0 none (Utf16.of "September")
        (skip 46 (Utf16.of " 3rd, 2026")))) :=
  (dateFromText_whole_iff (fun _ => none) 0 none _ _ _ _ monthNamed_september).mpr
    ⟨by decide +kernel, fun hlong => absurd hlong.1 (by decide +kernel)⟩

theorem monthNamed_year : MonthNamed (Utf16.of "due September 2026") (Utf16.of "due ")
    (Utf16.of "September") (Utf16.of " 2026") :=
  ⟨by decide +kernel, by decide +kernel, ⟨Utf16.of "September 20", Utf16.of "26",
    [(1, Utf16.of "September"), (2, Utf16.of "20")]⟩, by decide +kernel, rfl⟩

/-- A month that its year follows has the twentieth for a day. -/
theorem dateFromText_not_whole :
    ¬ ∀ (getTime : String → Option ℤ) (now : ℤ) (publishedAt : Option String)
      (s before name rest : Utf16), MonthNamed s before name rest →
        dateFromText getTime now s publishedAt =
          .ok (some (wholeDate getTime now publishedAt name (skip 46 rest))) := by
  intro h
  have hwhole := h (fun _ => none) 0 none _ _ _ _ monthNamed_year
  have hanswer : dateFromText (fun _ => none) 0 (Utf16.of "due September 2026") none =
      .ok (some "1970-09-20") := by decide +kernel
  have hmeant : wholeDate (fun _ => none) 0 none (Utf16.of "September")
      (skip 46 (Utf16.of " 2026")) = "1970-09-2026" := by decide +kernel
  rw [hanswer, hmeant] at hwhole
  exact absurd (Option.some_inj.mp (Except.ok.inj hwhole)) (by decide)

end RecruitingOs
