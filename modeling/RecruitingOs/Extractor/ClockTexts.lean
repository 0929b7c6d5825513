import RecruitingOs.Extractor.DateTexts

/-!
# The texts of times

`clockTime` on the texts that mean a time of the day: an hour, minutes, space, and `am` or `pm`.
-/

namespace RecruitingOs

open Regex IsoTime

/-- `am` or `pm`, in any case. -/
def IsMark (mark : Utf16) : Prop :=
  mark.map Utf16.lower = Utf16.of "am" ∨ mark.map Utf16.lower = Utf16.of "pm"

/-- The minutes of a time: none, or two digits after a colon. -/
inductive MinuteText : Utf16 → Option Utf16 → Prop
  | none : MinuteText [] none
  | digits {d : Utf16} : d.length = 2 → (∀ u ∈ d, Utf16.isDigit u = true) →
      MinuteText (58 :: d) (some d)

/-- The mark of a time, if it has one. -/
inductive MarkText : Utf16 → Option Utf16 → Prop
  | none : MarkText [] none
  | mark {mark : Utf16} : IsMark mark → MarkText mark (some mark)

variable {prev : Option UInt16}

/-- `(am|pm)?` with the flag `i`. -/
def markPattern : Regex UInt16 := .opt (.group 3 (.any (Utf16.word "am") [Utf16.word "pm"]))

/-- `(?::(\d{2}))?`. -/
def minutePattern : Regex UInt16 :=
  .opt (.seq (Utf16.unit ':') (.group 2 (.run Utf16.isDigit 2 (some 2))))

theorem matchAt_word_two {x y u v : UInt16} (hx : Utf16.lower x = Utf16.lower u)
    (hy : Utf16.lower y = Utf16.lower v) :
    (all [one fun w => Utf16.lower w = Utf16.lower u,
      one fun w => Utf16.lower w = Utf16.lower v]).matchAt prev [x, y] =
      some ⟨[x, y], [], []⟩ := by
  refine matchAt_seq (f := ⟨[x], [y], []⟩) (g := ⟨[y], [], []⟩) ?_ ?_
  · exact matchAt_one_cons (decide_eq_true hx)
  · refine matchAt_seq (f := ⟨[y], [], []⟩) (g := ⟨[], [], []⟩) ?_ matchAt_empty
    exact matchAt_one_cons (decide_eq_true hy)

theorem exists_of_map_lower {mark : Utf16} {u v : UInt16} (h : mark.map Utf16.lower = [u, v]) :
    ∃ x y, mark = [x, y] ∧ Utf16.lower x = u ∧ Utf16.lower y = v := by
  obtain ⟨x, rest, rfl, hx, hrest⟩ := List.map_eq_cons_iff.mp h
  obtain ⟨y, rest, rfl, hy, hnil⟩ := List.map_eq_cons_iff.mp hrest
  obtain rfl := List.map_eq_nil_iff.mp hnil
  exact ⟨x, y, rfl, hx, hy⟩

theorem matchAt_markPattern (prev : Option UInt16) {mark : Utf16} {found : Option Utf16}
    (h : MarkText mark found) : markPattern.matchAt prev mark =
      some ⟨mark, [], (found.map fun mark => (3, mark)).toList⟩ := by
  cases h with
  | none => exact matchAt_opt_none rfl
  | mark hmark =>
      have hany : (any (Utf16.word "am") [Utf16.word "pm"]).matchAt prev mark =
          some ⟨mark, [], []⟩ := by
        rcases hmark with ham | hpm
        · obtain ⟨x, y, rfl, hx, hy⟩ := exists_of_map_lower ham
          exact matchAt_alt_left (matchAt_word_two (u := 97) (v := 109) hx hy)
        · obtain ⟨x, y, rfl, hx, hy⟩ := exists_of_map_lower hpm
          refine (matchAt_alt_right (matchesAt_seq_eq_nil (matchesAt_one_eq_nil ?_))).trans
            (matchAt_word_two (u := 112) (v := 109) hx hy)
          intro a ha
          obtain rfl := Option.some_inj.mp ha
          show decide (Utf16.lower x = _) = false
          rw [hx]
          decide
      rw [markPattern, matchAt_opt, matchAt_group, hany]
      rfl

theorem matchAt_minutePattern (prev : Option UInt16) {m rest : Utf16} {found : Option Utf16}
    (h : MinuteText m found) (hrest : ∀ u, rest.head? = some u → u ≠ 58) :
    minutePattern.matchAt prev (m ++ rest) =
      some ⟨m, rest, (found.map fun d => (2, d)).toList⟩ := by
  cases h with
  | none =>
      refine matchAt_opt_none (matchesAt_seq_eq_nil (matchesAt_one_eq_nil ?_))
      intro u hu
      exact decide_eq_false (hrest u hu)
  | @digits d hlength hdigits =>
      have hrun : (run Utf16.isDigit 2 (some 2)).matchAt (some 58) (d ++ rest) =
          some ⟨d, rest, []⟩ :=
        matchAt_run_append hdigits hlength.ge (fun m hm => by
          obtain rfl := Option.some_inj.mp hm
          exact hlength.le) (.inl (by rw [hlength]))
      have hpart : (seq (Utf16.unit ':') (group 2 (run Utf16.isDigit 2 (some 2)))).matchAt prev
          (58 :: d ++ rest) = some ⟨58 :: d, rest, [(2, d)]⟩ := by
        refine matchAt_seq (f := ⟨[58], d ++ rest, []⟩) (g := ⟨d, rest, [(2, d)]⟩) ?_ ?_
        · exact matchAt_one_cons (by decide)
        · rw [matchAt_group]
          exact congrArg (Option.map _) hrun
      rw [minutePattern, matchAt_opt, hpart]
      rfl

theorem not_isSpace_of_isMark {mark : Utf16} (h : IsMark mark) :
    ∃ u rest, mark = u :: rest ∧ Utf16.isSpace u = false ∧ Utf16.isDigit u = false ∧ u ≠ 58 := by
  have hfirst : ∀ u : UInt16, Utf16.lower u = 97 ∨ Utf16.lower u = 112 →
      Utf16.isSpace u = false ∧ Utf16.isDigit u = false ∧ u ≠ 58 := by
    intro u hu
    rcases hu with hu | hu
    · rcases Utf16.eq_of_lower_eq hu with rfl | rfl
      · decide
      · decide
    · rcases Utf16.eq_of_lower_eq hu with rfl | rfl
      · decide
      · decide
  rcases h with ham | hpm
  · obtain ⟨x, y, rfl, hx, -⟩ := exists_of_map_lower ham
    exact ⟨x, [y], rfl, hfirst x (.inl hx)⟩
  · obtain ⟨x, y, rfl, hx, -⟩ := exists_of_map_lower hpm
    exact ⟨x, [y], rfl, hfirst x (.inr hx)⟩

/-- The text of a time: an hour, minutes, space and a mark. -/
structure TimeText (time hour : Utf16) (minute mark : Option Utf16) : Prop where
  hour_pos : 1 ≤ hour.length
  hour_le : hour.length ≤ 2
  digits : ∀ u ∈ hour, Utf16.isDigit u = true
  parts : ∃ minuteText space markText, MinuteText minuteText minute ∧
    (∀ u ∈ space, Utf16.isSpace u = true) ∧ MarkText markText mark ∧
      time = hour ++ (minuteText ++ (space ++ markText))

/-- What comes after the minutes is neither a digit nor a colon. -/
theorem head_space_mark {space markText : Utf16} {mark : Option Utf16}
    (hspace : ∀ u ∈ space, Utf16.isSpace u = true) (hmark : MarkText markText mark) :
    ∀ u, (space ++ markText).head? = some u → Utf16.isDigit u = false ∧ u ≠ 58 := by
  intro u hu
  cases space with
  | cons first space =>
      obtain rfl := Option.some_inj.mp hu
      refine ⟨Utf16.not_isDigit_of_isSpace (hspace _ List.mem_cons_self), ?_⟩
      rintro rfl
      exact absurd (hspace _ List.mem_cons_self) (by decide)
  | nil =>
      cases hmark with
      | none => cases hu
      | mark h =>
          obtain ⟨v, rest, rfl, -, hdigit, hcolon⟩ := not_isSpace_of_isMark h
          obtain rfl := Option.some_inj.mp hu
          exact ⟨hdigit, hcolon⟩

/-- **The parts of a time** are those that the pattern finds. -/
theorem TimeText.search {time hour : Utf16} {minute mark : Option Utf16}
    (h : TimeText time hour minute mark) : ∃ f, localTime.search time = some f ∧
      f.group 1 = some hour ∧ f.group 2 = minute ∧ f.group 3 = mark := by
  obtain ⟨hpos, hle, hdigits, minuteText, space, markText, hminute, hspace, hmark, rfl⟩ := h
  have hafter := head_space_mark hspace hmark
  have hmarkHead : ∀ u, markText.head? = some u → Utf16.isSpace u = false := by
    intro u hu
    cases hmark with
    | none => cases hu
    | mark h =>
        obtain ⟨v, rest, rfl, hnot, -⟩ := not_isSpace_of_isMark h
        obtain rfl := Option.some_inj.mp hu
        exact hnot
  have hminuteHead : ∀ u, (minuteText ++ (space ++ markText)).head? = some u →
      Utf16.isDigit u = false := by
    intro u hu
    cases hminute with
    | none => exact (hafter u hu).1
    | digits _ _ =>
        obtain rfl := Option.some_inj.mp hu
        decide
  have hhourRun : (run Utf16.isDigit 1 (some 2)).matchAt none
      (hour ++ (minuteText ++ (space ++ markText))) =
        some ⟨hour, minuteText ++ (space ++ markText), []⟩ :=
    matchAt_run_append hdigits hpos (fun m hm => Option.some_inj.mp hm ▸ hle) (.inr hminuteHead)
  have hspaceRun (prev : Option UInt16) : (run Utf16.isSpace 0 none).matchAt prev
      (space ++ markText) = some ⟨space, markText, []⟩ :=
    matchAt_run_append hspace (Nat.zero_le _) (fun m hm => by cases hm) (.inr hmarkHead)
  have hmarkPart (prev : Option UInt16) :=
    matchAt_seq (matchAt_markPattern prev hmark) matchAt_empty
  have hspacePart (prev : Option UInt16) := matchAt_seq (hspaceRun prev) (hmarkPart _)
  have hminutePart (prev : Option UInt16) :=
    matchAt_seq (matchAt_minutePattern prev hminute fun u hu => (hafter u hu).2) (hspacePart _)
  have hhourPart : (group 1 (run Utf16.isDigit 1 (some 2))).matchAt none
      (hour ++ (minuteText ++ (space ++ markText))) =
        some ⟨hour, minuteText ++ (space ++ markText), [(1, hour)]⟩ := by
    rw [matchAt_group, hhourRun]
    rfl
  refine ⟨_, search_of_matchAt (matchAt_seq hhourPart (hminutePart _)), rfl, ?_, ?_⟩
  · cases hminute with
    | none =>
        cases hmark with
        | none => rfl
        | mark _ => rfl
    | digits _ _ => rfl
  · cases hminute with
    | none =>
        cases hmark with
        | none => rfl
        | mark _ => rfl
    | digits _ _ =>
        cases hmark with
        | none => rfl
        | mark _ => rfl

/-! ### What a time means -/

/-- **Without a mark** a time is one of 24 hours. -/
theorem TimeText.clockTime_unmarked {time hour : Utf16} {minute : Option Utf16}
    (h : TimeText time hour minute none) : clockTime time =
      if Utf16.value (minute.getD []) < 60 ∧ Utf16.value hour ≤ 23 then
        .ok (Utf16.value hour, Utf16.value (minute.getD []))
      else .error ("Invalid local time: " ++ Utf16.decode time) := by
  obtain ⟨f, hf, hhour, hminute, hmark⟩ := h.search
  unfold clockTime
  rw [hf]
  dsimp only
  rw [hhour, hminute, hmark, Option.getD_some, Option.map_none]
  generalize Utf16.value hour = hh
  generalize Utf16.value (minute.getD []) = mm
  by_cases hvalid : mm < 60 ∧ hh ≤ 23
  · rw [if_pos hvalid, if_neg (by simp; omega), if_neg (by simp), if_neg (by simp)]
  · rw [if_neg hvalid, if_pos (by simp; omega)]

/-- **With a mark** it is one of twelve, of the first or the second half of the day. -/
theorem TimeText.clockTime_marked {time hour mark : Utf16} {minute : Option Utf16}
    (h : TimeText time hour minute (some mark)) : clockTime time =
      if Utf16.value (minute.getD []) < 60 ∧ 1 ≤ Utf16.value hour ∧ Utf16.value hour ≤ 12 then
        .ok (Utf16.value hour % 12 + (if mark.map Utf16.lower = Utf16.of "pm" then 12 else 0),
          Utf16.value (minute.getD []))
      else .error ("Invalid local time: " ++ Utf16.decode time) := by
  have hmarkText : IsMark mark := by
    obtain ⟨_, _, _, _, _, _, _, _, hmark, _⟩ := h
    cases hmark with
    | mark hmark => exact hmark
  obtain ⟨f, hf, hhour, hminute, hmark⟩ := h.search
  unfold clockTime
  rw [hf]
  dsimp only
  rw [hhour, hminute, hmark, Option.getD_some, Option.map_some]
  generalize Utf16.value hour = hh
  generalize Utf16.value (minute.getD []) = mm
  by_cases hvalid : mm < 60 ∧ 1 ≤ hh ∧ hh ≤ 12
  · rw [if_pos hvalid, if_neg (by simp; omega)]
    have hne : Utf16.of "am" ≠ Utf16.of "pm" := by decide
    rcases hmarkText with ham | hpm
    · have hmorning : (if some (Utf16.of "am") = some (Utf16.of "pm") ∧ hh < 12 then hh + 12
          else hh) = hh := if_neg fun h => hne (Option.some_inj.mp h.1)
      rw [ham, if_neg hne, hmorning]
      congr 2
      by_cases htwelve : hh = 12
      · rw [if_pos ⟨rfl, htwelve⟩]
        omega
      · rw [if_neg fun h => htwelve h.2]
        omega
    · rw [hpm, if_pos rfl, if_neg (fun h => hne (Option.some_inj.mp h.1).symm)]
      congr 2
      by_cases htwelve : hh < 12
      · rw [if_pos ⟨rfl, htwelve⟩]
        omega
      · rw [if_neg (fun h => htwelve h.2)]
        omega
  · rw [if_neg hvalid, if_pos (by simp; omega)]

end RecruitingOs
