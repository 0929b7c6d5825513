import RecruitingOs.Lib.UrlReference

/-!
# Return paths

`safeRelativeReturnTo` of `src/lib/safe-url.ts`: where the browser is sent after a login.  The
origin of the parsed URL is checked, and the answer is written from its normalized path.  A path
whose dot segments leave an empty segment in front is written with two slashes, which names an
authority: such an answer leaves the site (`staysOnSite_iff`).

The parser of authorities (`new URL`) is a parameter: it has the origin that an authority
stands for.
-/

namespace RecruitingOs

open UrlReference

/-- `localOrigin`. -/
def localOrigin : String := "https://recruiting-os.invalid"

/-- `safeRelativeReturnTo(value, fallback)`. -/
def safeRelativeReturnTo (authority : List Char → Option String) (value fallback : String) :
    String :=
  if value.toList.head? ≠ some '/' ∨ '\\' ∈ value.toList then fallback
  else
    match parse authority localOrigin value.toList with
    | none => fallback
    | some url => if url.origin ≠ localOrigin then fallback else String.ofList url.serialize

/-- What is asked of an answer. -/
structure StaysOnSite (authority : List Char → Option String) (fallback answer : String) : Prop where
  slash : answer.toList.head? = some '/'
  noAuthority : ¬ ['/', '/'] <+: answer.toList
  noBackslash : ¬ ['/', '\\'] <+: answer.toList
  sameOrigin : ∀ host : String, ∃ url,
    parse authority ("https://" ++ host) answer.toList = some url ∧ url.origin = "https://" ++ host
  fixed : safeRelativeReturnTo authority answer fallback = answer

/-- The value passes the checks. -/
def accepted (authority : List Char → Option String) (value : String) : Bool :=
  value.toList.head? = some '/' ∧ '\\' ∉ value.toList ∧
    (parse authority localOrigin value.toList).any fun url => url.origin = localOrigin

/-- The segments of the value's path, encoded, before dots are resolved. -/
def valueSegments (value : String) : List (List Char) :=
  (((afterSlash value.toList).takeWhile fun c => c ≠ '?' ∧ c ≠ '#').splitOnP isSlash).map
    (encode pathSet)

/-- A fallback that stays on the site and is written as the parser writes it. -/
structure Settled (authority : List Char → Option String) (fallback : String) : Prop where
  noBackslash : ¬ ['/', '\\'] <+: fallback.toList
  noAuthority : namesAuthority fallback.toList = false
  written : accepted authority fallback →
    (parseRest localOrigin (afterSlash fallback.toList)).serialize = fallback.toList

variable {authority : List Char → Option String} {value fallback : String}

theorem safeRelativeReturnTo_of_accepted (h : accepted authority value) :
    safeRelativeReturnTo authority value fallback =
      String.ofList (parseRest localOrigin (afterSlash value.toList)).serialize := by
  obtain ⟨hslash, hbackslash, hany⟩ := of_decide_eq_true h
  obtain ⟨url, hparse, horigin⟩ := (Option.any_eq_true _ _).mp hany
  have horigin := of_decide_eq_true horigin
  unfold safeRelativeReturnTo
  rw [if_neg (not_or.mpr ⟨not_not.mpr hslash, hbackslash⟩), hparse]
  dsimp only
  rw [if_neg (not_not.mpr horigin), parse_eq_some hparse, horigin]

theorem safeRelativeReturnTo_of_not_accepted (h : accepted authority value = false) :
    safeRelativeReturnTo authority value fallback = fallback := by
  unfold safeRelativeReturnTo
  split
  · rfl
  · rename_i hguard
    obtain ⟨hslash, hbackslash⟩ := not_or.mp hguard
    cases hparse : parse authority localOrigin value.toList with
    | none => rfl
    | some url =>
        dsimp only
        split
        · rfl
        · rename_i horigin
          refine absurd (decide_eq_true ⟨not_not.mp hslash, hbackslash, ?_⟩) (Bool.eq_false_iff.mp h)
          rw [hparse]
          exact decide_eq_true (not_not.mp horigin)

/-- A reference without an authority keeps every origin; one with an authority does not. -/
theorem sameOrigin_iff {reference : List Char} :
    (∀ host : String, ∃ url, parse authority ("https://" ++ host) reference = some url ∧
      url.origin = "https://" ++ host) ↔ namesAuthority reference = false := by
  constructor
  · intro h
    by_contra hnames
    have hnames : namesAuthority reference = true := by simpa using hnames
    obtain ⟨first, hfirst, horigin⟩ := h "a.example"
    obtain ⟨second, hsecond, horigin'⟩ := h "b.example"
    unfold parse at hfirst hsecond
    rw [if_pos hnames] at hfirst hsecond
    have hsame : first = second := Option.some.inj (hfirst.symm.trans hsecond)
    rw [hsame, horigin'] at horigin
    exact absurd horigin (by decide)
  · intro hnames host
    refine ⟨parseRest ("https://" ++ host) (afterSlash reference), ?_, rfl⟩
    unfold parse
    rw [if_neg (by rw [hnames]; decide)]

/-- The path of a value is made of the segments that are kept. -/
theorem path_parseRest (origin : String) :
    (parseRest origin (afterSlash value.toList)).path = kept (valueSegments value) := by
  show pathOf _ = _
  rw [pathOf, resolveDots_eq, List.drop_nil]
  rfl

/-- An accepted value has no backslash in its answer. -/
theorem backslash_not_mem (h : '\\' ∉ value.toList) (origin : String) :
    '\\' ∉ (parseRest origin (afterSlash value.toList)).serialize := by
  have hnormal := parseRest_normal origin (afterSlash value.toList)
  have hescape : '\\' ∉ escapeChars := by decide
  intro hmem
  obtain hmark | ⟨segment, hsegment, hc⟩ | hc | hc := mem_serialize hmem
  · exact absurd hmark (by decide)
  · exact absurd (hnormal.path segment hsegment _ hc).2 (by decide)
  · have hsource := mem_of_mem_encode hc hescape
    exact h (mem_afterSlash ((List.takeWhile_sublist _).subset
      ((List.dropWhile_sublist _).subset (List.mem_of_mem_drop hsource))))
  · have hsource := mem_of_mem_encode hc hescape
    exact h (mem_afterSlash ((List.dropWhile_sublist _).subset (List.mem_of_mem_drop hsource)))

/-- **An accepted value** is answered on the site exactly if its dots do not leave an empty
segment in front of another one. -/
theorem staysOnSite_of_accepted (h : accepted authority value) :
    StaysOnSite authority fallback (safeRelativeReturnTo authority value fallback) ↔
      ∀ second more, kept (valueSegments value) ≠ [] :: second :: more := by
  obtain ⟨-, hbackslash, -⟩ := of_decide_eq_true h
  rw [safeRelativeReturnTo_of_accepted h]
  have hnormal := parseRest_normal localOrigin (afterSlash value.toList)
  have hpath := @path_parseRest value localOrigin
  have hno := backslash_not_mem hbackslash localOrigin
  generalize parseRest localOrigin (afterSlash value.toList) = url at hnormal hpath hno
  rw [← hpath]
  constructor
  · intro hstays second more hstart
    refine hstays.noAuthority ?_
    rw [String.toList_ofList, Url.serialize, Url.pathname, hstart]
    exact ⟨_, rfl⟩
  · intro hstart
    have hwritten : ∀ c, (url.serialize.drop 1).head? = some c → isSlash c = false :=
      fun c hc => hnormal.second hstart hc
    obtain ⟨rest, hrest⟩ : ∃ rest, url.serialize = '/' :: rest := by
      obtain ⟨segment, more, hsegments⟩ := List.exists_cons_of_ne_nil hnormal.path_ne
      rw [Url.serialize, Url.pathname, hsegments]
      exact ⟨_, rfl⟩
    have hsecond : ∀ c, isSlash c → ¬ ['/', c] <+: url.serialize := by
      rintro c hslash ⟨tail, htail⟩
      rw [← htail] at hwritten
      rw [hwritten c rfl] at hslash
      cases hslash
    have hparse : ∀ base, parse authority base url.serialize = some { url with origin := base } :=
      fun base => parse_serialize hnormal hstart
    have haccepted : accepted authority (String.ofList url.serialize) := by
      refine decide_eq_true ?_
      rw [String.toList_ofList, hparse]
      exact ⟨by rw [hrest]; rfl, hno, (Option.any_eq_true _ _).mpr ⟨_, rfl, decide_eq_true rfl⟩⟩
    refine ⟨?_, ?_, ?_, fun host => ?_, ?_⟩
    · rw [String.toList_ofList, hrest]
      rfl
    · rw [String.toList_ofList]
      exact hsecond '/' (by decide)
    · rw [String.toList_ofList]
      exact hsecond '\\' (by decide)
    · rw [String.toList_ofList]
      exact ⟨_, hparse _, rfl⟩
    · rw [safeRelativeReturnTo_of_accepted haccepted, String.toList_ofList,
        ← parse_eq_some (hparse localOrigin)]
      rfl

/-- **A value that is not accepted** is answered with the fallback. -/
theorem staysOnSite_of_not_accepted (h : accepted authority value = false)
    (hslash : fallback.toList.head? = some '/') (hsingle : ¬ ['/', '/'] <+: fallback.toList) :
    StaysOnSite authority fallback (safeRelativeReturnTo authority value fallback) ↔
      Settled authority fallback := by
  rw [safeRelativeReturnTo_of_not_accepted h]
  constructor
  · rintro ⟨-, -, hbackslash, horigin, hfixed⟩
    refine ⟨hbackslash, sameOrigin_iff.mp horigin, fun haccepted => ?_⟩
    rw [safeRelativeReturnTo_of_accepted haccepted] at hfixed
    rw [← String.toList_ofList (l := Url.serialize _), hfixed]
  · rintro ⟨hbackslash, hnames, hwritten⟩
    refine ⟨hslash, hsingle, hbackslash, sameOrigin_iff.mpr hnames, ?_⟩
    cases haccepted : accepted authority fallback with
    | false => exact safeRelativeReturnTo_of_not_accepted haccepted
    | true =>
        rw [safeRelativeReturnTo_of_accepted haccepted, hwritten haccepted, String.ofList_toList]

/-- **Return paths.**  With a fallback that starts with a single slash, the answer stays on the
site exactly if the dots of an accepted value do not leave an empty segment in front of another
one, and the fallback is settled where it is answered. -/
theorem staysOnSite_iff (hslash : fallback.toList.head? = some '/')
    (hsingle : ¬ ['/', '/'] <+: fallback.toList) :
    StaysOnSite authority fallback (safeRelativeReturnTo authority value fallback) ↔
      if accepted authority value then
        ∀ second more, kept (valueSegments value) ≠ [] :: second :: more
      else Settled authority fallback := by
  cases h : accepted authority value with
  | true => exact staysOnSite_of_accepted h
  | false => exact staysOnSite_of_not_accepted h hslash hsingle

/-- The fallbacks of the two routes. -/
def routeFallbacks : List String := ["/", "/?connectors=1"]

/-- Either is settled, whatever the authorities are. -/
theorem settled_routeFallbacks (authority : List Char → Option String) :
    ∀ fallback ∈ routeFallbacks, Settled authority fallback := by
  have hfacts : ∀ fallback ∈ routeFallbacks, ¬ ['/', '\\'] <+: fallback.toList ∧
      namesAuthority fallback.toList = false ∧
      (parseRest localOrigin (afterSlash fallback.toList)).serialize = fallback.toList := by
    decide +kernel
  intro fallback hmem
  obtain ⟨hbackslash, hnames, hwritten⟩ := hfacts fallback hmem
  exact ⟨hbackslash, hnames, fun _ => hwritten⟩

theorem staysOnSite_applications :
    StaysOnSite (fun _ => none) "/?connectors=1"
      (safeRelativeReturnTo (fun _ => none) "/dashboard/../applications?tab=open#top"
        "/?connectors=1") := by
  refine (staysOnSite_iff (by decide) (by decide)).mpr ?_
  rw [if_pos (by decide +kernel)]
  intro second more hstart
  have hkept : kept (valueSegments "/dashboard/../applications?tab=open#top") =
      ["applications".toList] := by
    decide +kernel
  rw [hkept] at hstart
  cases hstart

/-- The origin of a name of letters and dots. -/
def originOfName (authority : List Char) : Option String :=
  if authority.all fun c => c.isAlpha ∨ c = '.' then some ("https://" ++ String.ofList authority)
  else none

/-- A dot segment and an empty one: the answer names another site. -/
theorem not_staysOnSite :
    ¬ StaysOnSite originOfName "/"
      (safeRelativeReturnTo originOfName "/.//evil.example/login" "/") := by
  have hanswer : safeRelativeReturnTo originOfName "/.//evil.example/login" "/" =
      "//evil.example/login" := by
    decide +kernel
  rw [hanswer]
  exact fun hstays => hstays.noAuthority (by decide)

end RecruitingOs
