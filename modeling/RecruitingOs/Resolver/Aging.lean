import Mathlib.Tactic.Linarith
import Mathlib.Tactic.Positivity
import Mathlib.Tactic.Ring
import RecruitingOs.Resolver.Announcements
import RecruitingOs.Resolver.Staleness

/-!
# What time alone changes

Evidence that stays as it is, resolved at a later time.  A date that has passed stays passed, and
an announcement stays on its side of a deadline claim; what may change is the deadline claim that
leads, for scores decay with age and a claim of 360 days decays no more (`stale_later`).
-/

namespace RecruitingOs

namespace Resolver

/-- The application is stale, if everything happens at one time. -/
def staleApplication (getTime : Json → Option ℤ) (digest : String → String) (view : View)
    (orgId : String) (t : ℤ) : Bool :=
  (resolveOrganization getTime digest view (.at t) orgId t).any fun o =>
    o.kind = .application ∧ o.stale

/-- The deadline claim that leads at a time. -/
def leadingDeadline (getTime : Json → Option ℤ) (view : View) (t : ℤ) : Option Claim :=
  Leader.leader (outranks getTime view (.at t)) (fieldClaims view .applicationDeadline)

/-- 360 days, from which on a claim has the least recency. -/
def decayed : ℤ := 360 * 86400000

/-- Evidence as the table of the claims has it, whose timestamps are valid and not in the future:
`id` is its key, and the confidence is checked to be in the unit interval. -/
structure Evidence (getTime : Json → Option ℤ) (view : View) (t : ℤ) : Prop where
  noOverrides : view.overrides = []
  ids : (view.claims.map Claim.id).Nodup
  confidence : ∀ c ∈ view.claims, 0 ≤ c.confidence ∧ c.confidence ≤ 1
  dated : ∀ c ∈ view.claims, ∃ u, claimTime getTime c = some u ∧ u ≤ t

variable {getTime : Json → Option ℤ} {digest : String → String} {view : View} {orgId : String}
  {t t1 t2 u : ℤ} {a b c : Claim}

/-! ### The same leader -/

theorem bestDeadline_at : bestDeadline getTime view (.at t) = leadingDeadline getTime view t :=
  bestDeadline_eq getTime view (.at t)

/-- The flag is read off the standing of the application. -/
theorem staleApplication_eq (h : view.overrides = []) :
    staleApplication getTime digest view orgId t =
      (applicationStanding getTime digest view (.at t) orgId).any fun st => st.staleAt t := by
  have hshows : List.Forall₂ (fun st o => Standing.Shows st o t)
      (applicationStanding getTime digest view (.at t) orgId)
      (application getTime digest view (.at t) orgId t) := application_standing
  rw [staleApplication, resolveOrganization, h, List.foldl_nil, Bool.eq_iff_iff, List.any_eq_true,
    List.any_eq_true]
  constructor
  · rintro ⟨o, ho, hstale⟩
    obtain ⟨hkind, hstale⟩ := of_decide_eq_true hstale
    obtain ⟨st, hst, hshow⟩ := exists_right_of_forall₂ hshows.flip (kind_of_eventOpportunity ho hkind)
    exact ⟨st, hst, hshow.stale.symm.trans hstale⟩
  · rintro ⟨st, hst, hstale⟩
    obtain ⟨o, ho, hshow⟩ := exists_right_of_forall₂ hshows hst
    exact ⟨o, List.mem_append_left _ ho, decide_eq_true
      ⟨kind_of_application ho, hshow.stale.trans hstale⟩⟩

/-- A flag that is set stays set. -/
theorem Standing.staleAt_later {st : Standing} (h : t1 ≤ t2) (hstale : st.staleAt t1 = true) :
    st.staleAt t2 = true := by
  obtain hclosed | hpassed := of_decide_eq_true hstale
  · exact decide_eq_true (Or.inl hclosed)
  · obtain ⟨d, hd, hlt⟩ := (Option.any_eq_true _ _).mp hpassed
    refine decide_eq_true (Or.inr ((Option.any_eq_true _ _).mpr ⟨d, hd, decide_eq_true ?_⟩))
    exact (of_decide_eq_true hlt).trans_le h

/-- **The same leader** has the same standing, so that the application stays stale. -/
theorem staleApplication_later (hoverrides : view.overrides = []) (h : t1 ≤ t2)
    (hleader : leadingDeadline getTime view t1 = leadingDeadline getTime view t2)
    (hstale : staleApplication getTime digest view orgId t1 = true) :
    staleApplication getTime digest view orgId t2 = true := by
  have hbest : bestDeadline getTime view (.at t1) = bestDeadline getTime view (.at t2) := by
    rw [bestDeadline_at, bestDeadline_at, hleader]
  have hsame : applicationStanding getTime digest view (.at t1) orgId =
      applicationStanding getTime digest view (.at t2) orgId := by
    unfold applicationStanding shownDeadline explicitlyClosed reopened deadlineClaimTime
    rw [hbest]
  rw [staleApplication_eq hoverrides] at hstale ⊢
  obtain ⟨st, hst, hstale⟩ := List.any_eq_true.mp hstale
  rw [hsame] at hst
  exact List.any_eq_true.mpr ⟨st, hst, Standing.staleAt_later h hstale⟩

/-! ### Scores -/

/-- The share of a score that does not change. -/
def weight (view : View) (c : Claim) : ℚ :=
  c.confidence * ((view.sourceType c.sourceItemId).map authority).getD (5 / 10)

/-- `recency`, by the age in milliseconds. -/
def recency (age : ℤ) : ℚ :=
  max (55 / 100) (1 - min (max 0 ((age : ℚ) / 86400000)) 365 / 800)

/-- The score of a dated claim. -/
def scoreAt (getTime : Json → Option ℤ) (view : View) (t : ℤ) (c : Claim) : ℚ :=
  weight view c * recency (t - (claimTime getTime c).getD 0)

theorem authority_pos (source : SourceType) : 0 < authority source := by
  cases source
  all_goals
    unfold authority
    norm_num

theorem weight_nonneg (h : 0 ≤ c.confidence) : 0 ≤ weight view c := by
  refine mul_nonneg h ?_
  cases view.sourceType c.sourceItemId with
  | none => exact (by norm_num : (0 : ℚ) ≤ 5 / 10)
  | some source => exact (authority_pos source).le

theorem recency_pos (age : ℤ) : 0 < recency age :=
  lt_of_lt_of_le (by norm_num) (le_max_left _ _)

/-- Up to 360 days a claim decays by one part in 800 a day. -/
theorem recency_of_le {age : ℤ} (h : 0 ≤ age) (hle : age ≤ decayed) :
    recency age = 1 - (age : ℚ) / 86400000 / 800 := by
  have hage : (0 : ℚ) ≤ age := by exact_mod_cast h
  have hdays : (age : ℚ) ≤ 360 * 86400000 := by exact_mod_cast hle
  have hpos : (0 : ℚ) ≤ (age : ℚ) / 86400000 := by positivity
  have hlimit : (age : ℚ) / 86400000 ≤ 360 := by
    rw [div_le_iff₀ (by norm_num)]
    exact hdays
  rw [recency, max_eq_right hpos, min_eq_left (by linarith), max_eq_right (by linarith)]

/-- From 360 days on it does not decay. -/
theorem recency_of_ge {age : ℤ} (h : decayed ≤ age) : recency age = 55 / 100 := by
  have hdays : (360 * 86400000 : ℚ) ≤ age := by exact_mod_cast h
  have hlimit : 360 ≤ (age : ℚ) / 86400000 := by
    rw [le_div_iff₀ (by norm_num)]
    exact hdays
  have hpos : (0 : ℚ) ≤ (age : ℚ) / 86400000 := by linarith
  have hmin : 360 ≤ min ((age : ℚ) / 86400000) 365 := le_min hlimit (by norm_num)
  rw [recency, max_eq_right hpos, max_eq_left (by linarith)]

theorem lookup_map_id {α : Type} {f : Claim → α} {claims : List Claim}
    (h : (claims.map Claim.id).Nodup) (hc : c ∈ claims) :
    (claims.map fun c => (c.id, f c)).lookup c.id = some (f c) := by
  induction claims with
  | nil => cases hc
  | cons first rest ih =>
      obtain ⟨hfirst, hrest⟩ := List.nodup_cons.mp h
      rw [List.map_cons]
      obtain rfl | hc := List.mem_cons.mp hc
      · exact List.lookup_cons_self
      · have hne : c.id ≠ first.id := by
          intro heq
          rw [← heq] at hfirst
          exact hfirst (List.mem_map_of_mem hc)
        rw [List.lookup_cons, beq_eq_false_iff_ne.mpr hne]
        exact ih hrest hc

/-- Each claim has its own score, if the clock stands still. -/
theorem score_still (hids : (view.claims.map Claim.id).Nodup) (hc : c ∈ view.claims) :
    score (scores getTime view (.at t)) (some c) = scoreClaim getTime view.sourceType t c := by
  have htable : scores getTime view (.at t) =
      view.claims.map fun c => (c.id, scoreClaim getTime view.sourceType t c) := by
    conv_rhs => rw [← List.zipIdx_map_fst 0 view.claims, List.map_map]
    rfl
  show ((scores getTime view (.at t)).lookup c.id).getD (some 0) = _
  rw [htable, lookup_map_id hids hc, Option.getD_some]

theorem score_at (h : Evidence getTime view u) (hc : c ∈ view.claims) :
    score (scores getTime view (.at t)) (some c) = some (scoreAt getTime view t c) := by
  obtain ⟨time, htime, -⟩ := h.dated c hc
  rw [score_still h.ids hc, scoreClaim, htime, scoreAt, htime]
  rfl

theorem leadingDeadline_eq (h : Evidence getTime view u) : leadingDeadline getTime view t =
    Leader.leader (Leader.byKey (scoreAt getTime view t)) (fieldClaims view .applicationDeadline) := by
  refine Leader.leader_congr fun a ha b hb => ?_
  unfold outranks
  rw [score_at h (List.mem_filter.mp ha).1, score_at h (List.mem_filter.mp hb).1]
  rfl

/-- Where all deadline claims have one recency, time does not change which one leads. -/
theorem leadingDeadline_of_recency (h : Evidence getTime view u) {r1 r2 : ℚ}
    (hpos : 0 < r1 ∧ 0 < r2) (hrecency : ∀ c ∈ fieldClaims view .applicationDeadline,
      recency (t1 - (claimTime getTime c).getD 0) = r1 ∧
        recency (t2 - (claimTime getTime c).getD 0) = r2) :
    leadingDeadline getTime view t1 = leadingDeadline getTime view t2 := by
  rw [leadingDeadline_eq h, leadingDeadline_eq h]
  refine Leader.leader_congr fun a ha b hb => ?_
  unfold Leader.byKey scoreAt
  rw [(hrecency a ha).1, (hrecency a ha).2, (hrecency b hb).1, (hrecency b hb).2]
  refine decide_eq_decide.mpr ?_
  rw [mul_lt_mul_iff_left₀ hpos.1, mul_lt_mul_iff_left₀ hpos.2]

/-- **Overtaking.**  Of two shares that fall at one rate, the smaller one is not scaled past the
larger one. -/
theorem not_overtaken {wa wb A B e : ℚ} (hwb : 0 ≤ wb) (hle : B ≤ A) (he : 0 ≤ e) (hpos : 0 < B - e) :
    ¬ ((wb * B < wa * A ∧ wa * (A - e) ≤ wb * (B - e)) ∨
      (wb * B ≤ wa * A ∧ wa * (A - e) < wb * (B - e))) := by
  -- a claim with the smaller weight has lost less, so that it does not fall behind
  have hsmaller : wa < wb → wb * B ≤ wa * A → wb * (B - e) ≤ wa * (A - e) := by
    intro hlt hbehind
    have hloss : wa * e ≤ wb * e := mul_le_mul_of_nonneg_right hlt.le he
    linarith [mul_sub wa A e, mul_sub wb B e]
  have hlarger : wb ≤ wa → wb * (B - e) ≤ wa * (A - e) := by
    intro hweights
    calc wb * (B - e) ≤ wa * (B - e) := mul_le_mul_of_nonneg_right hweights hpos.le
      _ ≤ wa * (A - e) := mul_le_mul_of_nonneg_left (by linarith) (hwb.trans hweights)
  rintro (⟨hahead, hbehind⟩ | ⟨hbehind, hahead⟩)
  · obtain hlt | hweights := lt_or_ge wa wb
    · have hloss : wa * e ≤ wb * e := mul_le_mul_of_nonneg_right hlt.le he
      linarith [mul_sub wa A e, mul_sub wb B e]
    · -- both products are equal, so that the weights and the recencies are
      have hfirst : wb * (B - e) ≤ wa * (B - e) := mul_le_mul_of_nonneg_right hweights hpos.le
      have hsecond : wa * (B - e) ≤ wa * (A - e) :=
        mul_le_mul_of_nonneg_left (by linarith) (hwb.trans hweights)
      have hsame : wb * (B - e) = wa * (B - e) := le_antisymm hfirst (hsecond.trans hbehind)
      have hwa : wb = wa := mul_right_cancel₀ hpos.ne' hsame
      have hlevel : wa * (A - e) ≤ wa * (B - e) := by rwa [← hwa] at hbehind ⊢
      rw [hwa] at hahead
      linarith [mul_sub wa A e, mul_sub wa B e]
  · obtain hlt | hweights := lt_or_ge wa wb
    · exact absurd hahead (not_lt.mpr (hsmaller hlt hbehind))
    · exact absurd hahead (not_lt.mpr (hlarger hweights))

/-- **The first place** goes to a newer claim, as long as that is no older than 360 days. -/
theorem newer_of_leadingDeadline_ne (h : Evidence getTime view t1) (hle : t1 ≤ t2)
    (ha : leadingDeadline getTime view t1 = some a) (hb : leadingDeadline getTime view t2 = some b)
    (hne : a ≠ b) (hyoung : t2 - (claimTime getTime b).getD 0 ≤ decayed) :
    after (claimTime getTime b) (claimTime getTime a) = true := by
  rw [leadingDeadline_eq h] at ha hb
  have hamem := (List.mem_filter.mp (Leader.mem_of_leader ha)).1
  have hbmem := (List.mem_filter.mp (Leader.mem_of_leader hb)).1
  have hover := Leader.overtaken_of_leader_ne ha hb hne
  obtain ⟨ta, hta, hta1⟩ := h.dated a hamem
  obtain ⟨tb, htb, htb1⟩ := h.dated b hbmem
  unfold scoreAt at hover
  rw [hta, htb, Option.getD_some, Option.getD_some] at hover
  rw [htb, Option.getD_some] at hyoung
  rw [hta, htb]
  show decide (ta < tb) = true
  refine decide_eq_true (not_le.mp fun hold => ?_)
  unfold decayed at hyoung
  rw [recency_of_le (by omega) (by unfold decayed; omega), recency_of_le (by omega) (by unfold decayed; omega),
    recency_of_le (by omega) (by unfold decayed; omega), recency_of_le (by omega) (by unfold decayed; omega)]
    at hover
  have hnonneg : 0 ≤ weight view b := weight_nonneg (h.confidence b hbmem).1
  have hshift : ∀ u : ℤ, 1 - ((t2 - u : ℤ) : ℚ) / 86400000 / 800 =
      1 - ((t1 - u : ℤ) : ℚ) / 86400000 / 800 - ((t2 - t1 : ℤ) : ℚ) / 86400000 / 800 := by
    intro u
    push_cast
    ring
  have hages : ((t1 - ta : ℤ) : ℚ) ≤ ((t1 - tb : ℤ) : ℚ) := by
    exact_mod_cast (by omega : t1 - ta ≤ t1 - tb)
  have helapsed : (0 : ℚ) ≤ ((t2 - t1 : ℤ) : ℚ) := by exact_mod_cast (by omega : 0 ≤ t2 - t1)
  have hlast : ((t2 - tb : ℤ) : ℚ) ≤ 360 * 86400000 := by exact_mod_cast hyoung
  rw [hshift ta, hshift tb] at hover
  refine not_overtaken hnonneg ?_ ?_ ?_ hover
  · linarith
  · positivity
  · rw [← hshift tb]
    linarith

/-- The first place does not change where all deadline claims have one timestamp. -/
theorem leadingDeadline_of_sameTime (h : Evidence getTime view t1)
    (hsame : ∀ a ∈ fieldClaims view .applicationDeadline,
      ∀ b ∈ fieldClaims view .applicationDeadline, claimTime getTime a = claimTime getTime b) :
    leadingDeadline getTime view t1 = leadingDeadline getTime view t2 := by
  cases hclaims : fieldClaims view .applicationDeadline with
  | nil =>
      have hnone : ∀ t, leadingDeadline getTime view t = none := by
        intro t
        rw [leadingDeadline, hclaims]
        exact Leader.leader_eq_none.mpr rfl
      rw [hnone t1, hnone t2]
  | cons first rest =>
      have hfirst : first ∈ fieldClaims view .applicationDeadline := by
        rw [hclaims]
        exact List.mem_cons_self
      refine leadingDeadline_of_recency h
        ⟨recency_pos (t1 - (claimTime getTime first).getD 0),
          recency_pos (t2 - (claimTime getTime first).getD 0)⟩ fun c hc => ?_
      rw [hsame c hc first hfirst]
      exact ⟨rfl, rfl⟩

/-- Nor once all of them are 360 days old. -/
theorem leadingDeadline_of_decayed (h : Evidence getTime view t1) (hle : t1 ≤ t2)
    (hold : ∀ c ∈ fieldClaims view .applicationDeadline, ∀ u, claimTime getTime c = some u →
      decayed ≤ t1 - u) :
    leadingDeadline getTime view t1 = leadingDeadline getTime view t2 := by
  have hleast : (0 : ℚ) < 55 / 100 := by norm_num
  refine leadingDeadline_of_recency h ⟨hleast, hleast⟩ fun c hc => ?_
  obtain ⟨u, hu, -⟩ := h.dated c (List.mem_filter.mp hc).1
  have hage := hold c hc u hu
  rw [hu, Option.getD_some]
  exact ⟨recency_of_ge hage, recency_of_ge (by omega)⟩

/-- **Time alone** revives an application only by putting another deadline claim first.  While the
same one leads, a stale application stays stale; the first place does not change where all deadline
claims have one timestamp, nor once all of them are 360 days old; and a claim that is no older than
360 days takes it from an older claim only. -/
theorem stale_later (getTime : Json → Option ℤ) (digest : String → String) (view : View)
    (orgId : String) (t1 t2 : ℤ) (h : Evidence getTime view t1) (hle : t1 ≤ t2) :
    (leadingDeadline getTime view t1 = leadingDeadline getTime view t2 →
      staleApplication getTime digest view orgId t1 = true →
        staleApplication getTime digest view orgId t2 = true) ∧
    ((∀ a ∈ fieldClaims view .applicationDeadline, ∀ b ∈ fieldClaims view .applicationDeadline,
        claimTime getTime a = claimTime getTime b) →
      leadingDeadline getTime view t1 = leadingDeadline getTime view t2) ∧
    ((∀ c ∈ fieldClaims view .applicationDeadline, ∀ u, claimTime getTime c = some u →
        decayed ≤ t1 - u) →
      leadingDeadline getTime view t1 = leadingDeadline getTime view t2) ∧
    ∀ a b, leadingDeadline getTime view t1 = some a → leadingDeadline getTime view t2 = some b →
      a ≠ b → (∀ u, claimTime getTime b = some u → t2 - u ≤ decayed) →
        after (claimTime getTime b) (claimTime getTime a) = true := by
  refine ⟨staleApplication_later h.noOverrides hle, leadingDeadline_of_sameTime h,
    leadingDeadline_of_decayed h hle, fun a b ha hb hne hyoung => ?_⟩
  refine newer_of_leadingDeadline_ne h hle ha hb hne ?_
  have hbmem := Leader.mem_of_leader (leadingDeadline_eq h ▸ hb)
  obtain ⟨u, hu, -⟩ := h.dated b (List.mem_filter.mp hbmem).1
  rw [hu]
  exact hyoung u hu

/-! ### A post and a mail -/

/-- The times of the example. -/
def seasonTimes : Json → Option ℤ
  | .str "2026-01-01T00:00:00Z" => some 1767225600000
  | .str "2026-01-15T00:00:00Z" => some 1768435200000
  | .str "2026-01-31" => some 1769817600000
  | .str "2026-12-31" => some 1798675200000
  | _ => none

/-- A post with a deadline, and two weeks later a mail with another one. -/
def seasonView : View where
  claims := [
    postClaim "c1" "post" .applicationDeadline (.str "2026-01-31") "2026-01-01T00:00:00Z",
    postClaim "c2" "mail" .applicationDeadline (.str "2026-12-31") "2026-01-15T00:00:00Z"]
  sourceType := fun id => if id = "post" then some .instagram else some .gmail
  overrides := []

/-- It is evidence from 15 January on. -/
theorem seasonEvidence (h : 1768435200000 ≤ t) : Evidence seasonTimes seasonView t where
  noOverrides := rfl
  ids := by decide
  confidence := by decide +kernel
  dated c hc := by
    obtain rfl | hc := List.mem_cons.mp hc
    · exact ⟨1767225600000, rfl, by omega⟩
    · obtain rfl := List.mem_singleton.mp hc
      exact ⟨1768435200000, rfl, h⟩

/-- On 1 and 2 March the post leads, and the application is stale. -/
theorem stale_in_march : staleApplication seasonTimes id seasonView "club" 1772409600000 = true :=
  (stale_later seasonTimes id seasonView "club" 1772323200000 1772409600000
    (seasonEvidence (by decide)) (by decide)).1 (by decide +kernel) (by decide +kernel)

/-- On 20 June the mail leads, and the application is open again. -/
theorem revived_in_june : ¬ ∀ (getTime : Json → Option ℤ) (digest : String → String) (view : View)
    (orgId : String) (t1 t2 : ℤ), Evidence getTime view t1 → t1 ≤ t2 →
      staleApplication getTime digest view orgId t1 = true →
        staleApplication getTime digest view orgId t2 = true := by
  intro h
  have hjune := h seasonTimes id seasonView "club" 1772323200000 1781913600000
    (seasonEvidence (by decide)) (by decide) (by decide +kernel)
  exact absurd hjune (by decide +kernel)

end Resolver

end RecruitingOs
