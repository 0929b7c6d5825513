import RecruitingOs.Lib.Leader
import RecruitingOs.Resolver.Standing

/-!
# Announcements and deadlines

A newer announcement that applications are open, or closed, overrides an older deadline.  The
resolver compares the newest announcement with one deadline claim, the one with the highest score,
whatever newer deadline claims there are (`unaffected_iff`).
-/

namespace RecruitingOs

namespace Resolver

variable (getTime : Json → Option ℤ) (view : View) (clock : Clock)

/-- The claims of a field. -/
def fieldClaims (field : ClaimField) : List Claim := view.claims.filter fun c => c.field = field

/-- The first claim has the higher score. -/
def outranks (a b : Claim) : Bool :=
  exceeds (score (scores getTime view clock) (some a)) (score (scores getTime view clock) (some b))

/-- The front of a descending sort is its leader. -/
theorem head?_sortDescending {α : Type} (key : α → Option ℚ) (xs : List α) :
    (sortDescending key xs).head? = Leader.leader (fun a b => exceeds (key a) (key b)) xs :=
  Leader.head?_insertionSort (fun a b => exceeds (key a) (key b)) xs

theorem bestDeadline_eq : bestDeadline getTime view clock =
    Leader.leader (outranks getTime view clock) (fieldClaims view .applicationDeadline) :=
  head?_sortDescending _ _

/-- A deadline claim is newer than the newest announcement. -/
def newerDeadline : Bool :=
  (fieldClaims view .applicationDeadline).any fun d =>
    (latestOpen getTime view).all fun opening =>
      after (claimTime getTime d) (claimTime getTime opening)

/-- Where the newest announcement says that applications are closed, the leading deadline claim is
newer; where it says that they are open, the leading deadline claim is not older. -/
def leaderNotOlder : Bool :=
  (latestOpen getTime view).all fun opening =>
    (Leader.leader (outranks getTime view clock) (fieldClaims view .applicationDeadline)).all fun best =>
      ¬ (opening.value = .bool false ∧
          notBefore (claimTime getTime opening) (claimTime getTime best)) ∧
        ¬ (opening.value = .bool true ∧
          after (claimTime getTime opening) (claimTime getTime best))

/-- The explanations of an application that an announcement decides. -/
def announced : List String :=
  ["A newer source says applications are open; older deadline suppressed until a current deadline is confirmed.",
    "The newest authoritative source says applications are closed."]

/-- No announcement overrides the deadline of the application. -/
structure Unaffected (now : ℤ) (o : Opportunity) : Prop where
  shown : o.deadlineAt.isSome = true
  stale : o.stale = (o.deadlineAt.bind fun text => getTime (.str text)).any (· < now)
  explanation : o.explanation ∉ announced

variable {getTime view clock} {digest : String → String} {orgId : String} {now : ℤ}

/-- **The application** is unaffected if it is neither reopened nor closed. -/
theorem application_unaffected_iff (hdeadline : (bestDeadline getTime view clock).isSome = true) :
    (∀ o ∈ application getTime digest view clock orgId now, Unaffected getTime now o) ↔
      reopened getTime view clock = false ∧ explicitlyClosed getTime view clock = false := by
  obtain ⟨best, hbest⟩ := Option.isSome_iff_exists.mp hdeadline
  have happlication : application getTime digest view clock orgId now = [_] := if_pos (Or.inl hdeadline)
  rw [happlication, List.forall_mem_singleton]
  constructor
  · rintro ⟨hshown, -, hexplanation⟩
    cases hreopened : reopened getTime view clock with
    | true =>
        -- a reopened application shows no deadline
        have hnone : (if reopened getTime view clock then none
            else (bestDeadline getTime view clock).map fun c => c.value.toText).isSome = true := hshown
        rw [hreopened] at hnone
        cases hnone
    | false =>
        refine ⟨rfl, Bool.eq_false_iff.mpr fun hclosed => hexplanation ?_⟩
        show (if reopened getTime view clock then _ else if explicitlyClosed getTime view clock then _
          else _) ∈ announced
        rw [hreopened, hclosed]
        exact List.mem_cons_of_mem _ List.mem_cons_self
  · rintro ⟨hreopened, hclosed⟩
    constructor
    case shown =>
      show (if reopened getTime view clock then none
        else (bestDeadline getTime view clock).map fun c => c.value.toText).isSome = true
      rw [hreopened, hbest]
      rfl
    case stale =>
      show decide (explicitlyClosed getTime view clock = true ∨ (¬ reopened getTime view clock = true ∧
        (((bestDeadline getTime view clock).map fun c => c.value.toText).bind fun text =>
          getTime (.str text)).any (· < now) = true)) =
        ((if reopened getTime view clock then none
          else (bestDeadline getTime view clock).map fun c => c.value.toText).bind fun text =>
            getTime (.str text)).any (· < now)
      rw [hreopened, hclosed]
      simp
    case explanation =>
      show (if reopened getTime view clock then _ else if explicitlyClosed getTime view clock then _
        else if _ then "The best-supported deadline is in the past."
        else "Resolved from the highest-confidence application claims.") ∉ announced
      rw [hreopened, hclosed, if_neg Bool.false_ne_true, if_neg Bool.false_ne_true]
      split
      · decide
      · decide

/-- What the resolver compares. -/
theorem leaderNotOlder_iff {best : Claim} (hbest : bestDeadline getTime view clock = some best) :
    leaderNotOlder getTime view clock = true ↔
      reopened getTime view clock = false ∧ explicitlyClosed getTime view clock = false := by
  unfold leaderNotOlder reopened explicitlyClosed latestOpenTime deadlineClaimTime
  rw [← bestDeadline_eq, hbest]
  cases latestOpen getTime view with
  | none => exact iff_of_true rfl ⟨rfl, rfl⟩
  | some opening =>
      simp only [Option.all_some, Option.any_some, Option.map_some, Option.getD_some,
        decide_eq_true_iff, decide_eq_false_iff_not]
      exact and_comm

theorem kind_of_eventOpportunity {o : Opportunity}
    (ho : o ∈ resolved getTime digest view clock orgId now) (hkind : o.kind = .application) :
    o ∈ application getTime digest view clock orgId now := by
  obtain ho | ho := List.mem_append.mp ho
  · exact ho
  · obtain ⟨pair, -, rfl⟩ := List.mem_map.mp ho
    cases hkind

theorem kind_of_application {o : Opportunity}
    (ho : o ∈ application getTime digest view clock orgId now) : o.kind = .application := by
  unfold application at ho
  dsimp only at ho
  split at ho
  · obtain rfl := List.mem_singleton.mp ho
    rfl
  · cases ho

/-- The times of the example. -/
def postTimes : Json → Option ℤ
  | .str "2026-08-10T12:00:00Z" => some 1786363200000
  | .str "2026-08-27T12:00:00Z" => some 1787832000000
  | .str "2026-08-28T12:00:00Z" => some 1787918400000
  | .str "2026-08-20" => some 1787184000000
  | .str "2026-09-30" => some 1790726400000
  | _ => none

/-- A claim of one of the sources. -/
def postClaim (id source : String) (field : ClaimField) (value : Json) (publishedAt : String) :
    Claim where
  id := id
  tenantId := "t1"
  organizationId := "club"
  sourceItemId := source
  field := field
  value := value
  confidence := 94 / 100
  publishedAt := some publishedAt
  extractedAt := "2026-08-28T12:00:00Z"
  supersedes := []
  evidence := none
  temporalPrecision := some .date

/-- A post with a deadline, a later announcement that applications are open, and a page with a
deadline that is newer than both. -/
def postView (posted : SourceType) : View where
  claims := [
    postClaim "c1" "post" .applicationDeadline (.str "2026-08-20") "2026-08-10T12:00:00Z",
    postClaim "c2" "announcement" .applicationOpen (.bool true) "2026-08-27T12:00:00Z",
    postClaim "c3" "page" .applicationDeadline (.str "2026-09-30") "2026-08-28T12:00:00Z"]
  sourceType := fun id => if id = "page" then some .website else some posted
  overrides := []

def postClock : Clock := ⟨fun _ => 1787918400000, fun _ => 1787918400000⟩

end Resolver

end RecruitingOs
