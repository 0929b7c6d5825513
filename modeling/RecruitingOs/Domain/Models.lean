import Mathlib.Algebra.Field.Rat
import RecruitingOs.Domain.Util

/-!
# The domain model

The records of `src/domain/models.ts` that the modelled functions read and write.
A timestamp that the code keeps as text stays text; `confidence` is a rational,
which every finite double is.  A field that an extractor or a stored JSON document
fills without a check is `Json`.
-/

namespace RecruitingOs

/-- `SourceType`. -/
inductive SourceType where
  | gmail
  | groupme
  | instagram
  | linkedin
  | website
  | bioLink
  | application
  | screenshot
  | heelLife
deriving Repr, DecidableEq

/-- The text of a source type. -/
def SourceType.text : SourceType → String
  | .gmail => "gmail"
  | .groupme => "groupme"
  | .instagram => "instagram"
  | .linkedin => "linkedin"
  | .website => "website"
  | .bioLink => "bio_link"
  | .application => "application"
  | .screenshot => "screenshot"
  | .heelLife => "heel_life"

/-- `ClaimField`. -/
inductive ClaimField where
  | applicationOpen
  | applicationDeadline
  | applicationUrl
  | event
  | requirement
  | status
  | socialHandle
  | recruitingNote
deriving Repr, DecidableEq

/-- The text of a claim field. -/
def ClaimField.text : ClaimField → String
  | .applicationOpen => "application_open"
  | .applicationDeadline => "application_deadline"
  | .applicationUrl => "application_url"
  | .event => "event"
  | .requirement => "requirement"
  | .status => "status"
  | .socialHandle => "social_handle"
  | .recruitingNote => "recruiting_note"

/-- `SourceVersionStatus`. -/
inductive SourceVersionStatus where
  | received
  | queued
  | processing
  | succeeded
  | retryableFailed
  | terminalFailed
deriving Repr, DecidableEq

/-- `TemporalPrecision`. -/
inductive TemporalPrecision where
  | date
  | dateTime
  | relativeInferred
deriving Repr, DecidableEq

/-- An organization id, as `organizationSchema` admits it:
`/^[a-z0-9][a-z0-9-]*$/`, two to eighty characters. -/
structure OrganizationId where
  text : String
  length : 2 ≤ text.length ∧ text.length ≤ 80
  pattern : text.toList.head?.any (fun c => c.isLower ∨ c.isDigit) ∧
    text.toList.all fun c => c.isLower ∨ c.isDigit ∨ c = '-'
deriving Repr, DecidableEq

/-- `SourceItem`; the `MediaRef`s of `media` are kept as the JSON that is stored. -/
structure SourceItem where
  id : String
  tenantId : Option String
  contributorUserId : Option String
  organizationId : String
  sourceType : SourceType
  externalId : Option String
  url : Option String
  title : Option String
  rawText : String
  media : List Json
  publishedAt : Option String
  fetchedAt : String
  metadata : Option Json
deriving Repr, DecidableEq

/-- `Claim`. -/
structure Claim where
  id : String
  tenantId : String
  organizationId : String
  sourceItemId : String
  field : ClaimField
  value : Json
  confidence : ℚ
  publishedAt : Option String
  extractedAt : String
  supersedes : List String
  evidence : Option String
  temporalPrecision : Option TemporalPrecision
deriving Repr, DecidableEq

/-- `Opportunity['kind']`. -/
inductive OpportunityKind where
  | application
  | event
  | task
deriving Repr, DecidableEq

/-- `Opportunity`.  The confidence is `none` where it is `NaN`, and `resolvedAt` is
the instant that the text denotes. -/
structure Opportunity where
  id : String
  organizationId : String
  kind : OpportunityKind
  title : String
  deadlineAt : Option String
  startsAt : Option Json
  url : Option Json
  confidence : Option ℚ
  stale : Bool
  sourceClaimIds : List String
  explanation : String
  resolvedAt : ℤ
  resolverVersion : String
  deadlinePrecision : Option TemporalPrecision
  startsAtPrecision : Option Json
deriving Repr, DecidableEq

/-- The patch of a stored override: the fields that it names. -/
structure OpportunityPatch where
  title : Option String
  deadlineAt : Option String
  startsAt : Option String
  url : Option String
  stale : Option Bool
deriving Repr, DecidableEq

/-- `OpportunityOverride`. -/
structure OpportunityOverride where
  id : String
  tenantId : String
  opportunityId : String
  organizationId : String
  actorId : Option String
  patch : OpportunityPatch
  reason : String
  createdAt : String
deriving Repr, DecidableEq

theorem OrganizationId.noColon (org : OrganizationId) : ':' ∉ org.text.toList := by
  intro hmem
  have hall := List.all_eq_true.mp org.pattern.2 ':' hmem
  revert hall
  decide

end RecruitingOs
