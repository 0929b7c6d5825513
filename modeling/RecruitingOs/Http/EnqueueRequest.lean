import RecruitingOs.Connectors.SyncSchedule
import RecruitingOs.Queue.Upsert

/-!
# Ingestion and sync requests

What `POST /api/ingest/url`, `POST /api/ingest/screenshot` and
`POST /api/connectors/:provider/sync` of `src/http/routes` enqueue, once the body has passed
its schema and the user may act for the organization.

The idempotency key is the header `x-idempotency-key` as it was sent, else it is derived from
the user, the body and a window of five minutes.  The unique key of the jobs has the tenant
and not the user in it, so two users of a tenant who send one key share a job.
-/

namespace RecruitingOs

open SqliteJobQueue (hasKey)

/-- A header of a request: one value, or a list where it was repeated. -/
inductive HeaderValue where
  | text (value : String)
  | texts (values : List String)
deriving Repr, DecidableEq

/-- `headerString`. -/
def headerString : Option HeaderValue → Option String
  | none => none
  | some (.text value) => some value
  | some (.texts values) => values.head?

/-- The text that a derived key is the digest of; `now` is `Date.now()`. -/
def derivedText (userId : String) (body : Json) (now : ℤ) : String :=
  userId ++ ":" ++ body.stringify ++ ":" ++ toString (now / 300000)

/-- `idempotencyKey(request, body)`. -/
def idempotencyKey (digest : String → String) (userId : String) (header : Option HeaderValue)
    (body : Json) (now : ℤ) : String :=
  (headerString header).getD (stableId digest "idem" (derivedText userId body now))

/-- A body that has passed `ingestUrlSchema`. -/
structure UrlBody where
  organizationId : String
  url : String
deriving Repr, DecidableEq

/-- A body that has passed `screenshotSchema`; its `consentToProcess` is `true`. -/
structure ScreenshotBody where
  organizationId : String
  base64 : String
  mimeType : String
  note : Option String
  url : Option String
  publishedAt : Option String
deriving Repr, DecidableEq

/-- A body that has passed the schema of the sync route. -/
structure SyncBody where
  organizationId : String
  scope : Option String
  recurring : Bool
deriving Repr, DecidableEq

/-- A field of an object that is left out where the value is `undefined`. -/
def optionalField (key : String) (value : Option String) : List (String × Json) :=
  (value.map fun text => (key, Json.str text)).toList

def UrlBody.fields (body : UrlBody) : List (String × Json) :=
  [("organizationId", .str body.organizationId), ("url", .str body.url)]

def ScreenshotBody.fields (body : ScreenshotBody) : List (String × Json) :=
  [("organizationId", .str body.organizationId), ("base64", .str body.base64),
      ("mimeType", .str body.mimeType)] ++
    optionalField "note" body.note ++ optionalField "url" body.url ++
    optionalField "publishedAt" body.publishedAt ++ [("consentToProcess", .bool true)]

def SyncBody.fields (body : SyncBody) : List (String × Json) :=
  [("organizationId", .str body.organizationId)] ++ optionalField "scope" body.scope ++
    [("recurring", .bool body.recurring)]

/-- The route of a request, with its body. -/
inductive EnqueueBody where
  | url (body : UrlBody)
  | screenshot (body : ScreenshotBody)
  | sync (provider : String) (body : SyncBody)
deriving Repr, DecidableEq

namespace EnqueueBody

/-- The type of the job. -/
def type : EnqueueBody → String
  | url _ => "ingest.url"
  | screenshot _ => "ingest.screenshot"
  | sync _ _ => "connector.sync"

/-- What the derived key is computed from; `sha256` is the hexadecimal digest. -/
def hashed (sha256 : String → String) : EnqueueBody → Json
  | url body => .obj body.fields
  | screenshot body => .obj { body with base64 := sha256 body.base64 }.fields
  | sync provider body => .obj (("provider", .str provider) :: body.fields)

/-- The payload of the job. -/
def payload (userId : String) : EnqueueBody → Json
  | url body => .obj (body.fields ++ [("userId", .str userId)])
  | screenshot body => .obj (body.fields ++ [("userId", .str userId)])
  | sync provider body =>
      .obj ([("provider", .str provider), ("userId", .str userId)] ++ body.fields)

end EnqueueBody

/-- A request that a route accepts. -/
structure EnqueueRequest where
  tenantId : String
  userId : String
  /-- `x-idempotency-key`. -/
  header : Option HeaderValue
  body : EnqueueBody
  /-- `Date.now()` when the key is derived. -/
  now : ℤ
deriving Repr, DecidableEq

namespace EnqueueRequest

/-- The idempotency key of the job. -/
def key (digest sha256 : String → String) (r : EnqueueRequest) : String :=
  idempotencyKey digest r.userId r.header (r.body.hashed sha256) r.now

/-- The payload of the job. -/
def payload (r : EnqueueRequest) : Json := r.body.payload r.userId

/-- `queue.enqueue({ … })` of the route. -/
def input (digest sha256 : String → String) (r : EnqueueRequest) : EnqueueJob where
  tenantId := r.tenantId
  type := r.body.type
  idempotencyKey := r.key digest sha256
  payload := r.payload
  priority := none
  maxAttempts := none
  availableAt := none

variable {digest sha256 : String → String} {dialect : Dialect} {timestamp : ℤ → String}
  {r r₁ r₂ : EnqueueRequest} {q q₁ q₂ : Queue} {c₁ c₂ : Readings} {job₁ job₂ : Job}

/-- The payload names its user. -/
theorem payload_userId (r : EnqueueRequest) : r.payload.get? "userId" = some (.str r.userId) := by
  obtain ⟨tenantId, userId, header, body, now⟩ := r
  cases body with
  | url body => rfl
  | screenshot body =>
      obtain ⟨_, _, _, note, url, publishedAt⟩ := body
      cases note <;> cases url <;> cases publishedAt <;> rfl
  | sync provider body => rfl

theorem payload_ne (huser : r₁.userId ≠ r₂.userId) : r₁.payload ≠ r₂.payload := by
  intro h
  have hfield := r₁.payload_userId
  rw [h, r₂.payload_userId] at hfield
  exact huser (Json.str.inj (Option.some.inj hfield)).symm

/-- Keys that the server derives for two users differ. -/
theorem key_ne_of_derived (huser : r₁.userId ≠ r₂.userId) (hcolon₁ : ':' ∉ r₁.userId.toList)
    (hcolon₂ : ':' ∉ r₂.userId.toList) (h₁ : headerString r₁.header = none)
    (h₂ : headerString r₂.header = none)
    (hdigest : CollisionFree digest [derivedText r₁.userId (r₁.body.hashed sha256) r₁.now,
      derivedText r₂.userId (r₂.body.hashed sha256) r₂.now]) :
    r₁.key digest sha256 ≠ r₂.key digest sha256 := by
  intro hkey
  simp only [key, idempotencyKey, h₁, h₂, Option.getD_none] at hkey
  have htext := hdigest _ (by simp) _ (by simp) (stableId_inj.mp hkey)
  simp only [derivedText, String.append_assoc] at htext
  exact huser (colon_join_inj hcolon₁ hcolon₂ htext).1

/-- The two requests ask for a job under one unique key of the tenant. -/
def SameJob (digest sha256 : String → String) (r₁ r₂ : EnqueueRequest) : Prop :=
  r₁.body.type = r₂.body.type ∧ r₁.key digest sha256 = r₂.key digest sha256

/-- The key of the request has no job in the table, or a cancelled one, or one with the payload
of the request. -/
def Unclaimed (digest sha256 : String → String) (q : Queue) (r : EnqueueRequest) : Prop :=
  ∀ row ∈ q.jobs, hasKey (r.input digest sha256) row → row.status ≠ .cancelled →
    row.payload = r.payload

section Pair

/-- A row has the key of both requests only where they ask for one job. -/
theorem hasKey_of_sameJob (htenant : r₁.tenantId = r₂.tenantId)
    (hsame : SameJob digest sha256 r₁ r₂) :
    hasKey (r₁.input digest sha256) = hasKey (r₂.input digest sha256) := by
  funext row
  rw [Bool.eq_iff_iff, SqliteJobQueue.hasKey_iff, SqliteJobQueue.hasKey_iff]
  simp only [input, htenant, hsame.1, hsame.2]

theorem not_hasKey_of_not_sameJob (hdiffer : ¬ SameJob digest sha256 r₁ r₂) {row : JobRow}
    (hkey : hasKey (r₂.input digest sha256) row) : ¬ hasKey (r₁.input digest sha256) row := by
  intro hkey'
  obtain ⟨-, htype, hidempotency⟩ := SqliteJobQueue.hasKey_iff.mp hkey
  obtain ⟨-, htype', hidempotency'⟩ := SqliteJobQueue.hasKey_iff.mp hkey'
  exact hdiffer ⟨htype'.symm.trans htype, hidempotency'.symm.trans hidempotency⟩

/-- The answer to a request carries its payload where nobody else has claimed its key. -/
theorem payload_iff (h : QueueReached dialect digest timestamp q)
    (henqueue : enqueueOn dialect digest q (r.input digest sha256) c₁ = some (q₁, job₁)) :
    job₁.payload = r.payload ↔ r.Unclaimed digest sha256 q := by
  obtain ⟨row, hupserted, rfl⟩ := enqueueOn_some h.keyed henqueue
  rw [jobOf_payload]
  exact hupserted.payload_iff h.keyed (freshRow_spec dialect digest _ c₁).2.1

/-- What the first request leaves unclaimed for the second. -/
theorem unclaimed_iff (h : QueueReached dialect digest timestamp q)
    (henqueue : enqueueOn dialect digest q (r₁.input digest sha256) c₁ = some (q₁, job₁))
    (htenant : r₁.tenantId = r₂.tenantId) (huser : r₁.userId ≠ r₂.userId)
    (hown : job₁.payload = r₁.payload) :
    r₂.Unclaimed digest sha256 q₁ ↔ ¬ SameJob digest sha256 r₁ r₂ ∧ r₂.Unclaimed digest sha256 q := by
  obtain ⟨row, hupserted, rfl⟩ := enqueueOn_some h.keyed henqueue
  obtain ⟨-, -, hqueued, hfresh⟩ := freshRow_spec dialect digest (r₁.input digest sha256) c₁
  have hother : ∀ other, ¬ hasKey (r₁.input digest sha256) other →
      (other ∈ q₁.jobs ↔ other ∈ q.jobs) := fun other hkey => hupserted.mem_other hfresh hkey
  constructor
  · intro hunclaimed
    have hdiffer : ¬ SameJob digest sha256 r₁ r₂ := by
      intro hsame
      obtain ⟨hrow, hkey, hlive⟩ := hupserted.mem hfresh (by rw [hqueued]; decide)
      rw [hasKey_of_sameJob htenant hsame] at hkey
      have hpayload := hunclaimed row hrow hkey hlive
      rw [jobOf_payload] at hown
      exact payload_ne huser (hown.symm.trans hpayload)
    refine ⟨hdiffer, fun other hmem hkey => hunclaimed other ?_ hkey⟩
    exact (hother other (not_hasKey_of_not_sameJob hdiffer hkey)).mpr hmem
  · rintro ⟨hdiffer, hunclaimed⟩ other hmem hkey
    exact hunclaimed other ((hother other (not_hasKey_of_not_sameJob hdiffer hkey)).mp hmem) hkey

/-- Requests for two jobs do not touch one another: the second is answered as it is without
the first. -/
theorem enqueueOn_alone (h : QueueReached dialect digest timestamp q)
    (h₁ : enqueueOn dialect digest q (r₁.input digest sha256) c₁ = some (q₁, job₁))
    (h₂ : enqueueOn dialect digest q₁ (r₂.input digest sha256) c₂ = some (q₂, job₂))
    (hdiffer : ¬ SameJob digest sha256 r₁ r₂) :
    ∃ q', enqueueOn dialect digest q (r₂.input digest sha256) c₂ = some (q', job₂) := by
  obtain ⟨row₁, hupserted₁, -⟩ := enqueueOn_some h.keyed h₁
  have hkeyed₁ := (h.enqueueOn h₁).keyed
  obtain ⟨row₂, hupserted₂, rfl⟩ := enqueueOn_some hkeyed₁ h₂
  have hfresh₁ := (freshRow_spec dialect digest (r₁.input digest sha256) c₁).2.2.2
  have hid₂ := (freshRow_spec dialect digest (r₂.input digest sha256) c₂).1
  have hsame : ∀ row, hasKey (r₂.input digest sha256) row → (row ∈ q.jobs ↔ row ∈ q₁.jobs) :=
    fun row hkey => (hupserted₁.mem_other hfresh₁ (not_hasKey_of_not_sameJob hdiffer hkey)).symm
  obtain ⟨q', job', henqueue⟩ : ∃ q' job', enqueueOn dialect digest q
      (r₂.input digest sha256) c₂ = some (q', job') := by
    refine enqueueOn_isSome h.keyed (storableOn_of_enqueueOn h₂) ?_
    refine hupserted₂.known_or_free.imp ?_ fun hfree row hrow htaken => ?_
    · rintro ⟨old, hold, hkey⟩
      exact ⟨old, (hsame old hkey).mpr hold, hkey⟩
    · obtain ⟨new, hmem, hid⟩ := hupserted₁.exists_id hrow
      exact hfree new hmem (hid.trans (htaken.trans hid₂.symm))
  obtain ⟨row', hupserted', rfl⟩ := enqueueOn_some h.keyed henqueue
  rw [hupserted₂.row_eq hupserted' hkeyed₁ hsame] at henqueue
  exact ⟨q', henqueue⟩

/-- Two requests of two users of a tenant, on either queue.  They are answered with their own
jobs exactly where neither key holds a job with another payload when its request comes.  Where
one follows the other at once, this asks that they are not for one job; the second is then
answered as it is without the first. -/
theorem own_jobs_iff (h : QueueReached dialect digest timestamp q)
    (h₁ : enqueueOn dialect digest q (r₁.input digest sha256) c₁ = some (q₁, job₁))
    (htenant : r₁.tenantId = r₂.tenantId) (huser : r₁.userId ≠ r₂.userId) :
    (∀ q' q₂ c₂ job₂, QueueLater dialect digest timestamp q₁ q' →
      enqueueOn dialect digest q' (r₂.input digest sha256) c₂ = some (q₂, job₂) →
      (job₁.payload = r₁.payload ∧ job₂.payload = r₂.payload ↔
        r₁.Unclaimed digest sha256 q ∧ r₂.Unclaimed digest sha256 q')) ∧
    (∀ q₂ c₂ job₂, enqueueOn dialect digest q₁ (r₂.input digest sha256) c₂ = some (q₂, job₂) →
      (job₁.payload = r₁.payload ∧ job₂.payload = r₂.payload ∧
          (∃ q', enqueueOn dialect digest q (r₂.input digest sha256) c₂ = some (q', job₂)) ↔
        ¬ SameJob digest sha256 r₁ r₂ ∧ r₁.Unclaimed digest sha256 q ∧
          r₂.Unclaimed digest sha256 q)) := by
  have hreached₁ := h.enqueueOn h₁
  refine ⟨fun q' q₂ c₂ job₂ hlater h₂ => ?_, fun q₂ c₂ job₂ h₂ => ⟨?_, ?_⟩⟩
  · rw [payload_iff h h₁, payload_iff (hreached₁.later hlater) h₂]
  · rintro ⟨hown₁, hown₂, -⟩
    obtain ⟨hdiffer, hunclaimed₂⟩ :=
      (unclaimed_iff h h₁ htenant huser hown₁).mp ((payload_iff hreached₁ h₂).mp hown₂)
    exact ⟨hdiffer, (payload_iff h h₁).mp hown₁, hunclaimed₂⟩
  · rintro ⟨hdiffer, hunclaimed₁, hunclaimed₂⟩
    have hown₁ := (payload_iff h h₁).mpr hunclaimed₁
    have hown₂ := (payload_iff hreached₁ h₂).mpr
      ((unclaimed_iff h h₁ htenant huser hown₁).mpr ⟨hdiffer, hunclaimed₂⟩)
    exact ⟨hown₁, hown₂, enqueueOn_alone h h₁ h₂ hdiffer⟩

end Pair

/-! ### One header for two users -/

/-- Two members of an organization, who send one URL each. -/
def newsRequest : EnqueueRequest where
  tenantId := "t"
  userId := "usr_1"
  header := some (.text "retry-1")
  body := .url ⟨"org", "https://club.example/news"⟩
  now := 0

def rushRequest : EnqueueRequest where
  tenantId := "t"
  userId := "usr_2"
  header := some (.text "retry-1")
  body := .url ⟨"org", "https://club.example/rush"⟩
  now := 0

/-- With keys of their own, both are answered with their own jobs. -/
theorem own_jobs_iff_apart :
    let rush := { rushRequest with header := some (.text "retry-2") }
    ∃ q₁ q₂ job₁ job₂,
      enqueueOn .sqlite id Queue.empty (newsRequest.input id id) ⟨0, []⟩ = some (q₁, job₁) ∧
      enqueueOn .sqlite id q₁ (rush.input id id) ⟨0, []⟩ = some (q₂, job₂) ∧
      job₁.payload = newsRequest.payload ∧ job₂.payload = rush.payload ∧
      ∃ q', enqueueOn .sqlite id Queue.empty (rush.input id id) ⟨0, []⟩ = some (q', job₂) := by
  intro rush
  have hreached : QueueReached .sqlite id (fun _ => "now") Queue.empty := .start rfl
  have htenant : newsRequest.tenantId = rush.tenantId := rfl
  have huser : newsRequest.userId ≠ rush.userId := by decide
  obtain ⟨q₁, q₂, job₁, job₂, h₁, h₂⟩ : ∃ q₁ q₂ job₁ job₂,
      enqueueOn .sqlite id Queue.empty (newsRequest.input id id) ⟨0, []⟩ = some (q₁, job₁) ∧
      enqueueOn .sqlite id q₁ (rush.input id id) ⟨0, []⟩ = some (q₂, job₂) :=
    ⟨_, _, _, _, rfl, rfl⟩
  refine ⟨q₁, q₂, job₁, job₂, h₁, h₂,
    ((own_jobs_iff hreached h₁ htenant huser).2 q₂ _ job₂ h₂).mpr ⟨?_, ?_, ?_⟩⟩
  · rintro ⟨-, hkey⟩
    exact absurd hkey (by decide)
  · intro row hrow
    cases hrow
  · intro row hrow
    cases hrow

/-- In the empty table, the second user is answered with the first user's job. -/
def Absorbed (dialect : Dialect) : Prop :=
  QueueReached dialect id (fun _ => "now") Queue.empty ∧ ∃ q₁ q₂ job₁ job₂,
    enqueueOn dialect id Queue.empty (newsRequest.input id id) ⟨0, []⟩ = some (q₁, job₁) ∧
    enqueueOn dialect id q₁ (rushRequest.input id id) ⟨0, []⟩ = some (q₂, job₂) ∧
    job₂.payload = newsRequest.payload ∧ job₂.payload ≠ rushRequest.payload

/-- With one key, the request of the second user is absorbed. -/
theorem not_own_jobs_shared_header :
    newsRequest.tenantId = rushRequest.tenantId ∧ newsRequest.userId ≠ rushRequest.userId ∧
      Absorbed .sqlite ∧ Absorbed .postgres := by
  refine ⟨rfl, by decide, ?_, ?_⟩
  · exact ⟨.start rfl, _, _, _, _, rfl, rfl, rfl, by decide⟩
  · exact ⟨.start rfl, _, _, _, _, rfl, rfl, rfl, by decide⟩

end EnqueueRequest

end RecruitingOs
