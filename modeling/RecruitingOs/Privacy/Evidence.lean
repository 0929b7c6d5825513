import Mathlib.Data.List.Forall2
import RecruitingOs.Privacy.Invariant

/-!
# Who owns the evidence

A private version that was only ever staged with contributors is there exactly while
somebody contributes it, in every reachable state: the erasure of its last contributor
deletes it, with its claims, and no earlier one does.  `LeavesOthers` is what an erasure
does not touch.

The cursors of another member survive because `like` tells the ids of two members
apart, even though `_` is a wildcard: `HexDigest`.
-/

namespace RecruitingOs

/-- `digest` answers 24 lower-case hexadecimal digits. -/
def HexDigest (digest : String → String) : Prop :=
  ∀ value, (digest value).toList.length = 24 ∧
    ∀ c ∈ (digest value).toList, c ∈ "0123456789abcdef".toList

/-! ### The cursors of two members -/

theorem hexDigit {c : Char} (hc : c ∈ "0123456789abcdef".toList) :
    c ≠ '%' ∧ c ≠ '\\' ∧ c ≠ '_' ∧ c.toLower = c := by
  have hall : "0123456789abcdef".toList.all fun c =>
      c ≠ '%' ∧ c ≠ '\\' ∧ c ≠ '_' ∧ c.toLower = c := by decide
  exact of_decide_eq_true (List.all_eq_true.mp hall c hc)

theorem userId_toList (digest : String → String) (identity : OidcIdentity) :
    (userId digest identity).toList =
      'u' :: 's' :: 'r' :: '_' :: (digest (identity.issuer ++ ":" ++ identity.subject)).toList := by
  simp [userId, stableId]

theorem HexDigest.length {digest : String → String} (h : HexDigest digest)
    (identity : OidcIdentity) : (userId digest identity).toList.length = 28 := by
  rw [userId_toList, List.length_cons, List.length_cons, List.length_cons, List.length_cons,
    (h _).1]

/-- A digit of a digest matches itself only. -/
theorem Dialect.matchesOne_digit {dialect : Dialect} {p c : Char}
    (hp : p ∈ "0123456789abcdef".toList) (hc : c ∈ "0123456789abcdef".toList)
    (h : Like.matchesOne dialect.likeRules p c) : p = c := by
  obtain ⟨-, -, hp_, hpLower⟩ := hexDigit hp
  obtain ⟨-, -, -, hcLower⟩ := hexDigit hc
  rcases h with rfl | hsame
  · exact absurd rfl hp_
  · cases dialect with
    | sqlite =>
        have hlower : p.toLower = c.toLower := of_decide_eq_true hsame
        rw [hpLower, hcLower] at hlower
        exact hlower
    | postgres => exact of_decide_eq_true hsame

theorem forall₂_eq {α : Type} {R : α → α → Prop} {a b : List α} (h : List.Forall₂ R a b)
    (heq : ∀ x ∈ a, ∀ y ∈ b, R x y → x = y) : a = b := by
  induction h with
  | nil => rfl
  | cons hxy _ ih =>
      rw [heq _ List.mem_cons_self _ List.mem_cons_self hxy,
        ih fun x hx y hy => heq x (List.mem_cons_of_mem _ hx) y (List.mem_cons_of_mem _ hy)]

/-- The scope of one member's cursor is not a scope of another member. -/
theorem HexDigest.isUsersScope {digest : String → String} (h : HexDigest digest)
    {dialect : Dialect} {user owner : OidcIdentity} {group : Option String}
    (hscope : Database.isUsersScope dialect (userId digest user)
      (cursorScope (userId digest owner) group)) : userId digest owner = userId digest user := by
  have hlength := h.length owner
  rcases of_decide_eq_true hscope with hsame | hlike
  · -- the scope is the other id itself, so it has no group
    cases group with
    | none => exact hsame
    | some group =>
        have hsize : (cursorScope (userId digest owner) (some group)).toList.length = 28 := by
          rw [hsame, h.length user]
        have hcolon : (":" : String).toList.length = 1 := rfl
        rw [cursorScope, String.toList_append, String.toList_append, List.length_append,
          List.length_append, hlength, hcolon] at hsize
        omega
  · have hliteral : ∀ p ∈ (userId digest user).toList, p ≠ '%' ∧ p ≠ '\\' := by
      intro p hp
      rw [userId_toList] at hp
      simp only [List.mem_cons] at hp
      rcases hp with rfl | rfl | rfl | rfl | hdigit
      · decide
      · decide
      · decide
      · decide
      · exact ⟨(hexDigit ((h _).2 p hdigit)).1, (hexDigit ((h _).2 p hdigit)).2.1⟩
    obtain ⟨front, rest, happend, hfront, -⟩ := Like.like_literal hliteral hlike
    obtain ⟨tail, htail⟩ : ∃ tail, (cursorScope (userId digest owner) group).toList =
        (userId digest owner).toList ++ tail := by
      cases group with
      | none => exact ⟨[], (List.append_nil _).symm⟩
      | some group => exact ⟨(":" ++ group).toList, by simp [cursorScope, String.append_assoc]⟩
    -- the pattern takes the first 28 characters of the scope, which are the owner
    have hsize : front.length = (userId digest owner).toList.length := by
      rw [← hfront.length_eq, h.length user, hlength]
    obtain ⟨rfl, -⟩ := List.append_inj (happend.symm.trans htail) hsize
    rw [userId_toList, userId_toList] at hfront
    simp only [List.forall₂_cons] at hfront
    have hdigits := forall₂_eq hfront.2.2.2.2 fun x hx y hy =>
      Dialect.matchesOne_digit ((h _).2 x hx) ((h _).2 y hy)
    apply String.toList_inj.mp
    rw [userId_toList, userId_toList, hdigits]

/-- A payload that names a user is that user's. -/
theorem Dialect.isUsersPayload_str {dialect : Dialect} {userId other : String} {payload : Json}
    (h : payload.get? "userId" = some (.str other)) (hmine : dialect.isUsersPayload userId payload) :
    other = userId := by
  cases dialect with
  | sqlite =>
      have hsame : payload.get? "userId" = some (.str userId) := of_decide_eq_true hmine
      rw [h] at hsame
      cases hsame
      rfl
  | postgres =>
      simp only [isUsersPayload, h] at hmine
      exact of_decide_eq_true hmine

namespace PrivacyRun

/-! ### What an erasure deletes and what it leaves -/

/-- A private version that was only ever staged with contributors. -/
def PrivateEvidence (digest sha256 : String → String) (s : PrivacyRun)
    (tenantId id : String) : Prop :=
  ∀ call ∈ s.staged, call.stages digest sha256 tenantId id →
    call.source.sourceType.isPrivate ∧ call.contributor.isSome

/-- The user is the last contributor of the version. -/
def LastContributor (db : Database) (tenantId userId : String) (v : SourceVersionRow) : Prop :=
  v.tenantId = tenantId ∧ ⟨tenantId, v.id, userId⟩ ∈ db.contributors ∧
    ∀ link ∈ db.contributors, link.tenantId = tenantId → link.sourceVersionId = v.id →
      link.userId = userId

/-- An erasure deletes the private versions of which the user is the last contributor,
with their claims, and no public version. -/
structure DeletesOwn (digest sha256 : String → String) (s : PrivacyRun)
    (tenantId userId : String) (db' : Database) : Prop where
  last : ∀ v ∈ s.db.sourceVersions, PrivateEvidence digest sha256 s v.tenantId v.id →
    (v ∉ db'.sourceVersions ↔ LastContributor s.db tenantId userId v)
  claims : ∀ claim ∈ s.db.claims,
    claim ∈ db'.claims ↔ ∃ v ∈ db'.sourceVersions, v.id = claim.sourceItemId
  published : ∀ v ∈ s.db.sourceVersions, ∀ r ∈ s.db.sources, r.id = v.sourceId →
    ¬ r.sourceType.isPrivate → v ∈ db'.sourceVersions

/-- The version is of another tenant, or not the user's, or somebody else's too. -/
def OfOthers (db : Database) (tenantId userId : String) (v : SourceVersionRow) : Prop :=
  v.tenantId ≠ tenantId ∨ ⟨tenantId, v.id, userId⟩ ∉ db.contributors ∨
    ∃ link ∈ db.contributors, link.tenantId = tenantId ∧ link.sourceVersionId = v.id ∧
      link.userId ≠ userId

/-- An erasure leaves what belongs to every other user and to every other tenant. -/
structure LeavesOthers (db : Database) (tenantId userId : String) (db' : Database) : Prop where
  contributors : ∀ link, ¬ (link.tenantId = tenantId ∧ link.userId = userId) →
    (link ∈ db'.contributors ↔ link ∈ db.contributors)
  versions : ∀ v, OfOthers db tenantId userId v → (v ∈ db'.sourceVersions ↔ v ∈ db.sourceVersions)
  claims : ∀ v ∈ db.sourceVersions, OfOthers db tenantId userId v →
    ∀ claim, claim.sourceItemId = v.id → (claim ∈ db'.claims ↔ claim ∈ db.claims)
  credentials : ∀ row, ¬ (row.tenantId = tenantId ∧ row.userId = userId) →
    (row ∈ db'.credentials ↔ row ∈ db.credentials)
  sessions : ∀ row, ¬ (row.tenantId = tenantId ∧ row.userId = userId) →
    (row ∈ db'.sessions ↔ row ∈ db.sessions)
  jobs : ∀ job, (job.tenantId ≠ tenantId ∨
      ∃ other, other ≠ userId ∧ job.payload.get? "userId" = some (.str other)) →
    (job ∈ db'.queue.jobs ↔ job ∈ db.queue.jobs)
  cursors : ∀ row, (row.tenantId ≠ tenantId ∨
      ∃ other, other ≠ userId ∧ row.ownerUserId = some other) →
    (row ∈ db'.connectorState ↔ row ∈ db.connectorState)

variable {dialect : Dialect} {digest sha256 : String → String} {s : PrivacyRun} {db db' : Database}
  {staged : List StageCall} {tenantId userId operationId : String} {now : ℤ}
  {result : AccountErasureResult}

theorem EvidenceInv.soleEvidence_iff (h : EvidenceInv digest sha256 db staged)
    {v : SourceVersionRow} (hv : v ∈ db.sourceVersions) :
    Database.SoleEvidence db tenantId userId v ↔ LastContributor db tenantId userId v ∧
      ∀ r ∈ db.sources, r.id = v.sourceId → r.sourceType.isPrivate := by
  obtain ⟨r, hr, hrv, hrt, -⟩ := h.origin v hv
  constructor
  · intro hsole
    refine ⟨⟨hsole.tenant, hsole.linked, hsole.sole⟩, fun r' hr' hr'v => ?_⟩
    obtain ⟨p, hp, hpv, -, hprivate⟩ := hsole.source
    rw [Table.eq_of_key_eq h.sourceIds hr' hp (hr'v.trans hpv.symm)]
    exact hprivate
  · rintro ⟨⟨htenant, hlinked, hlast⟩, hprivate⟩
    exact ⟨htenant, ⟨r, hr, hrv, hrt, hprivate r hr hrv⟩, hlinked, hlast⟩

/-- The source of a private version is private. -/
theorem EvidenceInv.private_source (h : EvidenceInv digest sha256 s.db s.staged)
    {v : SourceVersionRow} (hv : v ∈ s.db.sourceVersions)
    (hprivate : PrivateEvidence digest sha256 s v.tenantId v.id) {r : SourceRow}
    (hr : r ∈ s.db.sources) (hrv : r.id = v.sourceId) : r.sourceType.isPrivate := by
  obtain ⟨p, hp, hpv, -, call, hcall, hstages, htype⟩ := h.origin v hv
  rw [Table.eq_of_key_eq h.sourceIds hr hp (hrv.trans hpv.symm), ← htype]
  exact (hprivate call hcall hstages).1

/-- **Existence.**  Private evidence is there exactly while somebody contributes it. -/
theorem EvidenceInv.exists_iff (h : EvidenceInv digest sha256 s.db s.staged) {id : String}
    (hprivate : PrivateEvidence digest sha256 s tenantId id) :
    (∃ v ∈ s.db.sourceVersions, v.tenantId = tenantId ∧ v.id = id) ↔
      ∃ link ∈ s.db.contributors, link.tenantId = tenantId ∧ link.sourceVersionId = id := by
  constructor
  · rintro ⟨v, hv, rfl, rfl⟩
    obtain ⟨r, hr, hrv, -⟩ := h.origin v hv
    exact h.owned v hv r hr hrv (h.private_source hv hprivate hr hrv)
      fun call hcall hstages => (hprivate call hcall hstages).2
  · rintro ⟨link, hlink, rfl, rfl⟩
    obtain ⟨-, v, hv, hid, htenant⟩ := h.links link hlink
    exact ⟨v, hv, htenant, hid⟩

theorem EvidenceInv.not_sole_of_others (h : EvidenceInv digest sha256 db staged)
    {v : SourceVersionRow} (hv : v ∈ db.sourceVersions) (hothers : OfOthers db tenantId userId v) :
    ¬ Database.SoleEvidence db tenantId userId v := by
  intro hsole
  obtain ⟨⟨htenant, hlinked, hlast⟩, -⟩ := (h.soleEvidence_iff hv).mp hsole
  rcases hothers with hother | hnot | ⟨link, hlink, hlinkTenant, hversion, huser⟩
  · exact hother htenant
  · exact hnot hlinked
  · exact huser (hlast link hlink hlinkTenant hversion)

/-- **Deletion**, by an erasure that returns. -/
theorem EvidenceInv.deletesOwn (h : EvidenceInv digest sha256 s.db s.staged)
    (he : Database.Erased dialect digest s.db tenantId userId operationId now db') :
    DeletesOwn digest sha256 s tenantId userId db' := by
  constructor
  case last =>
    intro v hv hprivate
    rw [he.versions.2 v, h.soleEvidence_iff hv]
    constructor
    · intro hgone
      by_contra hlast
      exact hgone ⟨hv, fun hsole => hlast hsole.1⟩
    · rintro hlast ⟨-, hkept⟩
      exact hkept ⟨hlast, fun r hr hrv => h.private_source hv hprivate hr hrv⟩
  case claims =>
    intro claim hclaim
    rw [he.claims claim]
    obtain ⟨v, hv, hid⟩ := h.claims claim hclaim
    constructor
    · rintro ⟨-, hkept⟩
      exact ⟨v, (he.versions.2 v).mpr ⟨hv, hkept v hv hid⟩, hid⟩
    · rintro ⟨w, hw, hwid⟩
      obtain ⟨hwold, hkept⟩ := (he.versions.2 w).mp hw
      refine ⟨hclaim, fun u hu huid => ?_⟩
      rw [Table.eq_of_key_eq h.versionIds hu hwold (huid.trans hwid.symm)]
      exact hkept
  case published =>
    intro v hv r hr hrv hpublic
    refine (he.versions.2 v).mpr ⟨hv, fun hsole => hpublic ?_⟩
    exact ((h.soleEvidence_iff hv).mp hsole).2 r hr hrv

/-- **Frame**, of an erasure that returns. -/
theorem Inv.leavesOthers (hhex : HexDigest digest) (h : Inv digest sha256 s)
    (hmember : s.db.isMember tenantId userId)
    (he : Database.Erased dialect digest s.db tenantId userId operationId now db') :
    LeavesOthers s.db tenantId userId db' := by
  -- what a member of another tenant owns there keeps the identity alive
  have hstays : ∀ t u, s.db.isMember t u → ¬ (t = tenantId ∧ u = userId) → u = userId →
      Database.Stays db' userId := by
    rintro t u hm hother rfl
    exact ⟨⟨t, u⟩, (he.memberships _).mpr ⟨Database.isMember_iff.mp hm, hother⟩, rfl⟩
  constructor
  case contributors =>
    intro link hother
    rw [he.contributors link]
    refine ⟨fun hin => hin.1, fun hin => ⟨hin, hother, fun v hv hid hsole => ?_⟩⟩
    obtain ⟨-, w, hw, hwid, hwtenant⟩ := h.evidence.links link hin
    obtain rfl : w = v := Table.eq_of_key_eq h.evidence.versionIds hw hv (hwid.trans hid.symm)
    have htenant : link.tenantId = tenantId := hwtenant.symm.trans hsole.tenant
    exact hother ⟨htenant, hsole.sole link hin htenant hid.symm⟩
  case versions =>
    intro v hothers
    rw [he.versions.2 v]
    exact ⟨fun hin => hin.1, fun hin => ⟨hin, h.evidence.not_sole_of_others hin hothers⟩⟩
  case claims =>
    intro v hv hothers claim hclaim
    rw [he.claims claim]
    refine ⟨fun hin => hin.1, fun hin => ⟨hin, fun w hw hwid => ?_⟩⟩
    obtain rfl : w = v := Table.eq_of_key_eq h.evidence.versionIds hw hv (hwid.trans hclaim)
    exact h.evidence.not_sole_of_others hv hothers
  case credentials =>
    intro row hother
    rw [he.credentials row]
    exact ⟨fun hin => hin.1, fun hin =>
      ⟨hin, hother, hstays _ _ (h.accounts.credentials row hin) hother⟩⟩
  case sessions =>
    intro row hother
    rw [he.sessions row]
    exact ⟨fun hin => hin.1, fun hin =>
      ⟨hin, hother, hstays _ _ (h.accounts.sessions row hin) hother⟩⟩
  case jobs =>
    intro job hothers
    rw [he.jobs job]
    constructor
    · rintro (⟨hin, -⟩ | ⟨v, -, -, rfl⟩)
      · exact hin
      · -- a reconciliation is of the tenant, and its payload names no user
        rcases hothers with hother | ⟨other, -, hpayload⟩
        · exact absurd rfl hother
        · cases hpayload
    · intro hin
      refine .inl ⟨hin, ?_⟩
      rintro ⟨htenant, hmine⟩
      rcases hothers with hother | ⟨other, hother, hpayload⟩
      · exact hother htenant
      · exact hother (Dialect.isUsersPayload_str hpayload hmine)
  case cursors =>
    intro row hothers
    rw [he.connectorState row]
    refine ⟨fun hin => hin.1, fun hin => ⟨hin, ?_⟩⟩
    rintro ⟨htenant, hmine⟩
    rcases hothers with hother | ⟨other, hother, howner⟩
    · exact hother htenant
    · rcases hmine with hscope | hmine
      · obtain ⟨hownerMember, group, hgroup⟩ := h.accounts.cursors row hin other howner
        obtain ⟨owner, rfl⟩ : ∃ owner, other = RecruitingOs.userId digest owner :=
          h.accounts.members _ (Database.isMember_iff.mp hownerMember)
        obtain ⟨user, rfl⟩ : ∃ user, userId = RecruitingOs.userId digest user :=
          h.accounts.members _ (Database.isMember_iff.mp hmember)
        rw [hgroup] at hscope
        exact hother (hhex.isUsersScope hscope)
      · exact hother (Option.some.inj (howner.symm.trans hmine))

/-! ### Every reachable state -/

theorem DeletesOwn.unchanged (h : EvidenceInv digest sha256 s.db s.staged)
    (hmember : s.db.isMember tenantId userId = false) :
    DeletesOwn digest sha256 s tenantId userId s.db where
  last v hv _ := by
    constructor
    · intro hgone
      exact absurd hv hgone
    · rintro ⟨-, hlinked, -⟩
      obtain ⟨hlinkMember, -⟩ := h.links _ hlinked
      rw [hmember] at hlinkMember
      cases hlinkMember
  claims claim hclaim := ⟨fun _ => h.claims claim hclaim, fun _ => hclaim⟩
  published v hv _ _ _ _ := hv

theorem LeavesOthers.unchanged : LeavesOthers db tenantId userId db where
  contributors _ _ := Iff.rfl
  versions _ _ := Iff.rfl
  claims _ _ _ _ _ := Iff.rfl
  credentials _ _ := Iff.rfl
  sessions _ _ := Iff.rfl
  jobs _ _ := Iff.rfl
  cursors _ _ := Iff.rfl

/-- **Evidence ownership.**  In every state that members reach by any sequence of calls,
private evidence that was only ever staged with contributors is there, with its claims,
exactly while somebody contributes it; and an erasure that returns deletes exactly the
private evidence of which the user is the last contributor, no public version, and
nothing of other users and tenants. -/
theorem evidence_owned (hhex : HexDigest digest) (h : Reached dialect digest sha256 s) :
    (∀ tenantId id, PrivateEvidence digest sha256 s tenantId id →
      ((∃ v ∈ s.db.sourceVersions, v.tenantId = tenantId ∧ v.id = id) ↔
        ∃ link ∈ s.db.contributors, link.tenantId = tenantId ∧ link.sourceVersionId = id)) ∧
    (∀ claim ∈ s.db.claims, ∃ v ∈ s.db.sourceVersions, v.id = claim.sourceItemId) ∧
    ∀ tenantId userId operationId now db' result,
      s.db.eraseAccount dialect digest tenantId userId operationId now = .ok (db', result) →
        DeletesOwn digest sha256 s tenantId userId db' ∧
          LeavesOthers s.db tenantId userId db' := by
  have hinv := h.inv
  refine ⟨fun tenantId id => hinv.evidence.exists_iff, hinv.evidence.claims, ?_⟩
  intro tenantId userId operationId now db' result herase
  cases hmember : s.db.isMember tenantId userId with
  | false =>
      rw [Database.eraseAccount_not_member hmember] at herase
      cases herase
      exact ⟨.unchanged hinv.evidence hmember, .unchanged⟩
  | true =>
      have he := Database.eraseAccount_ok hinv.evidence.versionIds hmember herase
      exact ⟨hinv.evidence.deletesOwn he, hinv.leavesOthers hhex hmember he⟩

/-! ### Two members share a message -/

/-- Two members have different digests. -/
def demoDigest (value : String) : String :=
  if value = "i:a" then "aaaaaaaaaaaaaaaaaaaaaaaa" else "000000000000000000000000"

theorem demoDigest_hex : HexDigest demoDigest := by
  intro value
  have hall : (demoDigest value).toList.length = 24 ∧
      (demoDigest value).toList.all ("0123456789abcdef".toList.contains ·) := by
    unfold demoDigest
    split <;> decide
  exact ⟨hall.1, fun c hc => by simpa using List.all_eq_true.mp hall.2 c hc⟩

/-- The two members. -/
def memberA : String := RecruitingOs.userId demoDigest ⟨"i", "a"⟩

def memberB : String := RecruitingOs.userId demoDigest ⟨"i", "b"⟩

/-- A private message that a member contributes. -/
def message (contributor : String) : SourceItem where
  id := "m"
  tenantId := none
  contributorUserId := some contributor
  organizationId := "c"
  sourceType := .gmail
  externalId := none
  url := none
  title := none
  rawText := ""
  media := []
  publishedAt := none
  fetchedAt := ""
  metadata := none

/-- Both members contribute the message, and the first of them leaves. -/
def shared : List PrivacyStep :=
  [.upsertOrganization ⟨"t", "c"⟩, .signIn ⟨"i", "a"⟩ "t", .signIn ⟨"i", "b"⟩ "t",
    .stageSource (message memberA) "t",
    .stageSource (message memberB) "t",
    .eraseAccount "t" memberA "1" 0]

/-- The message stays with the second. -/
theorem evidence_owned_shared :
    ∃ s, Transition.exec (step .sqlite demoDigest fun _ => "") start shared = some s ∧
      ((∃ v ∈ s.db.sourceVersions, v.tenantId = "t" ∧ v.id = "srcv_000000000000000000000000") ↔
        ∃ link ∈ s.db.contributors, link.tenantId = "t" ∧
          link.sourceVersionId = "srcv_000000000000000000000000") ∧
      s.db.contributors.map ContributorRow.userId = [memberB] := by
  obtain ⟨s, hs⟩ : ∃ s, Transition.exec (step .sqlite demoDigest fun _ => "") start shared =
      some s := ⟨_, rfl⟩
  have hreached : Reached .sqlite demoDigest (fun _ => "") s :=
    Transition.Reachable.of_exec (.start rfl) hs
  have hprivate : PrivateEvidence demoDigest (fun _ => "") s "t" "srcv_000000000000000000000000" := by
    intro call hcall _
    have hstaged : s.staged = [⟨"t", message memberB⟩, ⟨"t", message memberA⟩] := by
      cases hs
      rfl
    rw [hstaged] at hcall
    simp only [List.mem_cons, List.not_mem_nil, or_false] at hcall
    rcases hcall with rfl | rfl
    · exact ⟨rfl, rfl⟩
    · exact ⟨rfl, rfl⟩
  refine ⟨s, hs, (evidence_owned demoDigest_hex hreached).1 _ _ hprivate, ?_⟩
  cases hs
  decide

end PrivacyRun

end RecruitingOs
