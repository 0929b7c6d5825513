import RecruitingOs.Privacy.Commit

/-!
# What an erasure leaves of the user id

An erasure finds the rows of the user by columns: the user of a link, a session, a
credential, the owner or the scope of a cursor, the `userId` of a payload.  The id also
stands inside texts, above all in idempotency keys: in those of recurring syncs, whose
payload the retention replaces, and in those of the reconciliations that the erasure
itself inserts.  `eraseAccount_traceless_iff` says when nothing is left.
-/

namespace RecruitingOs

/-- The id stands in the payload or in the key of the job. -/
def JobRow.mentions (job : JobRow) (userId : String) : Bool :=
  includes job.payload.stringify userId ∨ includes job.idempotencyKey userId

/-- The id stands in a column of the cursor. -/
def ConnectorStateRow.mentions (row : ConnectorStateRow) (userId : String) : Bool :=
  row.ownerUserId = some userId ∨ includes row.scope userId ∨
    row.cursor.any (includes · userId) ∨ includes row.metadata.stringify userId

namespace Database

/-- No row of the tenant has the user id. -/
structure Traceless (db : Database) (tenantId userId : String) : Prop where
  memberships : ∀ m ∈ db.memberships, m.tenantId = tenantId → m.userId ≠ userId
  credentials : ∀ row ∈ db.credentials, row.tenantId = tenantId → row.userId ≠ userId
  sessions : ∀ row ∈ db.sessions, row.tenantId = tenantId → row.userId ≠ userId
  contributors : ∀ link ∈ db.contributors, link.tenantId = tenantId → link.userId ≠ userId
  connectorState : ∀ row ∈ db.connectorState, row.tenantId = tenantId → ¬ row.mentions userId
  jobs : ∀ job ∈ db.queue.jobs, job.tenantId = tenantId → ¬ job.mentions userId
  auditEvents : ∀ event ∈ db.auditEvents, event.tenantId = tenantId →
    event.actorId ≠ some userId
  overrides : ∀ row ∈ db.overrides, row.override.tenantId = tenantId →
    row.override.actorId ≠ some userId

/-- Every row of the tenant with the user id in a text is one that an erasure deletes, and
the erasure has no evidence to delete. -/
structure TracesOwned (dialect : Dialect) (db : Database) (tenantId userId : String) : Prop where
  evidence : ∀ v ∈ db.sourceVersions, ¬ SoleEvidence db tenantId userId v
  jobs : ∀ job ∈ db.queue.jobs, job.tenantId = tenantId → job.mentions userId →
    dialect.isUsersPayload userId job.payload
  connectorState : ∀ row ∈ db.connectorState, row.tenantId = tenantId → row.mentions userId →
    isUsersScope dialect userId row.scope ∨ row.ownerUserId = some userId

variable {dialect : Dialect} {digest : String → String} {db db' : Database}
  {tenantId userId operationId : String} {now : ℤ} {result : AccountErasureResult}

/-- What an update has changed no longer has the property that selected it. -/
theorem updateWhere_removes {ρ : Type} {p : ρ → Bool} {f : ρ → ρ} {P : ρ → Prop}
    (hf : ∀ row, ¬ P (f row)) {rows : List ρ} (hp : ∀ row ∈ rows, P row → p row) :
    ∀ row ∈ Table.updateWhere p f rows, ¬ P row := by
  intro row hrow hP
  obtain ⟨old, hold, hsame⟩ := Table.mem_updateWhere.mp hrow
  split at hsame
  · rw [← hsame] at hP
    exact hf old hP
  · rename_i hnot
    rw [← hsame] at hP
    exact hnot (hp old hold hP)

/-- An update that changes no row into one with the property adds none. -/
theorem updateWhere_keeps {ρ : Type} {p : ρ → Bool} {f : ρ → ρ} {P : ρ → Prop}
    (hf : ∀ row, ¬ P (f row)) {rows : List ρ} (hrows : ∀ row ∈ rows, ¬ P row) :
    ∀ row ∈ Table.updateWhere p f rows, ¬ P row :=
  updateWhere_removes hf fun row hrow hP => absurd hP (hrows row hrow)

/-- The actor is taken out of the events and overrides of the tenant. -/
theorem eraseAccount_actors (hmember : db.isMember tenantId userId)
    (h : db.eraseAccount dialect digest tenantId userId operationId now = .ok (db', result)) :
    (∀ event ∈ db'.auditEvents, ¬ (event.tenantId = tenantId ∧ event.actorId = some userId)) ∧
      ∀ row ∈ db'.overrides, ¬ isUsersOverride tenantId userId row := by
  have hswept := eraseAccount_swept hmember h
  obtain ⟨foreign, audit, haudit, hevents⟩ := hswept.auditEvents
  obtain ⟨foreign', hoverrides⟩ := hswept.overrides
  have hevent : ∀ event : AuditEventRow, ¬ ((anonymousEvent event).tenantId = tenantId ∧
      (anonymousEvent event).actorId = some userId) := by
    rintro event ⟨-, hactor⟩
    cases hactor
  have hoverride : ∀ row : OverrideRow,
      ¬ isUsersOverride tenantId userId (anonymousOverride row) := by
    intro row
    simp [isUsersOverride, anonymousOverride]
  rw [hevents, hoverrides]
  constructor
  · intro event hmem
    rcases List.mem_append.mp hmem with hmem | hmem
    · refine updateWhere_keeps (P := fun event : AuditEventRow => event.tenantId = tenantId ∧
        event.actorId = some userId) hevent (updateWhere_removes hevent ?_) event hmem
      intro row _ hmine
      exact decide_eq_true hmine
    · rw [List.mem_singleton.mp hmem, haudit]
      rintro ⟨-, hactor⟩
      cases hactor
  · exact updateWhere_keeps hoverride (updateWhere_removes hoverride fun _ _ hmine => hmine)

/-- The key of a reconciliation names the user. -/
theorem reconcileJob_mentions (org : String) :
    (reconcileJob digest tenantId userId operationId now org).mentions userId := by
  have hkey : (reconcileKey userId operationId org).toList =
      "privacy:".toList ++ userId.toList ++ (":" ++ operationId ++ ":" ++ org).toList := by
    simp only [reconcileKey, String.toList_append, List.append_assoc]
  have hincludes : includes (reconcileKey userId operationId org) userId := by
    rw [includes, decide_eq_true_eq, hkey]
    exact List.infix_append _ _ _
  exact decide_eq_true (.inr hincludes)

/-- **When an erasure leaves no trace.**  On any database whose versions have their primary
key, the erasure of a member that returns has taken the user id out of the tenant exactly
if it stood only in rows that an erasure deletes and no evidence of the user alone had to
be deleted: of the organizations that lose evidence the erasure keeps a job with the id in
its key. -/
theorem eraseAccount_traceless_iff (hn : (db.sourceVersions.map SourceVersionRow.id).Nodup)
    (hmember : db.isMember tenantId userId)
    (h : db.eraseAccount dialect digest tenantId userId operationId now = .ok (db', result)) :
    db'.Traceless tenantId userId ↔ TracesOwned dialect db tenantId userId := by
  have herased := eraseAccount_ok hn hmember h
  obtain ⟨hevents, hoverrides⟩ := eraseAccount_actors hmember h
  constructor
  · intro htraceless
    constructor
    case evidence =>
      intro v hv hsole
      have hjob := (herased.jobs _).mpr (.inr ⟨v, hv, hsole, rfl⟩)
      exact htraceless.jobs _ hjob rfl (reconcileJob_mentions _)
    case jobs =>
      intro job hjob htenant hmentions
      by_contra hother
      have hkept := (herased.jobs job).mpr (.inl ⟨hjob, fun hboth => hother hboth.2⟩)
      exact htraceless.jobs job hkept htenant hmentions
    case connectorState =>
      intro row hrow htenant hmentions
      by_contra hother
      have hkept := (herased.connectorState row).mpr ⟨hrow, fun hboth => hother hboth.2⟩
      exact htraceless.connectorState row hkept htenant hmentions
  · intro howned
    constructor
    case memberships =>
      intro m hm htenant huser
      exact ((herased.memberships m).mp hm).2 ⟨htenant, huser⟩
    case credentials =>
      intro row hrow htenant huser
      exact ((herased.credentials row).mp hrow).2.1 ⟨htenant, huser⟩
    case sessions =>
      intro row hrow htenant huser
      exact ((herased.sessions row).mp hrow).2.1 ⟨htenant, huser⟩
    case contributors =>
      intro link hlink htenant huser
      exact ((herased.contributors link).mp hlink).2.1 ⟨htenant, huser⟩
    case connectorState =>
      intro row hrow htenant hmentions
      obtain ⟨hold, hkept⟩ := (herased.connectorState row).mp hrow
      exact hkept ⟨htenant, howned.connectorState row hold htenant hmentions⟩
    case jobs =>
      intro job hjob htenant hmentions
      rcases (herased.jobs job).mp hjob with ⟨hold, hkept⟩ | ⟨v, hv, hsole, -⟩
      · exact hkept ⟨htenant, howned.jobs job hold htenant hmentions⟩
      · exact howned.evidence v hv hsole
    case auditEvents =>
      intro event hevent htenant hactor
      exact hevents event hevent ⟨htenant, hactor⟩
    case overrides =>
      intro row hrow htenant hactor
      exact hoverrides row hrow (decide_eq_true ⟨htenant, hactor⟩)

/-- A member who has contributed nothing. -/
def newcomer : Database := { Database.empty with memberships := [⟨"t1", "u1"⟩] }

/-- Such a member leaves no trace. -/
theorem eraseAccount_traceless_newcomer :
    ∃ db' result, newcomer.eraseAccount .sqlite (fun _ => "0") "t1" "u1" "op1" 0 =
        .ok (db', result) ∧ db'.Traceless "t1" "u1" := by
  obtain ⟨out, hout⟩ : ∃ out, newcomer.eraseAccount .sqlite (fun _ => "0") "t1" "u1" "op1" 0 =
      .ok out := ⟨_, rfl⟩
  obtain ⟨db', result⟩ := out
  have hn : (newcomer.sourceVersions.map SourceVersionRow.id).Nodup := List.nodup_nil
  refine ⟨db', result, hout, (eraseAccount_traceless_iff hn rfl hout).mpr ?_⟩
  constructor
  case evidence => simp [newcomer, Database.empty]
  case jobs => simp [newcomer, Database.empty, Queue.empty]
  case connectorState => simp [newcomer, Database.empty]

end Database

namespace PrivacyRun

/-- Every erasure of a member leaves no trace of the user id. -/
def LeavesNoTrace (dialect : Dialect) (digest sha256 : String → String) : Prop :=
  ∀ s, Reached dialect digest sha256 s → ∀ tenantId userId operationId now db' result,
    s.db.isMember tenantId userId →
      s.db.eraseAccount dialect digest tenantId userId operationId now = .ok (db', result) →
        db'.Traceless tenantId userId

/-- A job that an erasure leaves names the member. -/
def leavesJob (dialect : Dialect) (digest : String → String) (db : Database)
    (tenantId userId operationId : String) (now : ℤ) : Bool :=
  match db.eraseAccount dialect digest tenantId userId operationId now with
  | .ok (db, _) => db.queue.jobs.any fun job => job.tenantId = tenantId ∧ job.mentions userId
  | .error _ => false

/-- A run to an erasure that leaves such a job. -/
theorem not_leavesNoTrace {dialect : Dialect} {digest sha256 : String → String}
    {run : List PrivacyStep} {tenantId userId operationId : String} {now : ℤ}
    (h : (Transition.exec (step dialect digest sha256) start run).any fun s =>
      s.db.isMember tenantId userId ∧
        leavesJob dialect digest s.db tenantId userId operationId now) :
    ¬ LeavesNoTrace dialect digest sha256 := by
  obtain ⟨s, hs, hend⟩ := (Option.any_eq_true _ _).mp h
  obtain ⟨hmember, hjob⟩ := of_decide_eq_true hend
  intro hnone
  unfold leavesJob at hjob
  split at hjob
  · rename_i db' result hok
    obtain ⟨job, hmem, hmentions⟩ := List.any_eq_true.mp hjob
    obtain ⟨htenant, hmentions⟩ := of_decide_eq_true hmentions
    have htraceless := hnone s (Transition.Reachable.of_exec (.start rfl) hs) tenantId userId
      operationId now db' result hmember hok
    exact htraceless.jobs job hmem htenant hmentions
  · cases hjob

/-- A member has contributed a message, alone. -/
def contributed : List PrivacyStep :=
  [.upsertOrganization ⟨"t", "c"⟩, .signIn ⟨"i", "a"⟩ "t", .stageSource (message memberA) "t"]

/-- The erasure of that member queues a reconciliation that names the member. -/
theorem eraseAccount_leaves_trace :
    ¬ LeavesNoTrace .sqlite demoDigest (fun _ => "") ∧
      ¬ LeavesNoTrace .postgres demoDigest (fun _ => "") := by
  have hjob : ∀ dialect, (Transition.exec (step dialect demoDigest fun _ => "") start
      contributed).any fun s =>
        s.db.isMember "t" memberA ∧ leavesJob dialect demoDigest s.db "t" memberA "1" 0 := by
    intro dialect
    cases dialect <;> decide +kernel
  exact ⟨not_leavesNoTrace (hjob .sqlite), not_leavesNoTrace (hjob .postgres)⟩

end PrivacyRun

end RecruitingOs
