import RecruitingOs.Ingest.Atomic

/-!
# Retries of a job whose page has links

An `ingest.url` or `ingest.screenshot` job from the moment its page is committed: the
worker follows the links, dies at any point, the lease runs out, and the job is run again
on the same content until it completes.  A run only follows links if it has processed the
page, and the page has succeeded before the first link is followed; so a run after the
first finds nothing to do and completes the job.  What a crash leaves behind therefore
stays: `links_kept_iff` says that a completed job has kept its links exactly when no crash
left anything behind.
-/

namespace RecruitingOs

/-- Where the job stands: its worker follows links, has returned from `ingest`, is gone
and the job waits for the next run, or has completed the job. -/
inductive JobPhase where
  | following
  | returned
  | waiting
  | completed
deriving Repr, DecidableEq

/-- A job whose page has been committed.  `log` has what its runs have done, each entry
with the number of its run, and `left` the children that a run which died left retryable. -/
structure LinkJob where
  db : Database
  run : ℕ
  log : List (ℕ × LinkEvent)
  left : List (ℕ × String)
  todo : List LinkTask
  phase : JobPhase

/-- Where in a child's `ingest` the worker dies, if it is in one. -/
inductive CrashPoint where
  | betweenTasks
  | staged
  | processing (startedAt : ℤ)
deriving Repr, DecidableEq

/-- What happens to the job. -/
inductive JobStep where
  | answer (answer : LinkAnswer)
  | finish
  | crash (point : CrashPoint)
  | retry (source : SourceItem) (env : DocumentEnv)
  | complete

/-- The version that a call of `ingest` was about, if it got so far. -/
def IngestOutcome.versionId? : IngestOutcome → Option String
  | .notStaged _ => none
  | .unchanged id | .notReady id | .failed id _ | .processed id _ => some id

/-- The version that an event has attempted. -/
def LinkEvent.versionId? : LinkEvent → Option String
  | .fetched _ _ _ => none
  | .ingested _ _ outcome => outcome.versionId?

/-- A link has had a completed attempt: a fetch that failed, or a fetch and an ingest. -/
def Attempted (log : List (ℕ × LinkEvent)) (url : String) : Prop :=
  ∃ fetched ∈ log, ∃ level ok, fetched.2 = .fetched level url ok ∧
    (ok → ∃ ingested ∈ log, ∃ level outcome, ingested.2 = .ingested level url outcome)

theorem Attempted.append {log : List (ℕ × LinkEvent)} {url : String} (h : Attempted log url)
    (more : List (ℕ × LinkEvent)) : Attempted (log ++ more) url := by
  obtain ⟨fetched, hfetched, level, ok, hevent, hingested⟩ := h
  refine ⟨fetched, List.mem_append_left _ hfetched, level, ok, hevent, fun hok => ?_⟩
  obtain ⟨ingested, hmem, hrest⟩ := hingested hok
  exact ⟨ingested, List.mem_append_left _ hmem, hrest⟩

namespace LinkJob

variable (ctx : IngestContext) (parent : SourceItem) (tenantId : String)

/-- The children that the current run has attempted and that are retryable in `db`. -/
def retryableChildren (s : LinkJob) (db : Database) : List (ℕ × String) :=
  (s.log.filter fun entry => entry.1 = s.run).filterMap fun entry =>
    (entry.2.versionId?.filter fun id => db.sourceVersions.any fun v =>
      Database.isVersion tenantId id v ∧ v.status = .retryableFailed).map (Prod.mk s.run)

/-- The page that is being ingested, as the child of `parent`. -/
def child (page : SourceItem) : SourceItem :=
  { page with
    organizationId := parent.organizationId
    contributorUserId := parent.contributorUserId }

/-- The database of a worker that dies there. -/
def interrupted (s : LinkJob) : CrashPoint → Option Database
  | .betweenTasks => some s.db
  | .staged =>
      match s.todo with
      | .ingest _ _ page _ :: _ =>
          match s.db.stageSource ctx.digest ctx.sha256 (child parent page) tenantId with
          | .ok (db, _) => some db
          | .error _ => none
      | _ => none
  | .processing startedAt =>
      match s.todo with
      | .ingest _ _ page _ :: _ =>
          match s.db.stageSource ctx.digest ctx.sha256 (child parent page) tenantId with
          | .ok (db, staged) =>
              match db.markSourceProcessing staged.versionId tenantId startedAt with
              | .ok (db, _) => if staged.shouldProcess then some db else none
              | .error _ => none
          | .error _ => none
      | _ => none

/-- One step of the job.  A retry is about the same content. -/
def step (s : LinkJob) : JobStep → Option LinkJob
  | .answer answer =>
      if s.phase = .following then
        (ctx.follow parent tenantId 2 ⟨s.db, [], s.todo⟩ answer).map fun next =>
          { s with db := next.db, todo := next.todo, log := s.log ++ next.log.map (Prod.mk s.run) }
      else none
  | .finish =>
      if s.phase = .following ∧ s.todo = [] then some { s with phase := .returned } else none
  | .crash point =>
      if s.phase = .following ∨ s.phase = .returned then
        (s.interrupted ctx parent tenantId point).map fun db =>
          { s with
            db := db
            left := s.left ++ s.retryableChildren tenantId db
            todo := []
            phase := .waiting }
      else none
  | .retry source env =>
      if s.phase = .waiting ∧ source.address = parent.address then
        match ctx.document env s.db source tenantId with
        | (db, .processed _ urls) =>
            some { s with
              db := db
              run := s.run + 1
              todo := ctx.tasks ⟨true, true, 2⟩ urls
              phase := .following }
        | (db, outcome) =>
            some { s with
              db := db
              run := s.run + 1
              phase := if outcome.throws then .waiting else .returned }
      else none
  | .complete => if s.phase = .returned then some { s with phase := .completed } else none

/-- The job at the commit of its page. -/
def start (db : Database) (discoveredUrls : List String) : LinkJob where
  db := db
  run := 1
  log := []
  left := []
  todo := ctx.tasks ⟨true, true, 2⟩ discoveredUrls
  phase := .following

/-- The links are not lost: every candidate has been attempted, and every child that an
earlier run has left retryable again by a later one. -/
structure LinksKept (urls : List String) (s : LinkJob) : Prop where
  candidates : ∀ url ∈ candidates ctx.parseUrl urls, Attempted s.log url
  children : ∀ child ∈ s.left, ∃ entry ∈ s.log, child.1 < entry.1 ∧
    entry.2.versionId? = some child.2

/-- Following is on two levels and has an end. -/
def Bounded (s : LinkJob) : Prop :=
  (∀ entry ∈ s.log, entry.2.level = 1 ∨ entry.2.level = 2) ∧ s.log.length ≤ 264

/-- A crash leaves nothing behind: all candidates have been attempted by then, and the run
leaves no child retryable. -/
def Settled (urls : List String) (s : LinkJob) : JobStep → Prop
  | .crash point =>
      (∀ url ∈ RecruitingOs.candidates ctx.parseUrl urls, Attempted s.log url) ∧
        ∀ db, s.interrupted ctx parent tenantId point = some db →
          s.retryableChildren tenantId db = []
  | _ => True

/-! ### What a step can do -/

variable {ctx parent tenantId} {s t : LinkJob} {db db' : Database} {versionId : String}
  {urls : List String}

/-- The page of the job has succeeded. -/
structure PageSucceeded (ctx : IngestContext) (parent : SourceItem) (tenantId : String)
    (db : Database) : Prop where
  settled : db.ClaimsSettled
  page : ∃ v ∈ db.sourceVersions, v.status = .succeeded ∧
    Database.isVersion tenantId (RecruitingOs.versionId ctx.digest ctx.sha256 tenantId parent) v

theorem PageSucceeded.keeps (h : PageSucceeded ctx parent tenantId db)
    (hsettled : db'.ClaimsSettled) (hkeeps : db.KeepsSucceeded db') :
    PageSucceeded ctx parent tenantId db' := by
  obtain ⟨v, hv, hstatus, hid⟩ := h.page
  exact ⟨hsettled, v, hkeeps.versions v hv hstatus, hstatus, hid⟩

theorem PageSucceeded.document {env : DocumentEnv} {source : SourceItem} {outcome : IngestOutcome}
    (h : PageSucceeded ctx parent tenantId db)
    (hrun : ctx.document env db source tenantId = (db', outcome)) :
    PageSucceeded ctx parent tenantId db' := by
  obtain ⟨hsettled, hkeeps, -⟩ := Database.document_spec h.settled hrun
  exact h.keeps hsettled hkeeps

/-- A worker that dies in a child leaves the page as it is. -/
theorem PageSucceeded.interrupted (h : PageSucceeded ctx parent tenantId s.db)
    {point : CrashPoint} (hrun : s.interrupted ctx parent tenantId point = some db) :
    PageSucceeded ctx parent tenantId db := by
  have hstage : ∀ {page : SourceItem} {queued : Database} {staged : StageSourceResult},
      s.db.stageSource ctx.digest ctx.sha256 (child parent page) tenantId = .ok (queued, staged) →
        PageSucceeded ctx parent tenantId queued := by
    intro page queued staged hok
    obtain ⟨hsettled, hkeeps, -⟩ := Database.keeps_stage h.settled hok
    exact h.keeps hsettled hkeeps
  cases point with
  | betweenTasks =>
      cases hrun
      exact h
  | staged =>
      simp only [LinkJob.interrupted] at hrun
      split at hrun
      · split at hrun
        · rename_i hok
          cases hrun
          exact hstage hok
        · cases hrun
      · cases hrun
  | processing startedAt =>
      simp only [LinkJob.interrupted] at hrun
      split at hrun
      · split at hrun
        · rename_i hok
          have hqueued := hstage hok
          split at hrun
          · rename_i hmark
            obtain ⟨hsettled, hkeeps, -⟩ := Database.keeps_markProcessing hqueued.settled hmark
            split at hrun
            · cases hrun
              exact hqueued.keeps hsettled hkeeps
            · cases hrun
          · cases hrun
        · cases hrun
      · cases hrun

/-- Items at one address have one version. -/
theorem versionId_of_address {a b : SourceItem} (h : a.address = b.address) :
    RecruitingOs.versionId ctx.digest ctx.sha256 tenantId a =
      RecruitingOs.versionId ctx.digest ctx.sha256 tenantId b := by
  simp only [SourceItem.address, ContentAddress.mk.injEq] at h
  obtain ⟨horg, htype, hidentity, hcontent⟩ := h
  rw [RecruitingOs.versionId, RecruitingOs.versionId, sourceId, sourceId, contentHash_eq,
    contentHash_eq, horg, htype, hidentity, hcontent]

/-- **A page that has succeeded is not processed again.** -/
theorem PageSucceeded.not_processed {env : DocumentEnv} {source : SourceItem}
    (h : PageSucceeded ctx parent tenantId db) (hsame : source.address = parent.address)
    (hrun : ctx.document env db source tenantId = (db', .processed versionId urls)) : False := by
  rcases Database.ingestDocument_cases h.settled.versionIds hrun with ⟨e, habsurd, -⟩ |
    ⟨staged, -, -, habsurd⟩ | ⟨queued, staged, _, _, hstage, hprocess, -⟩
  · cases habsurd
  · cases habsurd
  · obtain ⟨hid, versions, row, hversions, hfind, hshould, -⟩ :=
      Database.stageSource_versions hstage
    obtain ⟨v, hv, hstatus, hversion⟩ := h.page
    rw [← versionId_of_address hsame, ← hid] at hversion
    have hrow := Database.isVersion_iff.mp (List.find?_some hfind)
    have hrowMem := List.mem_of_find?_eq_some hfind
    have hids : v.id = row.id := (Database.isVersion_iff.mp hversion).2.trans hrow.2.symm
    rcases hversions with rfl | ⟨hnew, -⟩
    · rw [hshould, ← Table.eq_of_key_eq h.settled.versionIds hv hrowMem hids, hstatus] at hprocess
      cases hprocess
    · exact hnew v hv (Database.isVersion_iff.mp hversion).2

/-- The commit of the page. -/
theorem pageSucceeded_of_processed {env : DocumentEnv} (h : db.ClaimsSettled)
    (hrun : ctx.document env db parent tenantId = (db', .processed versionId urls)) :
    PageSucceeded ctx parent tenantId db' := by
  obtain ⟨hsettled, -, ⟨-, -, habsurd⟩ | ⟨extraction, id, -, hsame, hcommitted, -⟩⟩ :=
    Database.document_spec h hrun
  · rcases habsurd with ⟨e, habsurd⟩ | ⟨id, habsurd⟩ | ⟨id, message, habsurd, -⟩ <;> cases habsurd
  · cases hsame
    obtain ⟨v, hv, hid, htenant, hstatus⟩ := hcommitted.version
    refine ⟨hsettled, v, hv, hstatus, Database.isVersion_iff.mpr ⟨htenant, ?_⟩⟩
    rcases Database.ingestDocument_cases h.versionIds hrun with ⟨e, habsurd, -⟩ |
      ⟨staged, -, -, habsurd⟩ | ⟨queued, staged, _, _, hstage, -, -, -, -, -, hrest⟩
    · cases habsurd
    · cases habsurd
    · rcases hrest with ⟨thrown, habsurd, -⟩ | ⟨extraction, -, hsame, -⟩
      · cases habsurd
      · rw [hid, (IngestOutcome.processed.inj hsame).1]
        exact (Database.stageSource_versions hstage).1

/-- A retry follows no links. -/
theorem retry_eq_some (h : PageSucceeded ctx parent tenantId s.db) {source : SourceItem}
    {env : DocumentEnv} (hs : s.step ctx parent tenantId (.retry source env) = some t) :
    s.phase = .waiting ∧ ∃ outcome : IngestOutcome,
      ctx.document env s.db source tenantId = (t.db, outcome) ∧
        t = { s with
          db := t.db
          run := s.run + 1
          phase := if outcome.throws then .waiting else .returned } := by
  simp only [step] at hs
  split at hs
  · rename_i hretry
    split at hs
    · rename_i hdocument
      exact (h.not_processed hretry.2 hdocument).elim
    · rename_i hdocument
      cases hs
      exact ⟨hretry.1, _, hdocument, rfl⟩
  · cases hs

/-- Each task is logged once. -/
theorem follow_log {maxDepth : ℕ} {s t : LinkRun} {answer : LinkAnswer}
    (h : ctx.follow parent tenantId maxDepth s answer = some t) :
    ∃ event, t.log = s.log ++ [event] := by
  rcases IngestContext.follow_cases h with ⟨level, url, rest, -, rfl⟩ |
    ⟨level, url, rest, page, links, -, rfl⟩ |
    ⟨level, url, rest, page, links, env, more, outcome, -, -, -, hlog, -⟩
  · exact ⟨_, rfl⟩
  · exact ⟨_, rfl⟩
  · exact ⟨_, hlog⟩

/-- **The invariant of the job.**  Its page has succeeded, and what is left to do is
bounded. -/
structure Inv (ctx : IngestContext) (parent : SourceItem) (tenantId : String) (s : LinkJob) :
    Prop where
  page : PageSucceeded ctx parent tenantId s.db
  idle : s.phase ≠ .following → s.todo = []
  shallow : LinkRun.Shallow ⟨s.db, s.log.map Prod.snd, s.todo⟩
  size : s.log.length + LinkRun.weight ⟨s.db, [], s.todo⟩ ≤ 264
  runs : ∀ entry ∈ s.log, entry.1 ≤ s.run

theorem Inv.answer (h : Inv ctx parent tenantId s) {answer : LinkAnswer} {next : LinkRun}
    (hfollowing : s.phase = .following)
    (hs : ctx.follow parent tenantId 2 ⟨s.db, [], s.todo⟩ answer = some next) :
    Inv ctx parent tenantId { s with
      db := next.db, todo := next.todo, log := s.log ++ next.log.map (Prod.mk s.run) } := by
  obtain ⟨event, hlog⟩ := follow_log hs
  obtain ⟨htodo, hevents⟩ := IngestContext.follow_shallow
    (s := ⟨s.db, [], s.todo⟩) ⟨h.shallow.1, fun _ hevent => nomatch hevent⟩ hs
  have hweight := IngestContext.follow_weight hs
  refine ⟨?_, fun habsurd => absurd hfollowing habsurd, ⟨htodo, ?_⟩, ?_, ?_⟩
  · rcases IngestContext.follow_cases hs with ⟨level, url, rest, -, rfl⟩ |
      ⟨level, url, rest, page, links, -, rfl⟩ |
      ⟨level, url, rest, page, links, env, more, outcome, -, -, hdocument, -⟩
    · exact h.page
    · exact h.page
    · exact h.page.document hdocument
  · intro e he
    rw [List.map_append, List.map_map, List.mem_append] at he
    rcases he with he | he
    · exact h.shallow.2 e he
    · obtain ⟨event, hevent, rfl⟩ := List.mem_map.mp he
      exact hevents event hevent
  · have hsize := h.size
    simp only [LinkRun.weight] at hweight hsize ⊢
    simp only [List.length_append, List.length_map, hlog, List.nil_append, List.length_singleton]
    omega
  · intro entry hentry
    rcases List.mem_append.mp hentry with hentry | hentry
    · exact h.runs entry hentry
    · obtain ⟨e, -, rfl⟩ := List.mem_map.mp hentry
      exact le_rfl

/-- A worker that is gone has nothing left to do. -/
theorem Inv.settle (h : Inv ctx parent tenantId s) {phase : JobPhase} {left : List (ℕ × String)}
    (hdb : PageSucceeded ctx parent tenantId db) :
    Inv ctx parent tenantId { s with db := db, left := left, todo := [], phase := phase } := by
  refine ⟨hdb, fun _ => rfl, ⟨by simp, h.shallow.2⟩, ?_, h.runs⟩
  have hsize := h.size
  simp only [LinkRun.weight, List.map_nil, List.sum_nil] at hsize ⊢
  omega

/-- **Each step keeps the invariant.** -/
theorem Inv.step {label : JobStep} (h : Inv ctx parent tenantId s)
    (hs : s.step ctx parent tenantId label = some t) : Inv ctx parent tenantId t := by
  cases label with
  | answer answer =>
      simp only [LinkJob.step] at hs
      split at hs
      · rename_i hfollowing
        obtain ⟨next, hnext, rfl⟩ := Option.map_eq_some_iff.mp hs
        exact h.answer hfollowing hnext
      · cases hs
  | finish =>
      simp only [LinkJob.step] at hs
      split at hs
      · rename_i hdone
        cases hs
        exact ⟨h.page, fun _ => hdone.2, h.shallow, h.size, h.runs⟩
      · cases hs
  | crash point =>
      simp only [LinkJob.step] at hs
      split at hs
      · obtain ⟨db, hdb, rfl⟩ := Option.map_eq_some_iff.mp hs
        exact h.settle (h.page.interrupted hdb)
      · cases hs
  | retry source env =>
      obtain ⟨hwaiting, outcome, hdocument, ht⟩ := retry_eq_some h.page hs
      have hidle : s.todo = [] := h.idle (by rw [hwaiting]; simp)
      rw [ht]
      exact ⟨h.page.document hdocument, fun _ => hidle, h.shallow, h.size,
        fun entry hentry => (h.runs entry hentry).trans (Nat.le_succ _)⟩
  | complete =>
      simp only [LinkJob.step] at hs
      split at hs
      · rename_i hreturned
        cases hs
        exact ⟨h.page, fun _ => h.idle (by rw [hreturned]; simp), h.shallow, h.size, h.runs⟩
      · cases hs

/-- **Once the first run has ended no link is followed.** -/
theorem Inv.frozen {label : JobStep} (h : Inv ctx parent tenantId s) (hended : s.phase ≠ .following)
    (hs : s.step ctx parent tenantId label = some t) :
    t.phase ≠ .following ∧ t.log = s.log ∧ ∀ child ∈ s.left, child ∈ t.left := by
  cases label with
  | answer answer =>
      simp only [LinkJob.step, if_neg hended] at hs
      cases hs
  | finish =>
      simp only [LinkJob.step] at hs
      split at hs
      · rename_i hdone
        exact absurd hdone.1 hended
      · cases hs
  | crash point =>
      simp only [LinkJob.step] at hs
      split at hs
      · obtain ⟨db, -, rfl⟩ := Option.map_eq_some_iff.mp hs
        exact ⟨by simp, rfl, fun child hchild => List.mem_append_left _ hchild⟩
      · cases hs
  | retry source env =>
      obtain ⟨-, outcome, -, ht⟩ := retry_eq_some h.page hs
      rw [ht]
      refine ⟨?_, rfl, fun _ hchild => hchild⟩
      show (if outcome.throws then JobPhase.waiting else .returned) ≠ .following
      split <;> simp
  | complete =>
      simp only [LinkJob.step] at hs
      split at hs
      · cases hs
        exact ⟨by simp, rfl, fun _ hchild => hchild⟩
      · cases hs

/-! ### Links that are not lost -/

/-- A link still has a task: to fetch its page, or to ingest the page that was fetched. -/
def Pending (s : LinkJob) (url : String) : Prop :=
  (∃ level, LinkTask.fetch level url ∈ s.todo) ∨
    ∃ level page links, LinkTask.ingest level url page links ∈ s.todo ∧
      ∃ entry ∈ s.log, ∃ level, entry.2 = .fetched level url true

/-- A task that is answered was not in vain: its link has been attempted, or is pending. -/
theorem attempted_or_pending_answer {answer : LinkAnswer} {next : LinkRun} {url : String}
    (hs : ctx.follow parent tenantId 2 ⟨s.db, [], s.todo⟩ answer = some next)
    (h : Attempted s.log url ∨ s.Pending url) :
    Attempted (s.log ++ next.log.map (Prod.mk s.run)) url ∨
      Pending { s with
        db := next.db, todo := next.todo, log := s.log ++ next.log.map (Prod.mk s.run) } url := by
  rcases h with h | h
  · exact .inl (h.append _)
  rcases IngestContext.follow_cases hs with ⟨level, first, rest, htodo, rfl⟩ |
    ⟨level, first, rest, page, links, htodo, rfl⟩ |
    ⟨level, first, rest, page, links, env, more, outcome, htodo, -, -, hlog, hmore, -⟩
  all_goals
    replace htodo : s.todo = _ := htodo
    unfold Pending at h
    rw [htodo] at h
  · -- the fetch of the first link has failed
    rcases h with ⟨l, hmem⟩ | ⟨l, page, links, hmem, entry, hentry, hfetched⟩
    · rcases List.mem_cons.mp hmem with heq | hrest
      · obtain ⟨rfl, rfl⟩ := LinkTask.fetch.inj heq
        exact .inl ⟨(s.run, .fetched l url false), by simp, l, false, rfl, nofun⟩
      · exact .inr (.inl ⟨l, hrest⟩)
    · rcases List.mem_cons.mp hmem with heq | hrest
      · cases heq
      · exact .inr (.inr ⟨l, page, links, hrest, entry, List.mem_append_left _ hentry, hfetched⟩)
  · -- its page is to be ingested
    rcases h with ⟨l, hmem⟩ | ⟨l, page', links', hmem, entry, hentry, hfetched⟩
    · rcases List.mem_cons.mp hmem with heq | hrest
      · obtain ⟨rfl, rfl⟩ := LinkTask.fetch.inj heq
        exact .inr (.inr ⟨l, page, links, List.mem_cons_self,
          (s.run, .fetched l url true), by simp, l, rfl⟩)
      · exact .inr (.inl ⟨l, List.mem_cons_of_mem _ hrest⟩)
    · rcases List.mem_cons.mp hmem with heq | hrest
      · cases heq
      · exact .inr (.inr ⟨l, page', links', List.mem_cons_of_mem _ hrest, entry,
          List.mem_append_left _ hentry, hfetched⟩)
  · -- its page has been ingested
    have hrest : ∀ task ∈ rest, task ∈ next.todo := fun task htask =>
      hmore ▸ List.mem_append_right _ htask
    rcases h with ⟨l, hmem⟩ | ⟨l, page', links', hmem, entry, hentry, hfetched⟩
    · rcases List.mem_cons.mp hmem with heq | hin
      · cases heq
      · exact .inr (.inl ⟨l, hrest _ hin⟩)
    · rcases List.mem_cons.mp hmem with heq | hin
      · obtain ⟨rfl, rfl, rfl, rfl⟩ := LinkTask.ingest.inj heq
        obtain ⟨fetchLevel, hevent⟩ := hfetched
        refine .inl ⟨entry, List.mem_append_left _ hentry, fetchLevel, true, hevent, fun _ => ?_⟩
        exact ⟨(s.run, .ingested l url outcome), by simp [hlog], l, outcome, rfl⟩
      · exact .inr (.inr ⟨l, page', links', hrest _ hin, entry,
          List.mem_append_left _ hentry, hfetched⟩)

/-- Nothing has been left behind so far. -/
structure NothingLeft (ctx : IngestContext) (parent : SourceItem) (tenantId : String)
    (urls : List String) (s : LinkJob) : Prop where
  inv : Inv ctx parent tenantId s
  children : s.left = []
  candidates : ∀ url ∈ RecruitingOs.candidates ctx.parseUrl urls,
    Attempted s.log url ∨ s.Pending url

/-- **A step that leaves nothing behind.** -/
theorem NothingLeft.step {label : JobStep} (h : NothingLeft ctx parent tenantId urls s)
    (hc : s.Settled ctx parent tenantId urls label)
    (hs : s.step ctx parent tenantId label = some t) :
    NothingLeft ctx parent tenantId urls t := by
  have hinv := h.inv.step hs
  cases label with
  | answer answer =>
      simp only [LinkJob.step] at hs
      split at hs
      · obtain ⟨next, hnext, rfl⟩ := Option.map_eq_some_iff.mp hs
        exact ⟨hinv, h.children, fun url hurl =>
          attempted_or_pending_answer hnext (h.candidates url hurl)⟩
      · cases hs
  | finish =>
      simp only [LinkJob.step] at hs
      split at hs
      · cases hs
        exact ⟨hinv, h.children, h.candidates⟩
      · cases hs
  | crash point =>
      simp only [LinkJob.step] at hs
      split at hs
      · obtain ⟨db, hdb, rfl⟩ := Option.map_eq_some_iff.mp hs
        refine ⟨hinv, ?_, fun url hurl => .inl (hc.1 url hurl)⟩
        show s.left ++ s.retryableChildren tenantId db = []
        rw [h.children, hc.2 db hdb, List.nil_append]
      · cases hs
  | retry source env =>
      obtain ⟨-, outcome, -, ht⟩ := retry_eq_some h.inv.page hs
      rw [ht] at hinv ⊢
      exact ⟨hinv, h.children, h.candidates⟩
  | complete =>
      simp only [LinkJob.step] at hs
      split at hs
      · cases hs
        exact ⟨hinv, h.children, h.candidates⟩
      · cases hs

/-- Something has been left behind, and the run that could make up for it is over. -/
def Lost (ctx : IngestContext) (urls : List String) (s : LinkJob) : Prop :=
  s.phase ≠ .following ∧
    ((∃ url ∈ candidates ctx.parseUrl urls, ¬ Attempted s.log url) ∨
      ∃ child ∈ s.left, ∀ entry ∈ s.log, entry.1 ≤ child.1)

theorem Lost.not_kept (h : s.Lost ctx urls) : ¬ s.LinksKept ctx urls := by
  rintro ⟨hcandidates, hchildren⟩
  obtain ⟨-, ⟨url, hurl, hnot⟩ | ⟨child, hchild, hbefore⟩⟩ := h
  · exact hnot (hcandidates url hurl)
  · obtain ⟨entry, hentry, hlater, -⟩ := hchildren child hchild
    exact absurd (hbefore entry hentry) (by omega)

/-- A crash that leaves something behind. -/
theorem Inv.lost {label : JobStep} (h : Inv ctx parent tenantId s)
    (hc : ¬ s.Settled ctx parent tenantId urls label)
    (hs : s.step ctx parent tenantId label = some t) : t.Lost ctx urls := by
  cases label with
  | crash point =>
      simp only [LinkJob.step] at hs
      split at hs
      · obtain ⟨db, hdb, rfl⟩ := Option.map_eq_some_iff.mp hs
        refine ⟨by simp, ?_⟩
        by_cases hall : ∀ url ∈ candidates ctx.parseUrl urls, Attempted s.log url
        · refine .inr ?_
          have hleft : s.retryableChildren tenantId db ≠ [] := by
            intro hnone
            refine hc ⟨hall, fun db' hdb' => ?_⟩
            rw [hdb] at hdb'
            cases hdb'
            exact hnone
          obtain ⟨child, hchild⟩ := List.exists_mem_of_ne_nil _ hleft
          refine ⟨child, List.mem_append_right _ hchild, fun entry hentry => ?_⟩
          obtain ⟨_, -, hmap⟩ := List.mem_filterMap.mp hchild
          obtain ⟨id, -, rfl⟩ := Option.map_eq_some_iff.mp hmap
          exact h.runs entry hentry
        · push Not at hall
          exact .inl hall
      · cases hs
  | answer answer => exact (hc trivial).elim
  | finish => exact (hc trivial).elim
  | retry source env => exact (hc trivial).elim
  | complete => exact (hc trivial).elim

theorem Lost.step {label : JobStep} (h : Inv ctx parent tenantId s) (hlost : s.Lost ctx urls)
    (hs : s.step ctx parent tenantId label = some t) : t.Lost ctx urls := by
  obtain ⟨hended, hleft⟩ := hlost
  obtain ⟨hstill, hlog, hkept⟩ := h.frozen hended hs
  refine ⟨hstill, ?_⟩
  rw [hlog]
  rcases hleft with hleft | ⟨child, hchild, hbefore⟩
  · exact .inl hleft
  · exact .inr ⟨child, hkept child hchild, hbefore⟩

theorem inv_start (h : PageSucceeded ctx parent tenantId db) (urls : List String) :
    Inv ctx parent tenantId (start ctx db urls) := by
  have hempty : Transition.exec (ctx.follow parent tenantId 2)
      ⟨db, [], ctx.tasks ⟨true, true, 2⟩ urls⟩ [] = some ⟨db, [], ctx.tasks ⟨true, true, 2⟩ urls⟩ :=
    rfl
  have hbounded := IngestContext.follow_bounded hempty
  refine ⟨h, fun hnot => absurd rfl hnot, ?_, ?_, by simp [start]⟩
  · exact hbounded.1
  · have hsize := hbounded.2
    rw [List.length_nil] at hsize
    exact hsize

/-- **Links are followed or lost.**  However the links of a committed page answer and
wherever the worker dies, following is on two levels, has at most 264 steps and can always
go on to its end; and a job that completes has kept its links exactly if every crash came
after all candidates had been attempted and left no child retryable. -/
theorem links_kept_iff (h : ctx.Reached db) {env : DocumentEnv}
    (hcommit : ctx.document env db parent tenantId = (db', .processed versionId urls))
    {run : List JobStep}
    (hrun : Transition.exec (step ctx parent tenantId) (start ctx db' urls) run = some t) :
    t.Bounded ∧
      (t.phase = .following → (∃ answer, (t.step ctx parent tenantId (.answer answer)).isSome) ∨
        (t.step ctx parent tenantId .finish).isSome) ∧
      (t.phase = .completed →
        (t.LinksKept ctx urls ↔
          Transition.EveryStep (step ctx parent tenantId) (Settled ctx parent tenantId urls)
            (start ctx db' urls) run)) := by
  have hstart := inv_start (pageSucceeded_of_processed h.settled hcommit) urls
  have hinv : Inv ctx parent tenantId t :=
    Transition.exec_keep (fun _ _ _ hs hstep => hs.step hstep) hstart hrun
  refine ⟨⟨fun entry hentry => hinv.shallow.2 _ (List.mem_map_of_mem hentry), ?_⟩, ?_, ?_⟩
  · have hsize := hinv.size
    omega
  · intro hfollowing
    by_cases htodo : t.todo = []
    · exact .inr (by simp [step, hfollowing, htodo])
    · have henabled : ∃ answer,
          (ctx.follow parent tenantId 2 ⟨t.db, [], t.todo⟩ answer).isSome :=
        IngestContext.follow_enabled htodo env
      obtain ⟨answer, hanswer⟩ := henabled
      refine .inl ⟨answer, ?_⟩
      simpa only [step, if_pos hfollowing, Option.isSome_map] using hanswer
  · intro hcompleted
    constructor
    · intro hkept
      have hlost : ¬ t.Lost ctx urls := fun hlost => hlost.not_kept hkept
      refine Transition.everyStep_of_not_doomed (I := Inv ctx parent tenantId) ?_ ?_ ?_ hstart hrun
        hlost
      · exact fun _ _ _ hs hstep => hs.step hstep
      · exact fun _ _ _ hs hc hstep => hs.lost hc hstep
      · exact fun _ _ _ hs hlost hstep => hlost.step hs hstep
    · intro hsettled
      have hnothing : NothingLeft ctx parent tenantId urls (start ctx db' urls) := by
        refine ⟨hstart, rfl, fun url hurl => .inr (.inl ⟨1, ?_⟩)⟩
        simp only [start, IngestContext.tasks]
        exact List.mem_map_of_mem hurl
      obtain ⟨-, hchildren, hcandidates⟩ := (Transition.everyState_of_everyStep
        (fun _ _ _ hs hc hstep => hs.step hc hstep) hnothing hsettled).exec hrun
      have hidle : t.todo = [] := hinv.idle (by rw [hcompleted]; simp)
      refine ⟨fun url hurl => ?_, by simp [hchildren]⟩
      rcases hcandidates url hurl with hattempted | ⟨level, hpending⟩ | ⟨level, page, links, hpending, -⟩
      · exact hattempted
      all_goals
        rw [hidle] at hpending
        cases hpending

/-- The page of a club that has one link. -/
def clubPage : SourceItem := StageRun.page "Applications close on 10 September."

/-- The database before it is ingested. -/
def clubDatabase : Database := { Database.empty with organizations := [⟨"t1", "club"⟩] }

/-- The job of the page, at its commit. -/
def clubStart : LinkJob :=
  start IngestContext.clubContext
    (IngestContext.clubContext.document IngestContext.openEnv clubDatabase clubPage "t1").1
    ["https://club.example/apply"]

/-- The worker dies behind the commit, and the job is run again. -/
def clubRun : List JobStep :=
  [.crash .betweenTasks, .retry clubPage IngestContext.openEnv, .complete]

theorem clubCommit :
    IngestContext.clubContext.document IngestContext.openEnv clubDatabase clubPage "t1" =
      ((IngestContext.clubContext.document IngestContext.openEnv clubDatabase clubPage "t1").1,
        .processed "srcv_5ccba9f7e39f9d5820eb6b7c" ["https://club.example/apply"]) := by
  have houtcome :
      (IngestContext.clubContext.document IngestContext.openEnv clubDatabase clubPage "t1").2 =
        .processed "srcv_5ccba9f7e39f9d5820eb6b7c" ["https://club.example/apply"] := by
    decide +kernel
  rw [← houtcome]

theorem clubRun_completes :
    ∃ t, Transition.exec (step IngestContext.clubContext clubPage "t1") clubStart clubRun = some t ∧
      t.phase = .completed ∧ t.log = [] := by
  have hrun : (Transition.exec (step IngestContext.clubContext clubPage "t1") clubStart
      clubRun).any fun t => t.phase = .completed ∧ t.log = [] := by
    decide +kernel
  obtain ⟨t, ht, hend⟩ := (Option.any_eq_true _ _).mp hrun
  exact ⟨t, ht, of_decide_eq_true hend⟩

/-- The job completes, and nobody has ever fetched the only link of its page. -/
theorem links_lost :
    IngestContext.clubContext.Reached clubDatabase ∧
    (IngestContext.clubContext.document IngestContext.openEnv clubDatabase clubPage "t1").2 =
      .processed "srcv_5ccba9f7e39f9d5820eb6b7c" ["https://club.example/apply"] ∧
    ∃ t, Transition.exec (step IngestContext.clubContext clubPage "t1") clubStart clubRun = some t ∧
      t.phase = .completed ∧
      ¬ t.LinksKept IngestContext.clubContext ["https://club.example/apply"] := by
  obtain ⟨t, ht, hcompleted, hlog⟩ := clubRun_completes
  refine ⟨.start ⟨rfl, rfl⟩, congrArg Prod.snd clubCommit, t, ht, hcompleted, fun hkept => ?_⟩
  have hcandidate : "https://club.example/apply" ∈ candidates IngestContext.clubContext.parseUrl
      ["https://club.example/apply"] := by
    decide +kernel
  obtain ⟨fetched, hfetched, -⟩ := hkept.candidates _ hcandidate
  rw [hlog] at hfetched
  cases hfetched

/-- The same run, read through the theorem: its crash left something behind. -/
theorem links_kept_iff_page :
    ∃ t, Transition.exec (step IngestContext.clubContext clubPage "t1") clubStart clubRun = some t ∧
      (t.LinksKept IngestContext.clubContext ["https://club.example/apply"] ↔
        Transition.EveryStep (step IngestContext.clubContext clubPage "t1")
          (Settled IngestContext.clubContext clubPage "t1" ["https://club.example/apply"])
          clubStart clubRun) := by
  obtain ⟨t, ht, hcompleted, -⟩ := clubRun_completes
  have hreach : IngestContext.clubContext.Reached clubDatabase := .start ⟨rfl, rfl⟩
  exact ⟨t, ht, (links_kept_iff hreach clubCommit ht).2.2 hcompleted⟩

end LinkJob

end RecruitingOs
