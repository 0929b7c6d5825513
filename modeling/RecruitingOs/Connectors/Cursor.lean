import RecruitingOs.Connectors.Sync
import RecruitingOs.Ingest.Ownership

/-!
# The connector cursor and what is staged

The promise of a cursor is that everything at or before it is safe: a retry starts
there and never sees those messages again.  The connectors persist it before the first
of the messages that they return is staged, so the promise is kept only by
synchronizations that bring nothing new.

`covered_iff_staged_before` says so for every run: messages that are staged stay staged
(`step_keeps_staged`), and a synchronization that completes puts its whole batch at or
before the cursor at once (`documented_covers`).
-/

namespace RecruitingOs

/-- The version of a source is there: its `stageSource` has committed. -/
def Database.Staged (sha256 digest : String → String) (db : Database) (tenantId : String)
    (source : SourceItem) : Prop :=
  ∃ row ∈ db.sourceVersions, Database.isVersion tenantId (versionId digest sha256 tenantId source) row

namespace SyncRun

variable {order : String × String × String → FeedOrder} {getTime : Json → Option ℤ}
  {digest sha256 : String → String} {s t : SyncRun}

/-- **The promise of a cursor**: every source that a completed synchronization has
returned and that lies at or before the persisted cursor is staged. -/
def Covered (order : String × String × String → FeedOrder) (digest sha256 : String → String)
    (s : SyncRun) : Prop :=
  ∀ r ∈ s.returned, ∀ cursor,
    s.ingest.db.getConnectorState r.feed.2.1 r.feed.2.2 r.feed.1 = some cursor →
    (order r.feed).message (r.source.externalId.getD "") ≤ (order r.feed).cursor cursor →
    s.ingest.db.Staged sha256 digest r.feed.1 r.source

/-- The condition on a step: a synchronization that can persist its cursor brings only
sources that are staged already. -/
def StagedBefore (digest sha256 : String → String) (s : SyncRun) : SyncStep → Prop
  | .answer j answer now => ∀ job, s.job? j = some job →
      s.ingest.db.isMember job.payload.feed.1 job.payload.userId →
      ∀ source ∈ answer.sources digest job.payload now,
        s.ingest.db.Staged sha256 digest job.payload.feed.1 (owned job.payload source)
  | _ => True

/-! ### What a synchronization persists and returns -/

theorem documented_group {feed : FeedOrder} {payload : SyncPayload} {groupId : String}
    {msgs : List GroupMeMessage} (hprovider : payload.provider = .groupme groupId) :
    SyncAnswer.Documented feed payload (.group msgs) ↔
      ∀ a ∈ msgs, a.id ≠ "" ∧ ∀ b ∈ msgs, a.createdAt ≤ b.createdAt →
        feed.message (groupId ++ ":" ++ a.id) ≤ feed.cursor b.id := by
  obtain ⟨tenantId, userId, organizationId, provider⟩ := payload
  cases hprovider
  exact Iff.rfl

/-- The sources of a documented answer lie at or before the cursor that is persisted. -/
theorem documented_covers {feed : FeedOrder} {payload : SyncPayload} (cursor : Option String)
    {answer : SyncAnswer} {now : ℕ → ℤ} (hdoc : answer.Documented feed payload)
    {source : SourceItem} (hsource : source ∈ answer.sources digest payload now) :
    ∃ new, answer.newCursor cursor = some new ∧ new ≠ "" ∧
      feed.message (source.externalId.getD "") ≤ feed.cursor new := by
  cases answer with
  | history records historyId message =>
      obtain ⟨current, rfl, hcurrent, hplaces⟩ := hdoc
      obtain ⟨⟨id, i⟩, hid, rfl⟩ := List.mem_map.mp hsource
      exact ⟨current, rfl, hcurrent, hplaces id (List.fst_mem_of_mem_zipIdx hid)⟩
  | listing messages historyId =>
      obtain ⟨hcurrent, hplaces⟩ := hdoc
      obtain ⟨⟨msg, i⟩, hmsg, rfl⟩ := List.mem_map.mp hsource
      exact ⟨historyId, rfl, hcurrent, hplaces msg (List.fst_mem_of_mem_zipIdx hmsg)⟩
  | group msgs =>
      obtain ⟨tenantId, userId, organizationId, provider⟩ := payload
      cases provider with
      | gmail => cases hsource
      | groupme groupId =>
          rw [documented_group rfl] at hdoc
          obtain ⟨⟨m, i⟩, hm, rfl⟩ := List.mem_map.mp hsource
          have hsorted : m ∈ GroupMeMessage.sorted msgs := List.fst_mem_of_mem_zipIdx hm
          obtain ⟨last, hlast⟩ : ∃ last, (GroupMeMessage.sorted msgs).getLast? = some last := by
            rw [← Option.isSome_iff_exists, List.getLast?_isSome]
            exact List.ne_nil_of_mem hsorted
          have hmem : last ∈ msgs :=
            GroupMeMessage.mem_sorted.mp (List.mem_of_getLast? hlast)
          have hold : m ∈ msgs := GroupMeMessage.mem_sorted.mp hsorted
          refine ⟨last.id, ?_, (hdoc last hmem).1, ?_⟩
          · show (GroupMeMessage.sorted msgs).getLast?.map GroupMeMessage.id = _
            rw [hlast]
            rfl
          · exact (hdoc m hold).2 last hmem (GroupMeMessage.createdAt_le_last hold hlast)

/-! ### What a step does -/

/-- A synchronization completes: its sources are returned, and its cursor, if it has
one, is persisted for a member. -/
structure Completes (digest : String → String) (s t : SyncRun) (job : SyncJob)
    (cursor : Option String) (answer : SyncAnswer) (now : ℕ → ℤ) : Prop where
  versions : t.ingest.db.sourceVersions = s.ingest.db.sourceVersions
  returned : t.returned = (answer.sources digest job.payload now).map (fun source =>
    ⟨job.payload.feed, owned job.payload source⟩) ++ s.returned
  persisted : ∀ new, answer.newCursor cursor = some new →
    s.ingest.db.isMember job.payload.feed.1 job.payload.userId ∧
      t.ingest.db.getConnectorState job.payload.feed.2.1 job.payload.feed.2.2
        job.payload.feed.1 = (some new).filter (· ≠ "")

/-- The step does not persist a cursor: it answers no synchronization, or the user is
no member any more. -/
def Refused (s : SyncRun) : SyncStep → Prop
  | .answer j _ _ => ∀ job, s.job? j = some job →
      s.ingest.db.isMember job.payload.feed.1 job.payload.userId = false
  | _ => True

/-- **What a step can do** to the ingest calls and to what has been returned. -/
theorem step_cases (h : s.ingest.OwnInv) {label : SyncStep}
    (hs : s.step getTime digest sha256 label = some t) :
    t.ingest.OwnInv ∧
      (∀ tenantId id, (∃ row ∈ s.ingest.db.sourceVersions, Database.isVersion tenantId id row) →
        ∃ row ∈ t.ingest.db.sourceVersions, Database.isVersion tenantId id row) ∧
      (t.returned = s.returned ∧ Refused s label ∨
        ∃ j answer now job cursor, label = .answer j answer now ∧ s.job? j = some job ∧
          Completes digest s t job cursor answer now) := by
  cases label with
  | start j payload =>
      simp only [step] at hs
      split at hs
      · cases hs
      · cases hs
        exact ⟨h, fun _ _ hrow => hrow, .inl ⟨rfl, trivial⟩⟩
  | answer j answer now =>
      simp only [step] at hs
      split at hs
      · rename_i payload cursor hjob
        split at hs
        · cases hs
        · split at hs
          · rename_i hnone
            cases hs
            refine ⟨h, fun _ _ hrow => hrow, .inr ⟨j, answer, now, _, cursor, rfl, hjob, rfl, ?_, ?_⟩⟩
            · rw [List.map_map]
              rfl
            · intro new hnew
              rw [hnone] at hnew
              cases hnew
          · rename_i new hnew
            split at hs
            · rename_i hset
              cases hs
              refine ⟨h, fun _ _ hrow => hrow, .inl ⟨rfl, fun job hjob' => ?_⟩⟩
              cases hjob.symm.trans hjob'
              simpa using Database.setConnectorState_error hset
            · rename_i db hset
              cases hs
              have hread := Database.getConnectorState_setConnectorState hset
              obtain ⟨hmember, rfl⟩ := Database.setConnectorState_ok hset
              refine ⟨⟨h.nodup_call, h.nodup_version, h.version, h.alone⟩, fun _ _ hrow => hrow,
                .inr ⟨j, answer, now, _, cursor, rfl, hjob, rfl, ?_, ?_⟩⟩
              · rw [List.map_map]
                rfl
              · intro new' hnew'
                rw [hnew] at hnew'
                cases hnew'
                refine ⟨by simpa using hmember, ?_⟩
                have hown := hread payload.feed.2.1 payload.feed.2.2 payload.feed.1
                rw [if_pos rfl] at hown
                exact hown
      · cases hs
  | next j c =>
      simp only [step] at hs
      split at hs
      · split at hs
        · cases hs
        · cases hs
          exact ⟨h, fun _ _ hrow => hrow, .inl ⟨rfl, trivial⟩⟩
        · rename_i ingest db result hingest hstage
          cases hs
          exact ⟨h.step hingest, fun _ _ hrow => IngestRun.step_keeps_version h hingest hrow, .inl ⟨rfl, trivial⟩⟩
      · cases hs
  | ingest label =>
      simp only [step] at hs
      obtain ⟨ingest, hingest, rfl⟩ := Option.map_eq_some_iff.mp hs
      exact ⟨h.step hingest, fun _ _ hrow => IngestRun.step_keeps_version h hingest hrow, .inl ⟨rfl, trivial⟩⟩
  | stop j =>
      simp only [step] at hs
      split at hs
      · cases hs
      · cases hs
        exact ⟨h.drop _, fun _ _ hrow => hrow, .inl ⟨rfl, trivial⟩⟩
      · cases hs
        exact ⟨h, fun _ _ hrow => hrow, .inl ⟨rfl, trivial⟩⟩
  | finish j =>
      simp only [step] at hs
      split at hs
      · cases hs
        exact ⟨h, fun _ _ hrow => hrow, .inl ⟨rfl, trivial⟩⟩
      · cases hs

/-! ### Every run -/

/-- All that has been returned is staged. -/
structure StagedInv (digest sha256 : String → String) (s : SyncRun) : Prop where
  ingest : s.ingest.OwnInv
  returned : ∀ r ∈ s.returned, s.ingest.db.Staged sha256 digest r.feed.1 r.source

theorem StagedInv.step (h : StagedInv digest sha256 s) {label : SyncStep}
    (hdoc : DocumentedAnswers order s label) (hbefore : StagedBefore digest sha256 s label)
    (hs : s.step getTime digest sha256 label = some t) : StagedInv digest sha256 t := by
  obtain ⟨hingest, hkeep, ⟨hreturned, -⟩ | ⟨j, answer, now, job, cursor, rfl, hjob, hcompletes⟩⟩ :=
    step_cases h.ingest hs
  · refine ⟨hingest, fun r hr => hkeep _ _ (h.returned r ?_)⟩
    rw [← hreturned]
    exact hr
  · refine ⟨hingest, fun r hr => hkeep _ _ ?_⟩
    rw [hcompletes.returned] at hr
    rcases List.mem_append.mp hr with hnew | hold
    · obtain ⟨source, hsource, rfl⟩ := List.mem_map.mp hnew
      obtain ⟨new, hnew, -, -⟩ := documented_covers cursor (hdoc job hjob) hsource
      exact hbefore job hjob (hcompletes.persisted new hnew).1 source hsource
    · exact h.returned r hold

/-- A synchronization that brings a source that is not staged breaks the promise at once. -/
theorem StagedInv.exact_step (h : StagedInv digest sha256 s) {label : SyncStep}
    (hdoc : DocumentedAnswers order s label) (hs : s.step getTime digest sha256 label = some t)
    (ht : Covered order digest sha256 t) : StagedBefore digest sha256 s label := by
  cases label with
  | answer j answer now =>
      intro job hjob hmember source hsource
      obtain ⟨-, -, ⟨-, hrefused⟩ | ⟨_, _, _, _, cursor, hlabel, hjob', hcompletes⟩⟩ :=
        step_cases h.ingest hs
      · rw [hrefused job hjob] at hmember
        cases hmember
      · cases hlabel
        cases hjob.symm.trans hjob'
        obtain ⟨new, hnew, hnonempty, hplace⟩ :=
          documented_covers cursor (hdoc job hjob) hsource
        have hcursor := (hcompletes.persisted new hnew).2
        rw [Option.filter_some, if_pos (decide_eq_true hnonempty)] at hcursor
        have hmem : (⟨job.payload.feed, owned job.payload source⟩ : ReturnedSource) ∈ t.returned := by
          rw [hcompletes.returned]
          exact List.mem_append_left _ (List.mem_map.mpr ⟨source, hsource, rfl⟩)
        obtain ⟨row, hrow, hid⟩ := ht _ hmem new hcursor hplace
        rw [hcompletes.versions] at hrow
        exact ⟨row, hrow, hid⟩
  | start _ _ | next _ _ | ingest _ | stop _ | finish _ => trivial

/-- No job and no ingest call is at work, and nothing has been returned. -/
structure Quiet (s : SyncRun) : Prop where
  ingest : s.ingest.Quiet
  returned : s.returned = []

theorem Quiet.inv (h : Quiet s) : StagedInv digest sha256 s where
  ingest := h.ingest.inv.1
  returned := by simp [h.returned]

/-- **No update is lost, exactly.**  From any database with nothing at work, a run of
`connector.sync` jobs of documented providers keeps the promise of every cursor in each
of its states if and only if every synchronization that completes brings only sources
that are staged already. -/
theorem covered_iff_staged_before (h : Quiet s) (run : List SyncStep)
    (hdoc : Transition.EveryStep (step getTime digest sha256) (DocumentedAnswers order) s run) :
    Transition.EveryState (step getTime digest sha256) (Covered order digest sha256) s run ↔
      Transition.EveryStep (step getTime digest sha256) (StagedBefore digest sha256) s run :=
  Transition.everyState_iff_everyStep_of (I := StagedInv digest sha256)
    (fun _ _ _ hinv hd hb hs => hinv.step hd hb hs)
    (fun _ hinv r hr _ _ _ => hinv.returned r hr)
    (fun _ _ _ hinv hd hs ht => hinv.exact_step hd hs ht) h.inv hdoc

/-! ### A batch that fails half way -/

/-- A sync of the group `g1`. -/
def groupSync : SyncPayload := ⟨"t1", "u1", "club", .groupme "g1"⟩

/-- Two messages of the group. -/
def firstMessage : GroupMeMessage := ⟨"1", 10, none, some "Hi", some "9", []⟩

def secondMessage : GroupMeMessage := ⟨"20", 11, none, some "Due Friday", some "9", []⟩

/-- A tenant with one organization and one member. -/
def oneMember : SyncRun where
  ingest :=
    { db := { Database.empty with
        organizations := [⟨"t1", "club"⟩], memberships := [⟨"t1", "u1"⟩] }
      calls := []
      returns := [] }
  jobs := []
  returned := []

theorem oneMember_quiet : Quiet oneMember where
  ingest := ⟨rfl, rfl, List.nodup_nil, fun _ hrow => absurd hrow List.not_mem_nil⟩
  returned := rfl

/-- Messages and cursors of the group, in the order of their ids. -/
def groupOrder : FeedOrder where
  message := String.length
  cursor := fun id => id.length + 3

/-- The first message is staged and its ingestion fails; the job is leased again, the
group has nothing new after the cursor, and the job is completed. -/
def halfWay : List SyncStep :=
  [.start 1 groupSync, .answer 1 (.group [firstMessage, secondMessage]) fun _ => 0, .next 1 10,
    .ingest (.process 10 0), .ingest (.throw 10 "timeout"), .ingest (.markFailed 10 1),
    .start 2 groupSync, .answer 2 (.group []) fun _ => 0, .finish 2]

theorem halfWay_documented :
    Transition.EveryStep (step (fun _ => none) id (fun _ => "0"))
      (DocumentedAnswers fun _ => groupOrder) oneMember halfWay := by
  refine fun t ht => ⟨trivial, ?_⟩
  cases ht
  refine fun t ht => ⟨?_, ?_⟩
  · intro job hjob
    cases hjob
    exact (documented_group rfl).mpr (by decide)
  cases ht
  iterate 5
    refine fun t ht => ⟨trivial, ?_⟩
    cases ht
  refine fun t ht => ⟨?_, ?_⟩
  · intro job hjob
    cases hjob
    exact (documented_group rfl).mpr (by decide)
  cases ht
  exact fun t ht => ⟨trivial, trivial⟩

/-- After `halfWay` nothing is at work any more, and the second message, which lies at
the cursor, is not staged. -/
theorem halfWay_not_covered :
    ¬ ∀ s : SyncRun, Quiet s → ∀ run,
      Transition.EveryStep (step (fun _ => none) id (fun _ => "0"))
        (DocumentedAnswers fun _ => groupOrder) s run →
      Transition.EveryState (step (fun _ => none) id (fun _ => "0"))
        (Covered (fun _ => groupOrder) id fun _ => "0") s run := by
  intro h
  obtain ⟨t, ht⟩ : ∃ t, Transition.exec (step (fun _ => none) id (fun _ => "0")) oneMember
      halfWay = some t := ⟨_, rfl⟩
  have hcovered := (h oneMember oneMember_quiet halfWay halfWay_documented).exec ht
  cases ht
  obtain ⟨row, hrow, hid⟩ := hcovered
    ⟨groupSync.feed, owned groupSync (secondMessage.toSource id "club" "g1" 0)⟩
    (by decide) "20" (by decide) (by decide)
  rw [List.mem_singleton.mp hrow] at hid
  revert hid
  decide

/-- A synchronization that brings only a message that another upload has staged. -/
def nothingNew : List SyncStep :=
  [.ingest (.stage 10 (owned groupSync (firstMessage.toSource id "club" "g1" 0)) "t1"),
    .start 1 groupSync, .answer 1 (.group [firstMessage]) fun _ => 0]

theorem covered_iff_staged_before_nothingNew :
    Transition.EveryState (step (fun _ => none) id (fun _ => "0"))
      (Covered (fun _ => groupOrder) id fun _ => "0") oneMember nothingNew := by
  have hdoc : Transition.EveryStep (step (fun _ => none) id (fun _ => "0"))
      (DocumentedAnswers fun _ => groupOrder) oneMember nothingNew := by
    refine fun t ht => ⟨trivial, ?_⟩
    cases ht
    refine fun t ht => ⟨trivial, ?_⟩
    cases ht
    refine fun t ht => ⟨?_, trivial⟩
    intro job hjob
    cases hjob
    exact (documented_group rfl).mpr (by decide)
  rw [covered_iff_staged_before oneMember_quiet nothingNew hdoc]
  refine fun t ht => ⟨trivial, ?_⟩
  cases ht
  refine fun t ht => ⟨trivial, ?_⟩
  cases ht
  refine fun t ht => ⟨?_, trivial⟩
  intro job hjob _ source hsource
  cases hjob
  rw [List.mem_singleton.mp hsource]
  exact ⟨_, List.mem_cons_self, by decide⟩

end SyncRun

end RecruitingOs
