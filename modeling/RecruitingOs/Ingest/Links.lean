import RecruitingOs.Ingest.Document

/-!
# Following links

The end of `IngestionService.ingest`: the pages behind a processed document's links are
fetched and ingested, and so are the links of a link-in-bio page.  What is left to do is
a list of tasks that only the process has (`LinkRun.todo`); `LinkAnswer` is what the
network and the extractor answer.  An error of a child is swallowed.

`follow_bounded` says that this ends, whatever is answered, and that it never goes beyond
the second level.
-/

namespace RecruitingOs

/-- `UrlKind`. -/
inductive UrlKind where
  | application
  | bioLink
  | groupme
  | instagram
  | linkedin
  | heelLife
  | website
  | unknown
deriving Repr, DecidableEq

/-- The parts of a `URL` that are read. -/
structure ParsedUrl where
  protocol : String
  hostname : String
  pathname : String
deriving Repr, DecidableEq

/-- `classifyUrl(raw)`; `parseUrl` is `new URL(raw)`, `none` where it throws. -/
def classifyUrl (parseUrl : String → Option ParsedUrl) (raw : String) : UrlKind :=
  match parseUrl raw with
  | none => .unknown
  | some url =>
      let host := url.hostname.toLower
      let full := (host ++ url.pathname).toLower
      let under (domain : String) : Bool := host = domain ∨ endsWith host ("." ++ domain)
      if host = "forms.gle" ∨ host = "docs.google.com" ∨ endsWith host ".qualtrics.com" ∨
          includes full "apply" then .application
      else if ["linktr.ee", "beacons.ai", "carrd.co", "bio.site"].any under then .bioLink
      else if under "groupme.com" then .groupme
      else if under "instagram.com" then .instagram
      else if under "linkedin.com" then .linkedin
      else if host = "heellife.unc.edu" then .heelLife
      else if url.protocol = "http:" ∨ url.protocol = "https:" then .website
      else .unknown

/-- The options of `ingest`, and whether the service has a `web` connector. -/
structure FollowOptions where
  followLinks : Bool
  web : Bool
  maxDepth : ℕ
deriving Repr, DecidableEq

/-- The links of a document that are followed. -/
def candidates (parseUrl : String → Option ParsedUrl) (discoveredUrls : List String) :
    List String :=
  (discoveredUrls.eraseDups.filter fun url =>
    classifyUrl parseUrl url ∈ [UrlKind.application, .bioLink, .website]).take 12

/-- The links of a link-in-bio page that are followed. -/
def nestedLinks (parseUrl : String → Option ParsedUrl) (links : List String) : List String :=
  (links.filter fun url => classifyUrl parseUrl url ∈ [UrlKind.application, .website]).take 10

/-- What is left to do: a page to fetch, or one that is fetched and not yet ingested. -/
inductive LinkTask where
  | fetch (level : ℕ) (url : String)
  | ingest (level : ℕ) (url : String) (page : SourceItem) (links : List String)
deriving Repr, DecidableEq

/-- What has been done: an attempt to fetch a page, or to ingest it. -/
inductive LinkEvent where
  | fetched (level : ℕ) (url : String) (ok : Bool)
  | ingested (level : ℕ) (url : String) (outcome : IngestOutcome)
deriving Repr, DecidableEq

/-- What is answered to the next task. -/
inductive LinkAnswer where
  | fetchFailed
  | fetched (page : SourceItem) (links : List String)
  | ingest (env : DocumentEnv)

/-- A call that follows links. -/
structure LinkRun where
  db : Database
  log : List LinkEvent
  todo : List LinkTask

/-- What every call of a service is given. -/
structure IngestContext where
  getTime : Json → Option ℤ
  digest : String → String
  sha256 : String → String
  parseUrl : String → Option ParsedUrl

namespace IngestContext

variable (ctx : IngestContext)

/-- The ingest of one document. -/
def document (env : DocumentEnv) (db : Database) (source : SourceItem) (tenantId : String) :
    Database × IngestOutcome :=
  db.ingestDocument ctx.getTime ctx.digest ctx.sha256 env source tenantId

/-- The tasks of the links in an ingested page. -/
def nested (maxDepth level : ℕ) (url : String) (links : List String) : List LinkTask :=
  if level = 1 ∧ 1 < maxDepth ∧ classifyUrl ctx.parseUrl url = .bioLink then
    (nestedLinks ctx.parseUrl links).map (.fetch 2)
  else []

/-- One task of the call that has processed `parent`. -/
def follow (parent : SourceItem) (tenantId : String) (maxDepth : ℕ) (s : LinkRun) :
    LinkAnswer → Option LinkRun
  | .fetchFailed =>
      match s.todo with
      | .fetch level url :: rest =>
          some { s with log := s.log ++ [.fetched level url false], todo := rest }
      | _ => none
  | .fetched page links =>
      match s.todo with
      | .fetch level url :: rest =>
          some { s with
            log := s.log ++ [.fetched level url true]
            todo := .ingest level url page links :: rest }
      | _ => none
  | .ingest env =>
      match s.todo with
      | .ingest level url page links :: rest =>
          let child := { page with
            organizationId := parent.organizationId
            contributorUserId := parent.contributorUserId }
          let (db, outcome) := ctx.document env s.db child tenantId
          some {
            db := db
            log := s.log ++ [.ingested level url outcome]
            todo := (if outcome.throws then [] else ctx.nested maxDepth level url links) ++ rest }
      | _ => none

/-- The tasks of a document that has just been processed. -/
def tasks (options : FollowOptions) (discoveredUrls : List String) : List LinkTask :=
  if options.followLinks ∧ options.web ∧ 0 < options.maxDepth then
    (candidates ctx.parseUrl discoveredUrls).map (.fetch 1)
  else []

/-- `ingest(source, { followLinks, maxDepth })`, given what is answered to its tasks;
`none` where these are not the answers to them. -/
def ingest (options : FollowOptions) (env : DocumentEnv) (answers : List LinkAnswer)
    (db : Database) (source : SourceItem) (tenantId : String) : Option (Database × IngestOutcome) :=
  match ctx.document env db source tenantId with
  | (db, .processed versionId discoveredUrls) =>
      (Transition.exec (ctx.follow source tenantId options.maxDepth)
        ⟨db, [], ctx.tasks options discoveredUrls⟩ answers).bind fun t =>
          if t.todo = [] then some (t.db, .processed versionId discoveredUrls) else none
  | (db, outcome) => some (db, outcome)

end IngestContext

/-! ### How far it goes -/

/-- How many tasks a task can come to. -/
def LinkTask.weight : LinkTask → ℕ
  | .fetch level _ => if level = 1 then 22 else 2
  | .ingest level _ _ _ => if level = 1 then 21 else 1

/-- The level of a task. -/
def LinkTask.level : LinkTask → ℕ
  | .fetch level _ | .ingest level _ _ _ => level

def LinkEvent.level : LinkEvent → ℕ
  | .fetched level _ _ | .ingested level _ _ => level

/-- The work that is left. -/
def LinkRun.weight (s : LinkRun) : ℕ := (s.todo.map LinkTask.weight).sum

/-- What is left and what has been done is on two levels. -/
def LinkRun.Shallow (s : LinkRun) : Prop :=
  (∀ task ∈ s.todo, task.level = 1 ∨ task.level = 2) ∧
    ∀ event ∈ s.log, event.level = 1 ∨ event.level = 2

namespace IngestContext

variable {ctx : IngestContext} {parent : SourceItem} {tenantId : String} {maxDepth : ℕ}
  {s t : LinkRun}

theorem candidates_length (parseUrl : String → Option ParsedUrl) (urls : List String) :
    (candidates parseUrl urls).length ≤ 12 :=
  List.length_take_le _ _

theorem candidates_nodup {parseUrl : String → Option ParsedUrl} (urls : List String) :
    (candidates parseUrl urls).Nodup :=
  ((Table.nodup_eraseDups urls).filter _).sublist (List.take_sublist _ _)

/-- The links of a page are at most ten, on the second level. -/
theorem nested_weight (level : ℕ) (url : String) (links : List String) :
    ((ctx.nested maxDepth level url links).map LinkTask.weight).sum ≤
      if level = 1 then 20 else 0 := by
  unfold nested
  split
  · rename_i hone
    have hlength : (nestedLinks ctx.parseUrl links).length ≤ 10 := List.length_take_le _ _
    have hweight : ((nestedLinks ctx.parseUrl links).map
        (LinkTask.weight ∘ LinkTask.fetch 2)).sum = (nestedLinks ctx.parseUrl links).length * 2 := by
      have hconst : LinkTask.weight ∘ LinkTask.fetch 2 = fun _ => 2 := rfl
      rw [hconst, List.map_const', List.sum_replicate_nat]
    rw [List.map_map, hweight, if_pos hone.1]
    omega
  · simp

theorem nested_level {level : ℕ} {url : String} {links : List String} :
    ∀ task ∈ ctx.nested maxDepth level url links, task.level = 2 := by
  intro task htask
  unfold nested at htask
  split at htask
  · obtain ⟨link, -, rfl⟩ := List.mem_map.mp htask
    rfl
  · cases htask

/-- **What a task can do.**  It is done, or its page is left to ingest, or the links of its
page are. -/
theorem follow_cases {answer : LinkAnswer}
    (h : ctx.follow parent tenantId maxDepth s answer = some t) :
    (∃ level url rest, s.todo = .fetch level url :: rest ∧
      t = { s with log := s.log ++ [.fetched level url false], todo := rest }) ∨
    (∃ level url rest page links, s.todo = .fetch level url :: rest ∧
      t = { s with
        log := s.log ++ [.fetched level url true]
        todo := .ingest level url page links :: rest }) ∨
    ∃ level url rest page links env more outcome, s.todo = .ingest level url page links :: rest ∧
      answer = .ingest env ∧
      ctx.document env s.db { page with
          organizationId := parent.organizationId
          contributorUserId := parent.contributorUserId } tenantId = (t.db, outcome) ∧
      t.log = s.log ++ [.ingested level url outcome] ∧ t.todo = more ++ rest ∧
      (more = [] ∨ more = ctx.nested maxDepth level url links) := by
  cases answer with
  | fetchFailed =>
      simp only [follow] at h
      split at h
      · rename_i level url rest htodo
        cases h
        exact .inl ⟨level, url, rest, htodo, rfl⟩
      · cases h
  | fetched page links =>
      simp only [follow] at h
      split at h
      · rename_i level url rest htodo
        cases h
        exact .inr (.inl ⟨level, url, rest, page, links, htodo, rfl⟩)
      · cases h
  | ingest env =>
      simp only [follow] at h
      split at h
      · rename_i level url page links rest htodo
        cases h
        refine .inr (.inr ⟨level, url, rest, page, links, env, _, _, htodo, rfl, rfl, rfl, rfl, ?_⟩)
        split
        · exact .inl rfl
        · exact .inr rfl
      · cases h

/-- Each task takes away from the work that is left. -/
theorem follow_weight {answer : LinkAnswer}
    (h : ctx.follow parent tenantId maxDepth s answer = some t) : t.weight + 1 ≤ s.weight := by
  rcases follow_cases h with ⟨level, url, rest, htodo, rfl⟩ |
    ⟨level, url, rest, page, links, htodo, rfl⟩ |
    ⟨level, url, rest, page, links, env, more, outcome, htodo, -, -, -, hmore, hcases⟩
  · simp only [LinkRun.weight, htodo, List.map_cons, List.sum_cons, LinkTask.weight]
    split <;> omega
  · simp only [LinkRun.weight, htodo, List.map_cons, List.sum_cons, LinkTask.weight]
    split <;> omega
  · have hweight : (more.map LinkTask.weight).sum ≤ if level = 1 then 20 else 0 := by
      rcases hcases with rfl | rfl
      · simp
      · exact nested_weight level url links
    simp only [LinkRun.weight, htodo, hmore, List.map_append, List.sum_append, List.map_cons,
      List.sum_cons, LinkTask.weight]
    split <;> split at hweight <;> omega

theorem follow_shallow {answer : LinkAnswer} (hs : s.Shallow)
    (h : ctx.follow parent tenantId maxDepth s answer = some t) : t.Shallow := by
  obtain ⟨htasks, hevents⟩ := hs
  have happend : ∀ {event : LinkEvent}, event.level = 1 ∨ event.level = 2 →
      ∀ e ∈ s.log ++ [event], e.level = 1 ∨ e.level = 2 := by
    intro event hevent e he
    rcases List.mem_append.mp he with he | he
    · exact hevents e he
    · rw [List.mem_singleton.mp he]
      exact hevent
  rcases follow_cases h with ⟨level, url, rest, htodo, rfl⟩ |
    ⟨level, url, rest, page, links, htodo, rfl⟩ |
    ⟨level, url, rest, page, links, env, more, outcome, htodo, -, -, hlog, hmore, hcases⟩
  · have hlevel := htasks _ (htodo ▸ List.mem_cons_self)
    exact ⟨fun task htask => htasks task (htodo ▸ List.mem_cons_of_mem _ htask), happend hlevel⟩
  · have hlevel := htasks _ (htodo ▸ List.mem_cons_self)
    refine ⟨fun task htask => ?_, happend hlevel⟩
    rcases List.mem_cons.mp htask with rfl | htask
    · exact hlevel
    · exact htasks task (htodo ▸ List.mem_cons_of_mem _ htask)
  · have hlevel := htasks _ (htodo ▸ List.mem_cons_self)
    refine ⟨fun task htask => ?_, by rw [hlog]; exact happend hlevel⟩
    rw [hmore] at htask
    rcases List.mem_append.mp htask with htask | htask
    · rcases hcases with rfl | rfl
      · cases htask
      · exact .inr (nested_level task htask)
    · exact htasks task (htodo ▸ List.mem_cons_of_mem _ htask)

/-- A task that is left can be answered. -/
theorem follow_enabled (h : s.todo ≠ []) (env : DocumentEnv) :
    ∃ answer, (ctx.follow parent tenantId maxDepth s answer).isSome := by
  match htodo : s.todo with
  | [] => exact absurd htodo h
  | .fetch level url :: rest =>
      exact ⟨.fetchFailed, by simp [follow, htodo]⟩
  | .ingest level url page links :: rest =>
      exact ⟨.ingest env, by simp [follow, htodo]⟩

/-- **Link following is shallow and ends.**  Whatever is answered, a document's links take
at most 264 tasks, on two levels. -/
theorem follow_bounded {options : FollowOptions} {db : Database} {urls : List String}
    {answers : List LinkAnswer}
    (h : Transition.exec (ctx.follow parent tenantId maxDepth)
      ⟨db, [], ctx.tasks options urls⟩ answers = some t) :
    t.Shallow ∧ answers.length + t.weight ≤ 264 := by
  have hrun : ∀ {answers : List LinkAnswer} {s t : LinkRun}, s.Shallow →
      Transition.exec (ctx.follow parent tenantId maxDepth) s answers = some t →
        t.Shallow ∧ answers.length + t.weight ≤ s.weight := by
    intro answers
    induction answers with
    | nil =>
        intro s t hs h
        cases h
        exact ⟨hs, by simp⟩
    | cons answer rest ih =>
        intro s t hs h
        simp only [Transition.exec, Option.bind_eq_some_iff] at h
        obtain ⟨u, hu, hrest⟩ := h
        obtain ⟨hshallow, hlength⟩ := ih (follow_shallow hs hu) hrest
        have hstep := follow_weight hu
        exact ⟨hshallow, by simp only [List.length_cons]; omega⟩
  have hstart : LinkRun.Shallow ⟨db, [], ctx.tasks options urls⟩ := by
    refine ⟨fun task htask => ?_, by simp⟩
    simp only [tasks] at htask
    split at htask
    · obtain ⟨url, -, rfl⟩ := List.mem_map.mp htask
      exact .inl rfl
    · cases htask
  have hweight : LinkRun.weight ⟨db, [], ctx.tasks options urls⟩ ≤ 264 := by
    simp only [LinkRun.weight, tasks]
    split
    · have hconst : LinkTask.weight ∘ LinkTask.fetch 1 = fun _ => 22 := rfl
      have hlength := candidates_length ctx.parseUrl urls
      rw [List.map_map, hconst, List.map_const', List.sum_replicate_nat]
      omega
    · simp
  obtain ⟨hshallow, hlength⟩ := hrun hstart h
  exact ⟨hshallow, by omega⟩

end IngestContext

end RecruitingOs
