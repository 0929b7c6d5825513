import RecruitingOs.Connectors.Sync

/-!
# The Gmail cursor and the mailbox

`GmailConnector.synchronize` request by request, and the mailbox that goes on changing
between any two of them.  Every change gives the mailbox a new history id, and a message that
arrives has the id of its change.  A history response holds one page of the INBOX messages
after `startHistoryId`, and the `historyId` that comes with it, as that of the profile, is the
current one of the mailbox.

The connector persists that id.  It covers more than the connector has read: later pages,
and what has arrived between the listing and the profile.  `cursorSafe_iff` says that there
is no other way to pass a message.
-/

namespace RecruitingOs

/-- A message in the mailbox, with the history id of its arrival. -/
structure MailboxMessage where
  message : GmailMessage
  historyId : ℕ
  inbox : Bool
deriving Repr, DecidableEq

/-- Where the call of `synchronize` is. -/
inductive GmailCall where
  | idle
  /-- `initialize` has requested `/messages`. -/
  | listing
  /-- `sync` has requested `/history`. -/
  | history (startHistoryId : ℕ)
  /-- The messages that the answer names are fetched; `historyId` is the cursor to persist,
  `none` where the profile is still to be asked. -/
  | fetching (ids pending : List String) (out : List SourceItem) (historyId : Option ℕ)
deriving Repr, DecidableEq

/-- The mailbox, the persisted cursor and the calls of one connector. -/
structure GmailRun where
  mailbox : List MailboxMessage
  historyId : ℕ
  /-- The history id of the mailbox when `initialize` issued its first listing request. -/
  since : Option ℕ
  cursor : Option ℕ
  call : GmailCall
  /-- What the calls have returned. -/
  returned : List SourceItem
deriving Repr, DecidableEq

/-- What happens next. -/
inductive GmailEvent where
  | arrive (message : MailboxMessage)
  /-- Any other change of the mailbox. -/
  | change (historyId : ℕ)
  | synchronize
  /-- `/history` is served, with a page of at most `size` records. -/
  | serveHistory (size : ℕ)
  /-- `/history` is answered with 404. -/
  | expire
  | serveListing (ids : List String)
  /-- A message is served. -/
  | fetch (now : ℤ)
  | serveProfile
  /-- `setConnectorState`, and the call returns. -/
  | persist
  /-- A request fails, and the call throws. -/
  | fail

namespace GmailRun

/-- The INBOX messages after `startHistoryId`, in the order of their arrival. -/
def records (s : GmailRun) (startHistoryId : ℕ) : List MailboxMessage :=
  s.mailbox.filter fun m => m.inbox ∧ startHistoryId < m.historyId

/-- `initialize` issues its listing request. -/
def list (s : GmailRun) : GmailRun :=
  { s with call := .listing, since := s.since.or (some s.historyId) }

/-- One event. -/
def step (digest : String → String) (org : OrganizationId) (s : GmailRun) :
    GmailEvent → Option GmailRun
  | .arrive m =>
      if s.historyId < m.historyId ∧ s.mailbox.all (fun old => old.message.id ≠ m.message.id) then
        some { s with mailbox := s.mailbox ++ [m], historyId := m.historyId }
      else none
  | .change historyId =>
      if s.historyId < historyId then some { s with historyId := historyId } else none
  | .synchronize =>
      match s.call, s.cursor with
      | .idle, none => some s.list
      | .idle, some cursor => some { s with call := .history cursor }
      | _, _ => none
  | .serveHistory size =>
      match s.call with
      | .history startHistoryId =>
          let page := (s.records startHistoryId).take size
          let ids := SyncAnswer.addedIds (page.map fun m => ⟨[m.message.id]⟩)
          some { s with call := .fetching ids ids [] (some s.historyId) }
      | _ => none
  | .expire =>
      match s.call with
      | .history _ => some s.list
      | _ => none
  | .serveListing ids =>
      match s.call with
      | .listing =>
          if ids.length ≤ 50 ∧ ids.all (fun id => s.mailbox.any fun m => m.message.id = id) then
            some { s with call := .fetching ids ids [] none }
          else none
      | _ => none
  | .fetch now =>
      match s.call with
      | .fetching ids (id :: pending) out historyId =>
          match s.mailbox.find? fun m => m.message.id = id with
          | none => none
          | some m =>
              let source := m.message.toSource digest org.text now
              some { s with call := .fetching ids pending (out ++ [source]) historyId }
      | _ => none
  | .serveProfile =>
      match s.call with
      | .fetching ids [] out none =>
          some { s with call := .fetching ids [] out (some s.historyId) }
      | _ => none
  | .persist =>
      match s.call with
      | .fetching _ [] out (some historyId) =>
          some { s with
            call := .idle
            cursor := some historyId
            returned := out ++ s.returned }
      | _ => none
  | .fail =>
      match s.call with
      | .idle => none
      | _ => some { s with call := .idle }

/-- A mailbox before the connector has returned anything. -/
structure Initial (s : GmailRun) : Prop where
  nodup : (s.mailbox.map fun m => m.message.id).Nodup
  historyId_le : ∀ m ∈ s.mailbox, m.historyId ≤ s.historyId
  since : s.since = none
  cursor_le : ∀ cursor, s.cursor = some cursor → cursor ≤ s.historyId
  call : s.call = .idle
  returned : s.returned = []

/-- The message has arrived after the first listing request of `initialize`. -/
def ArrivedSince (s : GmailRun) (m : MailboxMessage) : Prop :=
  m.inbox ∧ ∃ since, s.since = some since ∧ since < m.historyId

/-- **The cursor never passes an unread message.** -/
def CursorSafe (s : GmailRun) : Prop :=
  ∀ m ∈ s.mailbox, s.ArrivedSince m → (∃ cursor, s.cursor = some cursor ∧ m.historyId ≤ cursor) →
    ∃ source ∈ s.returned, source.externalId = some m.message.id

/-- The condition on a step: a call that persists a history id has been answered with every
message between the old cursor and this one. -/
def Answered (s : GmailRun) : GmailEvent → Prop
  | .persist => ∀ ids out historyId, s.call = .fetching ids [] out (some historyId) →
      ∀ m ∈ s.mailbox, s.ArrivedSince m → (∀ cursor, s.cursor = some cursor → cursor < m.historyId) →
        m.historyId ≤ historyId → m.message.id ∈ ids
  | _ => True

/-! ### The invariant -/

/-- What holds of a call that fetches. -/
structure FetchInv (s : GmailRun) (ids pending : List String) (out : List SourceItem)
    (historyId : Option ℕ) : Prop where
  pending_mem : ∀ id ∈ pending, id ∈ ids
  fetched : ∀ id ∈ ids, id ∈ pending ∨ ∃ source ∈ out, source.externalId = some id
  named : ∀ source ∈ out, ∃ id ∈ ids, source.externalId = some id
  stored : ∀ id ∈ ids, ∃ m ∈ s.mailbox, m.message.id = id ∧ m.historyId ≤ historyId.getD s.historyId
  target_le : ∀ h, historyId = some h →
    h ≤ s.historyId ∧ ∀ cursor, s.cursor = some cursor → cursor ≤ h

/-- The invariant of runs. -/
structure Inv (s : GmailRun) : Prop where
  nodup : (s.mailbox.map fun m => m.message.id).Nodup
  historyId_le : ∀ m ∈ s.mailbox, m.historyId ≤ s.historyId
  cursor_le : ∀ cursor, s.cursor = some cursor → cursor ≤ s.historyId
  returned : ∀ source ∈ s.returned, ∃ m ∈ s.mailbox, source.externalId = some m.message.id ∧
    ∃ cursor, s.cursor = some cursor ∧ m.historyId ≤ cursor
  fetching : ∀ ids pending out historyId, s.call = .fetching ids pending out historyId →
    FetchInv s ids pending out historyId

theorem Initial.inv {s : GmailRun} (h : Initial s) : Inv s where
  nodup := h.nodup
  historyId_le := h.historyId_le
  cursor_le := h.cursor_le
  returned := by
    intro source hsource
    rw [h.returned] at hsource
    cases hsource
  fetching := by
    intro ids pending out historyId hcall
    rw [h.call] at hcall
    cases hcall

theorem Initial.cursorSafe {s : GmailRun} (h : Initial s) : CursorSafe s := by
  rintro m - ⟨-, since, hsince, -⟩
  rw [h.since] at hsince
  cases hsince

variable {digest : String → String} {org : OrganizationId} {s t : GmailRun} {event : GmailEvent}

/-- A later state of the mailbox. -/
theorem FetchInv.later {ids pending : List String} {out : List SourceItem} {historyId : Option ℕ}
    (h : FetchInv s ids pending out historyId) (hmailbox : ∀ m ∈ s.mailbox, m ∈ t.mailbox)
    (hhistory : s.historyId ≤ t.historyId) (hcursor : t.cursor = s.cursor) :
    FetchInv t ids pending out historyId where
  pending_mem := h.pending_mem
  fetched := h.fetched
  named := h.named
  stored := by
    intro id hid
    obtain ⟨m, hm, hsame, hle⟩ := h.stored id hid
    refine ⟨m, hmailbox m hm, hsame, ?_⟩
    cases historyId with
    | none => exact hle.trans hhistory
    | some target => exact hle
  target_le := by
    intro target htarget
    obtain ⟨hle, hcursors⟩ := h.target_le target htarget
    exact ⟨hle.trans hhistory, hcursor ▸ hcursors⟩

/-- An event that leaves the mailbox, the cursor and what was returned. -/
theorem Inv.of_call (h : Inv s) (call : GmailCall) (since : Option ℕ)
    (hcall : ∀ ids pending out historyId, call = .fetching ids pending out historyId →
      FetchInv s ids pending out historyId) : Inv { s with call := call, since := since } where
  nodup := h.nodup
  historyId_le := h.historyId_le
  cursor_le := h.cursor_le
  returned := h.returned
  fetching := fun ids pending out historyId heq =>
    (hcall ids pending out historyId heq).later (fun _ hm => hm) le_rfl rfl

/-- The mailbox changes. -/
theorem Inv.later (h : Inv s) {mailbox : List MailboxMessage} {historyId : ℕ}
    (hnodup : (mailbox.map fun m => m.message.id).Nodup)
    (hle : ∀ m ∈ mailbox, m.historyId ≤ historyId) (hmailbox : ∀ m ∈ s.mailbox, m ∈ mailbox)
    (hhistory : s.historyId ≤ historyId) :
    Inv { s with mailbox := mailbox, historyId := historyId } where
  nodup := hnodup
  historyId_le := hle
  cursor_le := fun cursor hcursor => (h.cursor_le cursor hcursor).trans hhistory
  returned := by
    intro source hsource
    obtain ⟨m, hm, hrest⟩ := h.returned source hsource
    exact ⟨m, hmailbox m hm, hrest⟩
  fetching := fun ids pending out target hcall =>
    (h.fetching ids pending out target hcall).later hmailbox hhistory rfl

/-- The page names messages of the mailbox. -/
theorem fetchInv_page (h : Inv s) (startHistoryId size : ℕ) :
    FetchInv s (SyncAnswer.addedIds (((s.records startHistoryId).take size).map
        fun m => ⟨[m.message.id]⟩))
      (SyncAnswer.addedIds (((s.records startHistoryId).take size).map
        fun m => ⟨[m.message.id]⟩)) [] (some s.historyId) where
  pending_mem := fun _ hid => hid
  fetched := fun _ hid => .inl hid
  named := by
    intro source hsource
    cases hsource
  stored := by
    intro id hid
    rw [SyncAnswer.addedIds, List.mem_eraseDups] at hid
    obtain ⟨record, hrecord, hadded⟩ := List.mem_flatMap.mp hid
    obtain ⟨m, hm, rfl⟩ := List.mem_map.mp hrecord
    have hmem : m ∈ s.mailbox := (List.mem_filter.mp (List.mem_of_mem_take hm)).1
    exact ⟨m, hmem, (List.mem_singleton.mp hadded).symm, h.historyId_le m hmem⟩
  target_le := by
    intro target htarget
    cases htarget
    exact ⟨le_rfl, h.cursor_le⟩

theorem Inv.step (h : Inv s) (hs : step digest org s event = some t) : Inv t := by
  cases event with
  | arrive m =>
      simp only [GmailRun.step] at hs
      split at hs
      · rename_i hnew
        cases hs
        obtain ⟨hlt, hfresh⟩ := hnew
        refine h.later ?_ ?_ (fun old hold => List.mem_append_left _ hold) hlt.le
        · exact Table.nodup_key_append h.nodup fun old hold =>
            of_decide_eq_true (List.all_eq_true.mp hfresh old hold)
        · intro old hold
          rcases List.mem_append.mp hold with hold | hlast
          · exact (h.historyId_le old hold).trans hlt.le
          · rw [List.mem_singleton.mp hlast]
      · cases hs
  | change historyId =>
      simp only [GmailRun.step] at hs
      split at hs
      · rename_i hlt
        cases hs
        exact h.later h.nodup (fun m hm => (h.historyId_le m hm).trans hlt.le) (fun _ hm => hm) hlt.le
      · cases hs
  | synchronize =>
      simp only [GmailRun.step] at hs
      split at hs
      · cases hs
        exact h.of_call _ _ (by intro _ _ _ _ hcall; cases hcall)
      · cases hs
        exact h.of_call _ _ (by intro _ _ _ _ hcall; cases hcall)
      · cases hs
  | serveHistory size =>
      simp only [GmailRun.step] at hs
      split at hs
      · rename_i startHistoryId hcall
        cases hs
        refine h.of_call _ _ ?_
        rintro ids pending out historyId hfetching
        cases hfetching
        exact fetchInv_page h startHistoryId size
      · cases hs
  | expire =>
      simp only [GmailRun.step] at hs
      split at hs
      · cases hs
        exact h.of_call _ _ (by intro _ _ _ _ hcall; cases hcall)
      · cases hs
  | serveListing ids =>
      simp only [GmailRun.step] at hs
      split at hs
      · split at hs
        · rename_i hids
          cases hs
          refine h.of_call _ _ ?_
          rintro ids' pending out historyId hfetching
          cases hfetching
          refine ⟨fun _ hid => hid, fun _ hid => .inl hid, ?_, ?_, ?_⟩
          · intro source hsource
            cases hsource
          · intro id hid
            obtain ⟨m, hm, hsame⟩ := List.any_eq_true.mp (List.all_eq_true.mp hids.2 id hid)
            exact ⟨m, hm, of_decide_eq_true hsame, h.historyId_le m hm⟩
          · intro target htarget
            cases htarget
        · cases hs
      · cases hs
  | fetch now =>
      simp only [GmailRun.step] at hs
      split at hs
      · rename_i ids id pending out historyId hcall
        split at hs
        · cases hs
        · rename_i m hfind
          cases hs
          have hinv := h.fetching _ _ _ _ hcall
          have hid : m.message.id = id := by simpa using List.find?_some hfind
          have hexternal : ∀ source : SourceItem,
              source = m.message.toSource digest org.text now → source.externalId = some id := by
            rintro source rfl
            rw [← hid]
            rfl
          refine h.of_call _ _ ?_
          rintro ids' pending' out' historyId' hfetching
          cases hfetching
          refine ⟨fun i hi => hinv.pending_mem i (List.mem_cons_of_mem _ hi), ?_, ?_, hinv.stored,
            hinv.target_le⟩
          · intro i hi
            rcases hinv.fetched i hi with hpending | ⟨source, hsource, hsame⟩
            · rcases List.mem_cons.mp hpending with rfl | hrest
              · exact .inr ⟨_, List.mem_append_right _ (List.mem_singleton.mpr rfl),
                  hexternal _ rfl⟩
              · exact .inl hrest
            · exact .inr ⟨source, List.mem_append_left _ hsource, hsame⟩
          · intro source hsource
            rcases List.mem_append.mp hsource with hold | hlast
            · exact hinv.named source hold
            · exact ⟨id, hinv.pending_mem id List.mem_cons_self,
                hexternal source (List.mem_singleton.mp hlast)⟩
      · cases hs
  | serveProfile =>
      simp only [GmailRun.step] at hs
      split at hs
      · rename_i ids out hcall
        cases hs
        have hinv := h.fetching _ _ _ _ hcall
        refine h.of_call _ _ ?_
        rintro ids' pending out' historyId hfetching
        cases hfetching
        refine ⟨hinv.pending_mem, hinv.fetched, hinv.named, hinv.stored, ?_⟩
        intro target htarget
        cases htarget
        exact ⟨le_rfl, h.cursor_le⟩
      · cases hs
  | persist =>
      simp only [GmailRun.step] at hs
      split at hs
      · rename_i ids out historyId hcall
        cases hs
        have hinv := h.fetching _ _ _ _ hcall
        obtain ⟨hle, hcursor⟩ := hinv.target_le historyId rfl
        refine ⟨h.nodup, h.historyId_le, ?_, ?_, ?_⟩
        · rintro cursor hsome
          cases hsome
          exact hle
        · intro source hsource
          rcases List.mem_append.mp hsource with hnew | hold
          · obtain ⟨id, hid, hsame⟩ := hinv.named source hnew
            obtain ⟨m, hm, rfl, hmle⟩ := hinv.stored id hid
            exact ⟨m, hm, hsame, historyId, rfl, hmle⟩
          · obtain ⟨m, hm, hsame, cursor, hsome, hmle⟩ := h.returned source hold
            exact ⟨m, hm, hsame, historyId, rfl, hmle.trans (hcursor cursor hsome)⟩
        · intro ids' pending out' target hfetching
          cases hfetching
      · cases hs
  | fail =>
      simp only [GmailRun.step] at hs
      split at hs
      · cases hs
      · cases hs
        exact h.of_call _ _ (by intro _ _ _ _ hcall; cases hcall)

/-! ### The cursor -/

/-- When `initialize` lists for the first time, no message has arrived since. -/
theorem CursorSafe.list (h : CursorSafe s) (hinv : Inv s) : CursorSafe s.list := by
  rintro m hm ⟨hinbox, since, hsince, hlt⟩ hcursor
  have hlisted : s.since.or (some s.historyId) = some since := hsince
  cases hbefore : s.since with
  | none =>
      rw [hbefore, Option.none_or, Option.some_inj] at hlisted
      rw [← hlisted] at hlt
      exact absurd (hinv.historyId_le m hm) (Nat.not_le.mpr hlt)
  | some old =>
      rw [hbefore, Option.some_or, Option.some_inj] at hlisted
      exact h m hm ⟨hinbox, old, hbefore, hlisted ▸ hlt⟩ hcursor

theorem CursorSafe.step (h : CursorSafe s) (hinv : Inv s) (hanswered : Answered s event)
    (hs : step digest org s event = some t) : CursorSafe t := by
  cases event with
  | arrive new =>
      simp only [GmailRun.step] at hs
      split at hs
      · rename_i hnew
        cases hs
        intro m hm hsince hcursor
        rcases List.mem_append.mp hm with hold | hlast
        · exact h m hold hsince hcursor
        · -- a new message lies after the cursor
          obtain ⟨cursor, hsome, hle⟩ := hcursor
          rw [List.mem_singleton.mp hlast] at hle
          exact absurd ((hle.trans (hinv.cursor_le cursor hsome))) (Nat.not_le.mpr hnew.1)
      · cases hs
  | change historyId =>
      simp only [GmailRun.step] at hs
      split at hs
      · cases hs
        exact h
      · cases hs
  | synchronize =>
      simp only [GmailRun.step] at hs
      split at hs
      · cases hs
        exact h.list hinv
      · cases hs
        exact h
      · cases hs
  | expire =>
      simp only [GmailRun.step] at hs
      split at hs
      · cases hs
        exact h.list hinv
      · cases hs
  | persist =>
      simp only [GmailRun.step] at hs
      split at hs
      · rename_i ids out historyId hcall
        cases hs
        rintro m hm hsince ⟨cursor, hsome, hle⟩
        cases hsome
        by_cases hold : ∃ cursor, s.cursor = some cursor ∧ m.historyId ≤ cursor
        · obtain ⟨source, hsource, hsame⟩ := h m hm hsince hold
          exact ⟨source, List.mem_append_right _ hsource, hsame⟩
        · have hid : m.message.id ∈ ids := hanswered ids out historyId hcall m hm hsince
            (fun cursor hcursor => Nat.not_le.mp fun hle => hold ⟨cursor, hcursor, hle⟩) hle
          rcases (hinv.fetching _ _ _ _ hcall).fetched _ hid with hpending | ⟨source, hsource, hsame⟩
          · cases hpending
          · exact ⟨source, List.mem_append_left _ hsource, hsame⟩
      · cases hs
  | serveHistory _ | serveProfile =>
      simp only [GmailRun.step] at hs
      split at hs
      · cases hs
        exact h
      · cases hs
  | serveListing _ =>
      simp only [GmailRun.step] at hs
      split at hs
      · split at hs
        · cases hs
          exact h
        · cases hs
      · cases hs
  | fetch _ =>
      simp only [GmailRun.step] at hs
      split at hs
      · split at hs
        · cases hs
        · cases hs
          exact h
      · cases hs
  | fail =>
      simp only [GmailRun.step] at hs
      split at hs
      · cases hs
      · cases hs
        exact h

theorem answered_of_cursorSafe (hinv : Inv s) (hs : step digest org s event = some t)
    (h : CursorSafe t) : Answered s event := by
  cases event with
  | persist =>
      intro ids out historyId hcall m hm hsince hcursor hle
      simp only [GmailRun.step, hcall] at hs
      cases hs
      obtain ⟨source, hsource, hsame⟩ := h m hm hsince ⟨historyId, rfl, hle⟩
      rcases List.mem_append.mp hsource with hnew | hold
      · obtain ⟨id, hid, hid'⟩ := (hinv.fetching _ _ _ _ hcall).named source hnew
        rw [hsame] at hid'
        rw [Option.some_inj.mp hid']
        exact hid
      · -- what was returned before lies at or before the old cursor
        obtain ⟨m', hm', hsame', cursor, hsome, hmle⟩ := hinv.returned source hold
        rw [hsame] at hsame'
        have hmm : m = m' := Table.eq_of_key_eq hinv.nodup hm hm' (Option.some_inj.mp hsame')
        rw [← hmm] at hmle
        exact absurd hmle (Nat.not_le.mpr (hcursor cursor hsome))
  | arrive _ | change _ | synchronize | serveHistory _ | expire | serveListing _ | fetch _
  | serveProfile | fail => trivial

/-- **The Gmail cursor.**  In every run the cursor passes no unread message exactly if every
call that persists a history id has been answered with all messages that lie between. -/
theorem cursorSafe_iff (hinit : Initial s) {run : List GmailEvent} :
    Transition.EveryState (step digest org) CursorSafe s run ↔
      Transition.EveryStep (step digest org) Answered s run :=
  Transition.everyState_iff_everyStep (I := fun s => Inv s ∧ CursorSafe s)
    (fun _ _ _ hI hC hs => ⟨hI.1.step hs, hI.2.step hI.1 hC hs⟩) (fun _ hI => hI.2)
    (fun _ _ _ hI hs hP => answered_of_cursorSafe hI.1 hs hP) ⟨hinit.inv, hinit.cursorSafe⟩

/-- An empty mailbox, and no call yet. -/
def unused : GmailRun := ⟨[], 1, none, none, .idle, []⟩

theorem unused_initial : Initial unused where
  nodup := List.nodup_nil
  historyId_le := by intro m hm; cases hm
  since := rfl
  cursor_le := by intro cursor hcursor; cases hcursor
  call := rfl
  returned := rfl

/-- A message that arrives in the INBOX. -/
def arrival (id : String) (historyId : ℕ) : MailboxMessage :=
  ⟨⟨id, none, [], [], none, 0⟩, historyId, true⟩

/-- Two messages arrive after the first call, and the page of the second call has one. -/
def pagedRun : List GmailEvent :=
  [.synchronize, .serveListing [], .serveProfile, .persist, .arrive (arrival "a" 2),
    .arrive (arrival "b" 3), .synchronize, .serveHistory 1, .fetch 0, .persist]

/-- A message arrives between the listing and the profile. -/
def listedRun : List GmailEvent :=
  [.synchronize, .serveListing [], .arrive (arrival "a" 2), .serveProfile, .persist]

/-- The cursor passes what is on a later page, and what arrives after the listing. -/
theorem not_cursorSafe_paged :
    (∃ t, Transition.exec (step id ⟨"club", by decide, by decide⟩) unused pagedRun = some t ∧
      t.call = .idle ∧ ¬ CursorSafe t) ∧
    ∃ t, Transition.exec (step id ⟨"club", by decide, by decide⟩) unused listedRun = some t ∧
      t.call = .idle ∧ ¬ CursorSafe t := by
  have hunsafe : ∀ (t : GmailRun) (m : MailboxMessage), m ∈ t.mailbox → t.ArrivedSince m →
      (∃ cursor, t.cursor = some cursor ∧ m.historyId ≤ cursor) →
      (∀ source ∈ t.returned, source.externalId ≠ some m.message.id) → ¬ CursorSafe t := by
    intro t m hm hsince hcursor hnone hsafe
    obtain ⟨source, hsource, hsame⟩ := hsafe m hm hsince hcursor
    exact hnone source hsource hsame
  constructor
  · refine ⟨_, rfl, rfl, hunsafe _ (arrival "b" 3) ?_ ⟨rfl, 1, rfl, ?_⟩ ⟨3, rfl, ?_⟩ ?_⟩
    all_goals decide
  · refine ⟨_, rfl, rfl, hunsafe _ (arrival "a" 2) ?_ ⟨rfl, 1, rfl, ?_⟩ ⟨2, rfl, ?_⟩ ?_⟩
    all_goals decide

/-- Between two calls one message arrives. -/
theorem cursorSafe_iff_unused :
    ∃ run t, Transition.exec (step id ⟨"club", by decide, by decide⟩) unused run = some t ∧
      t.returned.length = 1 ∧
      (Transition.EveryState (step id ⟨"club", by decide, by decide⟩) CursorSafe unused run ↔
        Transition.EveryStep (step id ⟨"club", by decide, by decide⟩) Answered unused run) :=
  ⟨[.synchronize, .serveListing [], .serveProfile, .persist, .arrive (arrival "a" 2),
    .synchronize, .serveHistory 10, .fetch 0, .persist], _, rfl, rfl,
    cursorSafe_iff unused_initial⟩

end GmailRun

end RecruitingOs
