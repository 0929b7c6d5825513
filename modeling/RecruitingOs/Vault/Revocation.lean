import RecruitingOs.Lib.Transition
import RecruitingOs.Vault.Credentials

/-!
# Revocation and refreshes in flight

`RefreshingCredentialService.getValid` reads a credential, asks the provider for a new
one and puts it, each in a step of its own; `revoke` and the OAuth callback may come
between any two.  `save` clears `revoked_at` for every writer, so a revocation is final
exactly as long as no refresh that read before it puts after it.

`VaultRun.revoked` remembers which triples have been revoked and not been connected
again.
-/

namespace RecruitingOs

open Database (CredentialKey)

/-- How far a call of `getValid` is. -/
inductive RefreshPhase where
  /-- `vault.get` has answered a credential that needs a refresh. -/
  | refreshing (credential : ProviderCredential)
  /-- `oauth.refresh` has answered. -/
  | putting (refreshed : ProviderCredential)
deriving Repr, DecidableEq

/-- A call of `getValid` in flight. -/
structure RefreshCall where
  id : ℕ
  key : CredentialKey
  phase : RefreshPhase
deriving Repr, DecidableEq

/-- The state of a run. -/
structure VaultRun where
  db : Database
  calls : List RefreshCall
  /-- The triples whose last `revoke` is later than their last OAuth callback. -/
  revoked : List CredentialKey

/-- A step of the vault's users. -/
inductive VaultStep where
  /-- `getValid` begins: `vault.get`, and the check of the expiry. -/
  | get (c : ℕ) (key : CredentialKey) (now : ℤ)
  /-- The provider answers `oauth.refresh`. -/
  | refresh (c : ℕ) (token : TokenAnswer) (now : ℤ)
  /-- `vault.put` of the refreshed credential. -/
  | put (c : ℕ) (nonce : List UInt8)
  /-- The provider fails, or the worker dies. -/
  | abort (c : ℕ)
  | revoke (key : CredentialKey) (now : ℤ)
  /-- An OAuth callback stores a new credential. -/
  | callback (key : CredentialKey) (credential : ProviderCredential) (nonce : List UInt8)

namespace VaultRun

/-- The call in flight with this id. -/
def call? (s : VaultRun) (c : ℕ) : Option RefreshCall := s.calls.find? fun call => call.id = c

/-- The run without a call: it has returned or thrown. -/
def drop (s : VaultRun) (c : ℕ) : VaultRun :=
  { s with calls := s.calls.filter fun call => call.id ≠ c }

/-- One step; `none` where it cannot happen. -/
def step (vault : Vault) (getTime : String → Option ℤ) (skewMs : ℤ) (s : VaultRun) :
    VaultStep → Option VaultRun
  | .get c key now =>
      if (s.call? c).isSome then none
      else
        match vault.get s.db key with
        | .ok (some credential) =>
            match needsRefresh getTime skewMs credential now with
            | some true => some { s with calls := ⟨c, key, .refreshing credential⟩ :: s.calls }
            -- the credential is returned, or its expiry is invalid
            | _ => some s
        | _ => some s
  | .refresh c token now =>
      match s.call? c with
      | some ⟨_, key, .refreshing credential⟩ =>
          match refreshCredential credential token now with
          | none => some (s.drop c)
          | some refreshed =>
              let t := s.drop c
              some { t with calls := ⟨c, key, .putting refreshed⟩ :: t.calls }
      | _ => none
  | .put c nonce =>
      match s.call? c with
      | some ⟨_, key, .putting refreshed⟩ =>
          match vault.put s.db key refreshed nonce with
          | .error _ => some (s.drop c)
          | .ok db => some { s.drop c with db := db }
      | _ => none
  | .abort c => if (s.call? c).isSome then some (s.drop c) else none
  | .revoke key now => some { s with db := Vault.revoke s.db key now, revoked := key :: s.revoked }
  | .callback key credential nonce =>
      match vault.put s.db key credential nonce with
      | .error _ => some s
      | .ok db => some { s with db := db, revoked := s.revoked.filter (· ≠ key) }

variable {vault : Vault} {getTime : String → Option ℤ} {skewMs : ℤ} {s t : VaultRun}

/-- **Revocation is final**: what is revoked the vault does not answer, and its
`revoked_at` is set. -/
def Final (vault : Vault) (s : VaultRun) : Prop :=
  ∀ key ∈ s.revoked, vault.get s.db key = .ok none ∧
    ∀ row ∈ s.db.credentials, row.key = key → row.revokedAt.isSome

/-- The condition on a step: a refresh puts only while the stored credential is not
revoked. -/
def PutsUnrevoked (s : VaultRun) : VaultStep → Prop
  | .put c _ => ∀ call, s.call? c = some call →
      ∀ row ∈ s.db.credentials, row.key = call.key → row.revokedAt = none
  | _ => True

/-! ### The invariants -/

theorem call?_some {c : ℕ} {call : RefreshCall} (h : s.call? c = some call) :
    call ∈ s.calls ∧ call.id = c :=
  ⟨List.mem_of_find?_eq_some h, by simpa using List.find?_some h⟩

/-- The triple has a stored credential. -/
def Stored (db : Database) (key : CredentialKey) : Prop := ∃ row ∈ db.credentials, row.key = key

/-- What every step keeps: a call in flight has read a credential that is still stored,
and that is not revoked unless it has been revoked since. -/
structure CallInv (s : VaultRun) : Prop where
  nodup : (s.db.credentials.map CredentialRow.key).Nodup
  stored : ∀ call ∈ s.calls, Stored s.db call.key
  known : ∀ call ∈ s.calls, ∀ row ∈ s.db.credentials, row.key = call.key →
    row.revokedAt.isSome → call.key ∈ s.revoked

/-- The rows of a revoked triple are revoked. -/
def Marked (s : VaultRun) : Prop :=
  ∀ key ∈ s.revoked, ∀ row ∈ s.db.credentials, row.key = key → row.revokedAt.isSome

theorem Marked.final (h : Marked s) : Final vault s := by
  intro key hkey
  refine ⟨?_, h key hkey⟩
  unfold Vault.get
  cases hfind : s.db.findCredential key with
  | none => rfl
  | some row =>
      have hrow : row ∈ s.db.credentials := List.mem_of_find?_eq_some hfind
      have hrowKey : row.key = key := by simpa using List.find?_some hfind
      dsimp only
      rw [if_pos (h key hkey row hrow hrowKey)]

/-- A credential that the vault answers is stored and not revoked. -/
theorem CallInv.get (h : CallInv s) {key : CredentialKey} {credential : ProviderCredential}
    (hget : vault.get s.db key = .ok (some credential)) :
    Stored s.db key ∧ ∀ row ∈ s.db.credentials, row.key = key → row.revokedAt = none := by
  unfold Vault.get at hget
  cases hfind : s.db.findCredential key with
  | none =>
      rw [hfind] at hget
      cases hget
  | some found =>
      rw [hfind] at hget
      have hmem : found ∈ s.db.credentials := List.mem_of_find?_eq_some hfind
      have hkey : found.key = key := by simpa using List.find?_some hfind
      refine ⟨⟨found, hmem, hkey⟩, fun row hrow hrowKey => ?_⟩
      rw [Table.eq_of_key_eq h.nodup hrow hmem (hrowKey.trans hkey.symm)]
      by_contra hrevoked
      dsimp only at hget
      rw [if_pos (Option.isSome_iff_ne_none.mpr hrevoked)] at hget
      cases hget

/-- A refreshed credential is stored over the one that was read, so its `put` returns. -/
theorem put_stored (vault : Vault) {key : CredentialKey} (hstored : Stored s.db key)
    (credential : ProviderCredential) (nonce : List UInt8) :
    ∃ db, vault.put s.db key credential nonce = .ok db := by
  obtain ⟨row, hrow, hkey⟩ := hstored
  obtain ⟨db, hdb⟩ := Database.saveCredential_of_mem
    (vault.sealed key credential nonce) hrow hkey
  refine ⟨db, ?_⟩
  unfold Vault.put
  rw [hdb]
  rfl

theorem Stored.saved {db db' : Database} {value : CredentialRow} {key : CredentialKey}
    (h : Stored db key) (hsaved : Database.Saved db db' value) : Stored db' key := by
  obtain ⟨row, hrow, rfl⟩ := h
  by_cases hkey : row.key = value.key
  · obtain ⟨new, hnew, hnewKey⟩ := hsaved.stored
    exact ⟨new, hnew, hnewKey.trans hkey.symm⟩
  · exact ⟨row, (hsaved.others row hkey).mpr hrow, rfl⟩

theorem Stored.revoke {db : Database} {key revoked : CredentialKey} {now : ℤ}
    (h : Stored db key) : Stored (Vault.revoke db revoked now) key := by
  obtain ⟨row, hrow, rfl⟩ := h
  exact ⟨_, Table.mem_updateWhere.mpr ⟨row, hrow, rfl⟩, by split <;> rfl⟩

/-! ### What a step does -/

/-- **What a step can do**: nothing to the credentials, a revocation, or a `put` of a
refresh or of a callback. -/
theorem step_cases {label : VaultStep} (hs : s.step vault getTime skewMs label = some t) :
    (t.db = s.db ∧ t.revoked = s.revoked ∧
      ∀ call ∈ t.calls, (∃ old ∈ s.calls, old.key = call.key) ∨
        ∃ credential, vault.get s.db call.key = .ok (some credential)) ∨
    (∃ key now, label = .revoke key now ∧ t.db = Vault.revoke s.db key now ∧
      t.revoked = key :: s.revoked ∧ t.calls = s.calls) ∨
    (∃ c nonce call refreshed, label = .put c nonce ∧ s.call? c = some call ∧
      Database.Saved s.db t.db (vault.sealed call.key refreshed nonce) ∧
      t.revoked = s.revoked ∧ ∀ x ∈ t.calls, x ∈ s.calls) ∨
    ∃ key credential nonce, label = .callback key credential nonce ∧
      Database.Saved s.db t.db (vault.sealed key credential nonce) ∧
      t.revoked = s.revoked.filter (· ≠ key) ∧ t.calls = s.calls := by
  have hdrop : ∀ c, ∀ call ∈ (s.drop c).calls, call ∈ s.calls :=
    fun c call hcall => (List.mem_filter.mp hcall).1
  cases label with
  | get c key now =>
      simp only [step] at hs
      split at hs
      · cases hs
      · split at hs
        · rename_i credential hget
          split at hs
          · cases hs
            refine .inl ⟨rfl, rfl, fun call hcall => ?_⟩
            rcases List.mem_cons.mp hcall with rfl | hold
            · exact .inr ⟨credential, hget⟩
            · exact .inl ⟨call, hold, rfl⟩
          · cases hs
            exact .inl ⟨rfl, rfl, fun call hcall => .inl ⟨call, hcall, rfl⟩⟩
        · cases hs
          exact .inl ⟨rfl, rfl, fun call hcall => .inl ⟨call, hcall, rfl⟩⟩
  | refresh c token now =>
      simp only [step] at hs
      split at hs
      · rename_i id key credential hcall
        split at hs
        · cases hs
          exact .inl ⟨rfl, rfl, fun call hmem => .inl ⟨call, hdrop c call hmem, rfl⟩⟩
        · cases hs
          refine .inl ⟨rfl, rfl, fun call hmem => .inl ?_⟩
          rcases List.mem_cons.mp hmem with rfl | hold
          · exact ⟨_, (call?_some hcall).1, rfl⟩
          · exact ⟨call, hdrop c call hold, rfl⟩
      · cases hs
  | put c nonce =>
      simp only [step] at hs
      split at hs
      · rename_i id key refreshed hcall
        split at hs
        · cases hs
          exact .inl ⟨rfl, rfl, fun call hmem => .inl ⟨call, hdrop c call hmem, rfl⟩⟩
        · rename_i db hput
          cases hs
          exact .inr (.inr (.inl ⟨c, nonce, _, refreshed, rfl, hcall,
            Database.saveCredential_ok Vault.sealed_revokedAt (Vault.put_ok hput), rfl, hdrop c⟩))
      · cases hs
  | abort c =>
      simp only [step] at hs
      split at hs
      · cases hs
        exact .inl ⟨rfl, rfl, fun call hmem => .inl ⟨call, hdrop c call hmem, rfl⟩⟩
      · cases hs
  | revoke key now =>
      cases hs
      exact .inr (.inl ⟨key, now, rfl, rfl, rfl, rfl⟩)
  | callback key credential nonce =>
      simp only [step] at hs
      split at hs
      · cases hs
        exact .inl ⟨rfl, rfl, fun call hcall => .inl ⟨call, hcall, rfl⟩⟩
      · rename_i db hput
        cases hs
        exact .inr (.inr (.inr ⟨key, credential, nonce, rfl,
          Database.saveCredential_ok Vault.sealed_revokedAt (Vault.put_ok hput), rfl, rfl⟩))

/-- After a revocation exactly the rows of its triple are marked with it. -/
theorem revoked_row {db : Database} {key : CredentialKey} {now : ℤ} {row : CredentialRow}
    (hrow : row ∈ (Vault.revoke db key now).credentials) :
    row.key = key ∧ row.revokedAt.isSome ∨ row.key ≠ key ∧ row ∈ db.credentials := by
  obtain ⟨old, hold, rfl⟩ := Table.mem_updateWhere.mp hrow
  by_cases hkey : old.key = key
  · rw [if_pos (decide_eq_true hkey)]
    exact .inl ⟨hkey, rfl⟩
  · rw [if_neg (by simpa using hkey)]
    exact .inr ⟨hkey, hold⟩

theorem CallInv.saved (h : CallInv s) {value : CredentialRow}
    (hsaved : Database.Saved s.db t.db value)
    (hrevoked : ∀ key, key ≠ value.key → (key ∈ t.revoked ↔ key ∈ s.revoked))
    (hcalls : ∀ call ∈ t.calls, call ∈ s.calls) : CallInv t := by
  refine ⟨hsaved.nodup h.nodup, fun call hcall => (h.stored call (hcalls call hcall)).saved hsaved,
    fun call hcall row hrow hkey hmarked => ?_⟩
  by_cases hsame : row.key = value.key
  · rw [(hsaved.fresh row hrow hsame).1] at hmarked
    cases hmarked
  · rw [hrevoked call.key (hkey ▸ hsame)]
    exact h.known call (hcalls call hcall) row ((hsaved.others row hsame).mp hrow) hkey hmarked

theorem CallInv.step (h : CallInv s) {label : VaultStep}
    (hs : s.step vault getTime skewMs label = some t) : CallInv t := by
  rcases step_cases hs with ⟨hdb, hrevoked, hcalls⟩ | ⟨key, now, -, hdb, hrevoked, hcalls⟩ |
    ⟨c, nonce, mine, refreshed, -, -, hsaved, hrevoked, hcalls⟩ |
    ⟨key, credential, nonce, -, hsaved, hrevoked, hcalls⟩
  · refine ⟨by rw [hdb]; exact h.nodup, fun call hcall => ?_, fun call hcall => ?_⟩
    · rw [hdb]
      rcases hcalls call hcall with ⟨old, hold, hkey⟩ | ⟨credential, hget⟩
      · rw [← hkey]
        exact h.stored old hold
      · exact (h.get hget).1
    · rw [hdb, hrevoked]
      intro row hrow hkey hmarked
      rcases hcalls call hcall with ⟨old, hold, holdKey⟩ | ⟨credential, hget⟩
      · rw [← holdKey] at hkey ⊢
        exact h.known old hold row hrow hkey hmarked
      · rw [(h.get hget).2 row hrow hkey] at hmarked
        cases hmarked
  · refine ⟨?_, fun call hcall => ?_, fun call hcall row hrow hkey hmarked => ?_⟩
    · rw [hdb]
      show ((Table.updateWhere _ _ s.db.credentials).map CredentialRow.key).Nodup
      rw [Table.map_key_updateWhere (f := fun row => { row with revokedAt := some now })
        CredentialRow.key fun _ _ _ => rfl]
      exact h.nodup
    · rw [hdb]
      rw [hcalls] at hcall
      exact (h.stored call hcall).revoke
    · rw [hdb] at hrow
      rw [hcalls] at hcall
      rw [hrevoked]
      rcases revoked_row hrow with ⟨hsame, -⟩ | ⟨-, hold⟩
      · rw [← hkey, hsame]
        exact List.mem_cons_self
      · exact List.mem_cons_of_mem _ (h.known call hcall row hold hkey hmarked)
  · exact h.saved hsaved (fun k _ => by rw [hrevoked]) hcalls
  · refine h.saved hsaved (fun k hk => ?_) fun x hx => hcalls ▸ hx
    rw [hrevoked, List.mem_filter]
    exact ⟨fun hmem => hmem.1, fun hmem => ⟨hmem, decide_eq_true hk⟩⟩

/-! ### Every run -/

theorem Marked.step (h : CallInv s) (hm : Marked s) {label : VaultStep}
    (hputs : PutsUnrevoked s label) (hs : s.step vault getTime skewMs label = some t) :
    Marked t := by
  rcases step_cases hs with ⟨hdb, hrevoked, -⟩ | ⟨key, now, -, hdb, hrevoked, -⟩ |
    ⟨c, nonce, mine, refreshed, rfl, hcall, hsaved, hrevoked, -⟩ |
    ⟨key, credential, nonce, -, hsaved, hrevoked, -⟩
  · intro k hk row hrow
    rw [hrevoked] at hk
    rw [hdb] at hrow
    exact hm k hk row hrow
  · intro k hk row hrow hkey
    rw [hdb] at hrow
    rw [hrevoked] at hk
    rcases revoked_row hrow with ⟨-, hmarked⟩ | ⟨hother, hold⟩
    · exact hmarked
    · rcases List.mem_cons.mp hk with rfl | hk
      · exact absurd hkey hother
      · exact hm k hk row hold hkey
  · -- the triple of the refresh is not revoked: its row is stored, and it is not marked
    have hfree : mine.key ∉ s.revoked := by
      intro hmem
      obtain ⟨row, hrow, hkey⟩ := h.stored mine (call?_some hcall).1
      have hmarked := hm mine.key hmem row hrow hkey
      rw [hputs mine hcall row hrow hkey] at hmarked
      cases hmarked
    intro k hk row hrow hkey
    rw [hrevoked] at hk
    have hother : row.key ≠ mine.key := by
      rintro hsame
      exact hfree (hsame ▸ hkey ▸ hk)
    exact hm k hk row ((hsaved.others row hother).mp hrow) hkey
  · intro k hk row hrow hkey
    rw [hrevoked, List.mem_filter] at hk
    have hother : row.key ≠ key := by
      rw [hkey]
      exact of_decide_eq_true hk.2
    exact hm k hk.1 row ((hsaved.others row hother).mp hrow) hkey

/-- A refresh that puts over a revocation undoes it at once. -/
theorem CallInv.exact_step (h : CallInv s) {label : VaultStep}
    (hs : s.step vault getTime skewMs label = some t) (ht : Final vault t) :
    PutsUnrevoked s label := by
  cases label with
  | put c nonce =>
      intro call hcall row hrow hkey
      by_contra hmarked
      have hmem := (call?_some hcall).1
      have hrevoked : call.key ∈ s.revoked :=
        h.known call hmem row hrow hkey (Option.isSome_iff_ne_none.mpr hmarked)
      simp only [VaultRun.step, hcall] at hs
      split at hs
      · rename_i id key refreshed hsome
        cases hsome
        obtain ⟨db, hput⟩ := put_stored vault (h.stored _ hmem) refreshed nonce
        rw [hput] at hs
        cases hs
        have hsaved := Database.saveCredential_ok Vault.sealed_revokedAt (Vault.put_ok hput)
        obtain ⟨new, hnew, hnewKey⟩ := hsaved.stored
        have hset := (ht key hrevoked).2 new hnew hnewKey
        rw [(hsaved.fresh new hnew hnewKey).1] at hset
        cases hset
      · cases hs
  | get _ _ _ | refresh _ _ _ | abort _ | revoke _ _ | callback _ _ _ => trivial

/-- No call is in flight, and nothing is remembered as revoked. -/
structure Quiet (s : VaultRun) : Prop where
  calls : s.calls = []
  revoked : s.revoked = []
  nodup : (s.db.credentials.map CredentialRow.key).Nodup

theorem Quiet.inv (h : Quiet s) : CallInv s ∧ Marked s := by
  refine ⟨⟨h.nodup, ?_, ?_⟩, ?_⟩
  · simp [h.calls]
  · simp [h.calls]
  · simp [Marked, h.revoked]

/-- **Revocation is final, exactly.**  From any database with no call in flight, in a
run of any number of `getValid` calls, revocations and OAuth callbacks of any triples a
revocation is final in every state if and only if every refresh puts its credential
only while the stored one is not revoked. -/
theorem final_iff_putsUnrevoked (h : Quiet s) (run : List VaultStep) :
    Transition.EveryState (step vault getTime skewMs) (Final vault) s run ↔
      Transition.EveryStep (step vault getTime skewMs) PutsUnrevoked s run := by
  refine Transition.everyState_iff_everyStep (I := fun s => CallInv s ∧ Marked s)
    ?_ (fun _ hinv => hinv.2.final) (fun _ _ _ hinv hs ht => hinv.1.exact_step hs ht) h.inv
  intro u label v hinv hputs hs
  exact ⟨hinv.1.step hs, hinv.2.step hinv.1 hputs hs⟩

/-! ### A revocation during a refresh -/

/-- A cipher and a parser for one credential. -/
def demoVault (credential : ProviderCredential) : Vault where
  crypto :=
    { encrypt := fun _ _ _ => (List.replicate 16 0, [])
      decrypt := fun _ _ _ _ => some ""
      parse := fun _ => some credential }
  digest := fun _ => "0"
  keyVersion := "v1"

def demoKey : CredentialKey := ("t1", "u1", "gmail")

/-- An access token that has expired and can be refreshed. -/
def expired : ProviderCredential := ⟨"access", some "refresh", some "1970", ["mail"], none⟩

def oneUser : VaultRun where
  db := { Database.empty with users := [⟨"u1", "issuer", "subject"⟩] }
  calls := []
  revoked := []

theorem oneUser_quiet : Quiet oneUser := ⟨rfl, rfl, List.nodup_nil⟩

/-- The user disconnects while a refresh waits for the provider. -/
def revokedInFlight : List VaultStep :=
  [.callback demoKey expired (List.replicate 12 0), .get 1 demoKey 0, .revoke demoKey 1,
    .refresh 1 ⟨some "fresh", none, none, none⟩ 2, .put 1 (List.replicate 12 1)]

/-- The `put` of that refresh connects the user again. -/
theorem revokedInFlight_not_final :
    ¬ ∀ s : VaultRun, Quiet s → ∀ run,
      Transition.EveryState (step (demoVault expired) (fun _ => some 0) 60000)
        (Final (demoVault expired)) s run := by
  intro h
  obtain ⟨t, ht⟩ : ∃ t, Transition.exec (step (demoVault expired) (fun _ => some 0) 60000)
      oneUser revokedInFlight = some t := ⟨_, rfl⟩
  have hfinal : Final (demoVault expired) t := (h oneUser oneUser_quiet revokedInFlight).exec ht
  cases ht
  have hget := (hfinal demoKey List.mem_cons_self).1
  cases hget

/-- A revocation after the refresh has put its credential is final. -/
theorem final_iff_putsUnrevoked_settled :
    Transition.EveryState (step (demoVault expired) (fun _ => some 0) 60000)
      (Final (demoVault expired)) oneUser
      [.callback demoKey expired (List.replicate 12 0), .get 1 demoKey 0,
        .refresh 1 ⟨some "fresh", none, none, none⟩ 1, .put 1 (List.replicate 12 1),
        .revoke demoKey 2] := by
  rw [final_iff_putsUnrevoked oneUser_quiet]
  iterate 3
    refine fun t ht => ⟨trivial, ?_⟩
    cases ht
  refine fun t ht => ⟨?_, ?_⟩
  · intro call hcall row hrow _
    cases hcall
    rw [List.mem_singleton.mp hrow]
    rfl
  cases ht
  exact fun t ht => ⟨trivial, trivial⟩

end VaultRun

end RecruitingOs
