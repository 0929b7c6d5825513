import RecruitingOs.Lib.IsoTime
import RecruitingOs.Store.Schema

/-!
# Provider credentials

The credential repositories, which execute the same statements on SQLite and on
Postgres, the vault of `encrypted-credential-vault.ts` over them, and the refresh of
`provider-oauth-service.ts`.

The cipher and the JSON parser are not part of the repository: `VaultCrypto` has what
the vault calls, and `VaultCrypto.Lawful` what it relies on.
-/

namespace RecruitingOs

/-- `ProviderCredential`. -/
structure ProviderCredential where
  accessToken : String
  refreshToken : Option String
  expiresAt : Option String
  scopes : List String
  metadata : Option Json
deriving Repr, DecidableEq

/-- `JSON.stringify(credential)`. -/
def ProviderCredential.stringify (credential : ProviderCredential) : String :=
  let field (key : String) (value : Option Json) := (value.map fun json => (key, json)).toList
  Json.stringify (.obj
    ([("accessToken", .str credential.accessToken)] ++
      field "refreshToken" (credential.refreshToken.map .str) ++
      field "expiresAt" (credential.expiresAt.map .str) ++
      [("scopes", .arr (credential.scopes.map .str))] ++
      field "metadata" credential.metadata))

/-! ### The repository -/

namespace Database

/-- The key of a credential, as the repositories select it. -/
abbrev CredentialKey := String × String × String

/-- `find(tenantId, userId, provider)`. -/
def findCredential (db : Database) (key : CredentialKey) : Option CredentialRow :=
  db.credentials.find? fun row => row.key = key

/-- `save(value)`: the upsert clears `revoked_at`. -/
def saveCredential (db : Database) (value : CredentialRow) : Except StoreError Database :=
  let refresh (old : CredentialRow) : CredentialRow :=
    { old with
      encryptedPayload := value.encryptedPayload
      keyVersion := value.keyVersion
      scopes := value.scopes
      expiresAt := value.expiresAt
      revokedAt := none }
  let saved := Table.upsert CredentialRow.key refresh db.credentials value
  if (db.findCredential value.key).isSome then .ok { db with credentials := saved }
  else if ¬ db.users.any fun user => user.id = value.userId then .error (.foreignKey "credentials")
  else if db.credentials.any fun old => old.id = value.id then .error (.unique "credentials.id")
  else .ok { db with credentials := saved }

/-- `revoke(tenantId, userId, provider)`. -/
def revokeCredential (db : Database) (key : CredentialKey) (now : ℤ) : Database :=
  { db with
    credentials := Table.updateWhere (fun row => row.key = key)
      (fun row => { row with revokedAt := some now }) db.credentials }

/-- What a `save` that returns has done. -/
theorem saveCredential_upsert {db db' : Database} {value : CredentialRow}
    (h : db.saveCredential value = .ok db') : ∃ refresh : CredentialRow → CredentialRow,
      db' = { db with
        credentials := Table.upsert CredentialRow.key refresh db.credentials value } ∧
      ∀ old, (refresh old).key = old.key ∧ (refresh old).revokedAt = none ∧
        (refresh old).encryptedPayload = value.encryptedPayload ∧
        (refresh old).keyVersion = value.keyVersion := by
  unfold saveCredential at h
  dsimp only at h
  split at h
  · cases h
    exact ⟨_, rfl, fun _ => ⟨rfl, rfl, rfl, rfl⟩⟩
  · split at h
    · cases h
    · split at h
      · cases h
      · cases h
        exact ⟨_, rfl, fun _ => ⟨rfl, rfl, rfl, rfl⟩⟩

/-- The row of the saved key is new and not revoked; the other rows are as they were. -/
structure Saved (db db' : Database) (value : CredentialRow) : Prop where
  only : db' = { db with credentials := db'.credentials }
  stored : ∃ row ∈ db'.credentials, row.key = value.key
  fresh : ∀ row ∈ db'.credentials, row.key = value.key → row.revokedAt = none ∧
    row.encryptedPayload = value.encryptedPayload ∧ row.keyVersion = value.keyVersion
  others : ∀ row, row.key ≠ value.key → (row ∈ db'.credentials ↔ row ∈ db.credentials)
  nodup : (db.credentials.map CredentialRow.key).Nodup →
    (db'.credentials.map CredentialRow.key).Nodup

theorem saveCredential_ok {db db' : Database} {value : CredentialRow}
    (hnew : value.revokedAt = none) (h : db.saveCredential value = .ok db') :
    Saved db db' value := by
  obtain ⟨refresh, rfl, hrefresh⟩ := saveCredential_upsert h
  refine ⟨rfl, ?_, fun row hrow hkey => ?_, fun row hkey => ?_, fun hn => ?_⟩
  · by_cases hany : ∃ old ∈ db.credentials, old.key = value.key
    · obtain ⟨old, hold, hkey⟩ := hany
      exact ⟨refresh old, Table.mem_upsert.mpr (.inr (.inl ⟨old, hold, hkey, rfl⟩)),
        (hrefresh old).1.trans hkey⟩
    · refine ⟨value, Table.mem_upsert.mpr (.inr (.inr ⟨fun old hold hkey => ?_, rfl⟩)), rfl⟩
      exact hany ⟨old, hold, hkey⟩
  · rcases Table.mem_upsert.mp hrow with ⟨-, hother⟩ | ⟨old, -, -, rfl⟩ | ⟨-, rfl⟩
    · exact absurd hkey hother
    · exact (hrefresh old).2
    · exact ⟨hnew, rfl, rfl⟩
  · constructor
    · intro hrow
      rcases Table.mem_upsert.mp hrow with ⟨hold, -⟩ | ⟨old, -, hold, rfl⟩ | ⟨-, rfl⟩
      · exact hold
      · exact absurd ((hrefresh old).1.trans hold) hkey
      · exact absurd rfl hkey
    · intro hrow
      exact Table.mem_upsert.mpr (.inl ⟨hrow, hkey⟩)
  · exact Table.nodup_key_upsert hn fun old _ hold => (hrefresh old).1.trans hold

/-- A `save` of a key that is there already returns. -/
theorem saveCredential_of_mem {db : Database} (value : CredentialRow) {row : CredentialRow}
    (hrow : row ∈ db.credentials) (hkey : row.key = value.key) :
    ∃ db', db.saveCredential value = .ok db' := by
  have hfind : (db.findCredential value.key).isSome := by
    unfold findCredential
    rw [List.find?_isSome]
    exact ⟨row, hrow, decide_eq_true hkey⟩
  unfold saveCredential
  rw [if_pos hfind]
  exact ⟨_, rfl⟩

end Database

/-! ### The vault -/

/-- AES-256-GCM under the master key, and `JSON.parse` of a credential. -/
structure VaultCrypto where
  /-- The authentication tag and the ciphertext. -/
  encrypt : (nonce : List UInt8) → (aad plaintext : String) → List UInt8 × List UInt8
  decrypt : (nonce : List UInt8) → (aad : String) → (tag ciphertext : List UInt8) → Option String
  parse : String → Option ProviderCredential

/-- What the vault throws. -/
inductive VaultError where
  | keyRotation
  | decryption
  | json
  | store (e : StoreError)
deriving Repr, DecidableEq

/-- The text of the thrown error, where it is the vault's own. -/
def VaultError.message : VaultError → Option String
  | .keyRotation => some "Credential requires key rotation"
  | .decryption | .json => none
  | .store e => some e.message

/-- `EncryptedCredentialVault`, with its configuration. -/
structure Vault where
  crypto : VaultCrypto
  digest : String → String
  keyVersion : String

namespace Vault

open Database (CredentialKey)

/-- `${tenantId}:${userId}:${provider}`. -/
def aad (key : CredentialKey) : String := key.1 ++ ":" ++ key.2.1 ++ ":" ++ key.2.2

/-- The row that `put` saves. -/
def sealed (vault : Vault) (key : CredentialKey) (credential : ProviderCredential)
    (nonce : List UInt8) : CredentialRow :=
  let (tag, ciphertext) := vault.crypto.encrypt nonce (aad key) credential.stringify
  { id := stableId vault.digest "cred" (aad key)
    tenantId := key.1
    userId := key.2.1
    provider := key.2.2
    encryptedPayload := nonce ++ tag ++ ciphertext
    keyVersion := vault.keyVersion
    scopes := credential.scopes
    expiresAt := credential.expiresAt
    revokedAt := none }

/-- `put(tenantId, userId, provider, credential)`. -/
def put (vault : Vault) (db : Database) (key : CredentialKey) (credential : ProviderCredential)
    (nonce : List UInt8) : Except VaultError Database :=
  (db.saveCredential (vault.sealed key credential nonce)).mapError .store

/-- The credential of a stored row. -/
def opened (vault : Vault) (key : CredentialKey) (stored : CredentialRow) :
    Except VaultError ProviderCredential :=
  if stored.keyVersion ≠ vault.keyVersion then .error .keyRotation
  else
    let nonce := stored.encryptedPayload.take 12
    let tag := (stored.encryptedPayload.drop 12).take 16
    let ciphertext := stored.encryptedPayload.drop 28
    match vault.crypto.decrypt nonce (aad key) tag ciphertext with
    | none => .error .decryption
    | some text =>
        match vault.crypto.parse text with
        | none => .error .json
        | some credential => .ok credential

/-- `get(tenantId, userId, provider)`. -/
def get (vault : Vault) (db : Database) (key : CredentialKey) :
    Except VaultError (Option ProviderCredential) :=
  match db.findCredential key with
  | none => .ok none
  | some stored =>
      if stored.revokedAt.isSome then .ok none else (vault.opened key stored).map some

/-- `revoke(tenantId, userId, provider)`. -/
def revoke (db : Database) (key : CredentialKey) (now : ℤ) : Database :=
  db.revokeCredential key now

end Vault

/-- What the vault relies on: decryption under the same nonce and associated data
inverts encryption, and the tag has sixteen bytes. -/
structure VaultCrypto.Lawful (crypto : VaultCrypto) : Prop where
  tag_length : ∀ nonce aad text, (crypto.encrypt nonce aad text).1.length = 16
  decrypt_encrypt : ∀ nonce aad text,
    crypto.decrypt nonce aad (crypto.encrypt nonce aad text).1
      (crypto.encrypt nonce aad text).2 = some text

namespace Vault

open Database (CredentialKey)

variable {vault : Vault} {db db' : Database} {key : CredentialKey}
  {credential : ProviderCredential} {nonce : List UInt8}

@[simp] theorem sealed_revokedAt : (vault.sealed key credential nonce).revokedAt = none := rfl

theorem put_ok (h : vault.put db key credential nonce = .ok db') :
    db.saveCredential (vault.sealed key credential nonce) = .ok db' := by
  unfold put at h
  cases hsave : db.saveCredential (vault.sealed key credential nonce) with
  | error e =>
      rw [hsave] at h
      cases h
  | ok saved =>
      rw [hsave] at h
      cases h
      rfl

/-- What has been sealed is opened again. -/
theorem opened_sealed (hlaw : vault.crypto.Lawful) (hnonce : nonce.length = 12)
    (hparse : vault.crypto.parse credential.stringify = some credential) {row : CredentialRow}
    (hpayload : row.encryptedPayload = (vault.sealed key credential nonce).encryptedPayload)
    (hversion : row.keyVersion = vault.keyVersion) :
    vault.opened key row = .ok credential := by
  obtain ⟨tag, ciphertext, henc⟩ : ∃ tag ciphertext,
      vault.crypto.encrypt nonce (aad key) credential.stringify = (tag, ciphertext) := ⟨_, _, rfl⟩
  have htag : tag.length = 16 := by
    have := hlaw.tag_length nonce (aad key) credential.stringify
    rwa [henc] at this
  have hdecrypt : vault.crypto.decrypt nonce (aad key) tag ciphertext =
      some credential.stringify := by
    have := hlaw.decrypt_encrypt nonce (aad key) credential.stringify
    rwa [henc] at this
  have hbytes : row.encryptedPayload = nonce ++ (tag ++ ciphertext) := by
    rw [hpayload]
    simp [sealed, henc]
  have hnonce' : row.encryptedPayload.take 12 = nonce := by
    rw [hbytes, ← hnonce, List.take_left]
  have htag' : (row.encryptedPayload.drop 12).take 16 = tag := by
    rw [hbytes, ← hnonce, List.drop_left, ← htag, List.take_left]
  have hcipher' : row.encryptedPayload.drop 28 = ciphertext := by
    have hlength : 28 = nonce.length + tag.length := by omega
    rw [hbytes, hlength, ← List.drop_drop, List.drop_left, List.drop_left]
  unfold opened
  rw [if_neg (not_not.mpr hversion)]
  simp only [hnonce', htag', hcipher', hdecrypt, hparse]

/-- **Round trip.**  What the vault has put it gets, until the credential is revoked. -/
theorem get_put (hlaw : vault.crypto.Lawful) (hnonce : nonce.length = 12)
    (hparse : vault.crypto.parse credential.stringify = some credential)
    (h : vault.put db key credential nonce = .ok db') :
    vault.get db' key = .ok (some credential) := by
  have hsaved := Database.saveCredential_ok sealed_revokedAt (put_ok h)
  obtain ⟨row, hrow, hkey⟩ := hsaved.stored
  have hsome : (db'.findCredential key).isSome := by
    unfold Database.findCredential
    rw [List.find?_isSome]
    exact ⟨row, hrow, decide_eq_true hkey⟩
  obtain ⟨found, hfound⟩ := Option.isSome_iff_exists.mp hsome
  have hfoundKey : found.key = key := by simpa using List.find?_some hfound
  obtain ⟨hrevoked, hpayload, hversion⟩ :=
    hsaved.fresh found (List.mem_of_find?_eq_some hfound) hfoundKey
  unfold get
  rw [hfound]
  dsimp only
  rw [hrevoked, opened_sealed hlaw hnonce hparse hpayload hversion]
  rfl

end Vault

/-! ### Refreshing -/

/-- The answer of the token endpoint. -/
structure TokenAnswer where
  accessToken : Option String
  refreshToken : Option String
  expiresIn : Option ℕ
  scope : Option String
deriving Repr, DecidableEq

/-- `scope.split(/[ ,]+/).filter(Boolean)`. -/
def splitScopes (scope : String) : List String :=
  ((scope.toList.splitOnP fun c => c = ' ' ∨ c = ',').filter (· ≠ [])).map String.ofList

/-- `refresh(provider, credential)`; `none` where it throws. -/
def refreshCredential (credential : ProviderCredential) (token : TokenAnswer) (now : ℤ) :
    Option ProviderCredential :=
  match credential.refreshToken.filter (· ≠ ""), token.accessToken.filter (· ≠ "") with
  | some refreshToken, some accessToken =>
      some
        { accessToken := accessToken
          refreshToken := token.refreshToken.or (some refreshToken)
          expiresAt :=
            match token.expiresIn.filter (· ≠ 0) with
            | some seconds => some (IsoTime.toISOString (now + seconds * 1000))
            | none => credential.expiresAt
          scopes := (token.scope.filter (· ≠ "")).elim credential.scopes splitScopes
          metadata := credential.metadata }
  | _, _ => none

/-- `needsRefresh(credential)`; `none` where it throws. -/
def needsRefresh (getTime : String → Option ℤ) (skewMs : ℤ) (credential : ProviderCredential)
    (now : ℤ) : Option Bool :=
  match credential.expiresAt.filter (· ≠ "") with
  | none => some false
  | some expiresAt => (getTime expiresAt).map fun time => time ≤ now + skewMs

end RecruitingOs
