import Mathlib.Logic.Equiv.List
import RecruitingOs.Vault.Credentials

/-!
# Credentials and their owners

The triple of a credential is the associated data of its cipher, joined by colons.  User ids and
providers have none, so the triple is read off, whatever the tenant id is, and a payload in the row
of another triple is not decrypted (`get_put_bound`).
-/

namespace RecruitingOs

open Database (CredentialKey)

/-- `OAuthProvider`. -/
inductive OAuthProvider where
  | gmail
  | groupme
  | instagram
  | linkedin
deriving Repr, DecidableEq

/-- The text of a provider. -/
def OAuthProvider.text : OAuthProvider → String
  | .gmail => "gmail"
  | .groupme => "groupme"
  | .instagram => "instagram"
  | .linkedin => "linkedin"

/-- A digit of a digest. -/
def isHexDigit (c : Char) : Bool := c.isDigit ∨ ('a' ≤ c ∧ c ≤ 'f')

/-- The owner of a credential: any tenant, a user with the id that `stableId('usr', …)` gives, and
a provider. -/
structure CredentialOwner where
  tenantId : String
  digest : String
  isDigest : digest.length = 24 ∧ digest.toList.all isHexDigit
  provider : OAuthProvider
deriving DecidableEq

namespace CredentialOwner

def userId (owner : CredentialOwner) : String := "usr_" ++ owner.digest

/-- The triple that selects the row. -/
def key (owner : CredentialOwner) : CredentialKey :=
  (owner.tenantId, owner.userId, owner.provider.text)

variable {owner other : CredentialOwner}

theorem colon_notMem_provider : ∀ provider : OAuthProvider, ':' ∉ provider.text.toList := by
  rintro ⟨⟩ <;> decide

theorem colon_notMem_userId (owner : CredentialOwner) : ':' ∉ owner.userId.toList := by
  unfold userId
  rw [String.toList_append, List.mem_append]
  rintro (hmem | hmem)
  · exact absurd hmem (by decide)
  · exact absurd (List.all_eq_true.mp owner.isDigest.2 _ hmem) (by decide)

theorem provider_text_inj : ∀ a b : OAuthProvider, a.text = b.text → a = b := by
  rintro ⟨⟩ ⟨⟩ <;> decide

theorem ext_key (h : owner.key = other.key) : owner = other := by
  obtain ⟨tenantId, digest, hdigest, provider⟩ := owner
  obtain ⟨tenantId', digest', hdigest', provider'⟩ := other
  obtain ⟨htenant, huser, hprovider⟩ :
      tenantId = tenantId' ∧ "usr_" ++ digest = "usr_" ++ digest' ∧
        provider.text = provider'.text := by
    simpa [key, userId] using h
  rw [CredentialOwner.mk.injEq]
  exact ⟨htenant, (String.append_right_inj _).mp huser, provider_text_inj _ _ hprovider⟩

/-- **The joined triple** determines its owner, with any colons in the tenant id. -/
theorem aad_inj (h : Vault.aad owner.key = Vault.aad other.key) : owner = other := by
  have hassoc (k : CredentialKey) : Vault.aad k = (k.1 ++ (":" ++ k.2.1)) ++ (":" ++ k.2.2) := by
    simp only [Vault.aad, String.append_assoc]
  rw [hassoc, hassoc] at h
  obtain ⟨hfront, hprovider⟩ := last_colon_inj (colon_notMem_provider owner.provider)
    (colon_notMem_provider other.provider) h
  obtain ⟨htenant, huser⟩ := last_colon_inj (colon_notMem_userId owner)
    (colon_notMem_userId other) hfront
  exact ext_key (Prod.ext htenant (Prod.ext huser hprovider))

end CredentialOwner

/-- What the vault relies on to tell owners apart: a ciphertext is decrypted under the nonce and the
associated data that it was produced with, and under no other data. -/
structure VaultCrypto.Authentic (crypto : VaultCrypto) : Prop extends crypto.Lawful where
  rejects : ∀ nonce aad other text, other ≠ aad →
    crypto.decrypt nonce other (crypto.encrypt nonce aad text).1 (crypto.encrypt nonce aad text).2 =
      none

namespace Vault

variable {vault : Vault} {key other : CredentialKey} {credential : ProviderCredential}
  {nonce : List UInt8}

/-- A sealed payload falls apart into the nonce, the tag and the ciphertext, of any length. -/
theorem sealed_parts (hlaw : vault.crypto.Lawful) (hnonce : nonce.length = 12) :
    (vault.sealed key credential nonce).encryptedPayload.take 12 = nonce ∧
      ((vault.sealed key credential nonce).encryptedPayload.drop 12).take 16 =
        (vault.crypto.encrypt nonce (aad key) credential.stringify).1 ∧
      (vault.sealed key credential nonce).encryptedPayload.drop 28 =
        (vault.crypto.encrypt nonce (aad key) credential.stringify).2 := by
  have htag := hlaw.tag_length nonce (aad key) credential.stringify
  have hbytes : (vault.sealed key credential nonce).encryptedPayload =
      nonce ++ ((vault.crypto.encrypt nonce (aad key) credential.stringify).1 ++
        (vault.crypto.encrypt nonce (aad key) credential.stringify).2) :=
    List.append_assoc _ _ _
  rw [hbytes]
  refine ⟨?_, ?_, ?_⟩
  · rw [← hnonce, List.take_left]
  · rw [← hnonce, List.drop_left, ← htag, List.take_left]
  · have hlength : 28 = nonce.length +
        (vault.crypto.encrypt nonce (aad key) credential.stringify).1.length := by omega
    rw [hlength, ← List.drop_drop, List.drop_left, List.drop_left]

/-- Under another triple it is not opened. -/
theorem opened_other (hlaw : vault.crypto.Authentic) (hnonce : nonce.length = 12)
    (hne : aad other ≠ aad key) {row : CredentialRow}
    (hpayload : row.encryptedPayload = (vault.sealed key credential nonce).encryptedPayload) :
    ∃ error, vault.opened other row = .error error := by
  obtain ⟨hfirst, htag, hrest⟩ :=
    @sealed_parts vault key credential nonce hlaw.toLawful hnonce
  unfold opened
  split
  · exact ⟨_, rfl⟩
  · rw [hpayload]
    dsimp only
    rw [hfirst, htag, hrest, hlaw.rejects _ _ _ _ hne]
    exact ⟨_, rfl⟩

/-- The vault answers for a row: a revoked one is no credential, and another one fails. -/
def Withheld (vault : Vault) (db : Database) (key : CredentialKey) (row : CredentialRow) : Prop :=
  if row.revokedAt.isSome then vault.get db key = .ok none
  else ∃ error, vault.get db key = .error error

/-- **Credentials** are got as they were put, and the payload that is stored for an owner is of no
use in the row of another one: there the vault throws, unless that row is revoked. -/
theorem get_put_bound (vault : Vault) (hlaw : vault.crypto.Authentic) (owner : CredentialOwner)
    (credential : ProviderCredential) (nonce : List UInt8) (hnonce : nonce.length = 12)
    (hjson : vault.crypto.parse credential.stringify = some credential) (db db' : Database)
    (hput : vault.put db owner.key credential nonce = .ok db') :
    vault.get db' owner.key = .ok (some credential) ∧
      ∃ stored, db'.findCredential owner.key = some stored ∧
        ∀ other, other ≠ owner → ∀ later row, later.findCredential other.key = some row →
          row.encryptedPayload = stored.encryptedPayload → Withheld vault later other.key row := by
  refine ⟨get_put hlaw.toLawful hnonce hjson hput, ?_⟩
  have hsaved := Database.saveCredential_ok sealed_revokedAt (put_ok hput)
  obtain ⟨saved, hsavedMem, hsavedKey⟩ := hsaved.stored
  have hsome : (db'.findCredential owner.key).isSome := by
    unfold Database.findCredential
    rw [List.find?_isSome]
    exact ⟨saved, hsavedMem, decide_eq_true hsavedKey⟩
  obtain ⟨stored, hstored⟩ := Option.isSome_iff_exists.mp hsome
  have hkey : stored.key = owner.key := by simpa using List.find?_some hstored
  obtain ⟨-, hpayload, -⟩ := hsaved.fresh stored (List.mem_of_find?_eq_some hstored) hkey
  refine ⟨stored, hstored, fun other hne later row hrow hplaced => ?_⟩
  have hdata : aad other.key ≠ aad owner.key := fun h => hne (CredentialOwner.aad_inj h)
  obtain ⟨error, herror⟩ := opened_other hlaw hnonce hdata (hplaced.trans hpayload)
  unfold Withheld get
  rw [hrow]
  dsimp only
  split
  · rfl
  · exact ⟨error, by rw [herror]; rfl⟩

/-! ### A cipher that tells associated data apart -/

/-- The code of a text. -/
def codes (text : String) : List ℕ := text.toList.map Char.toNat

theorem codes_inj {a b : String} (h : codes a = codes b) : a = b :=
  String.toList_injective (List.map_injective_iff.mpr (fun _ _ h => Char.toNat_inj.mp h) h)

theorem ofCodes_codes (text : String) : String.ofList ((codes text).map Char.ofNat) = text := by
  have hsame : (codes text).map Char.ofNat = text.toList := by
    rw [codes, List.map_map]
    exact (List.map_congr_left fun c _ => Char.ofNat_toNat c).trans (List.map_id _)
  rw [hsame, String.ofList_toList]

/-- The ciphertext counts up to the code of the data and the text. -/
def countingVault (credential : ProviderCredential) : Vault where
  crypto :=
    { encrypt := fun _ aad text =>
        (List.replicate 16 0, List.replicate (Encodable.encode (codes aad, codes text)) 1)
      decrypt := fun _ aad _ ciphertext =>
        match (Encodable.decode ciphertext.length : Option (List ℕ × List ℕ)) with
        | some (data, text) =>
            if data = codes aad then some (String.ofList (text.map Char.ofNat)) else none
        | none => none
      parse := fun text => if text = credential.stringify then some credential else none }
  digest := fun _ => "0"
  keyVersion := "v1"

theorem countingVault_authentic (credential : ProviderCredential) :
    (countingVault credential).crypto.Authentic where
  tag_length _ _ _ := rfl
  decrypt_encrypt nonce aad text := by
    simp [countingVault, ofCodes_codes]
  rejects nonce aad other text hne := by
    have hdata : codes aad ≠ codes other := fun h => hne (codes_inj h).symm
    simp [countingVault, hdata]

/-- A credential that does not expire. -/
def lasting : ProviderCredential := ⟨"access", none, none, ["mail"], none⟩

theorem countingVault_parse :
    (countingVault lasting).crypto.parse lasting.stringify = some lasting := by
  show (if lasting.stringify = lasting.stringify then some lasting else none) = some lasting
  rw [if_pos rfl]

/-- An owner whose tenant id has colons. -/
def colonOwner : CredentialOwner :=
  ⟨"a:b:c", "0123456789abcdef01234567", by decide, .gmail⟩

def ownerRegistered : Database :=
  { Database.empty with users := [⟨colonOwner.userId, "issuer", "subject"⟩] }

theorem put_lasting : ∃ db, (countingVault lasting).put ownerRegistered colonOwner.key lasting
    (List.replicate 12 0) = .ok db := ⟨_, rfl⟩

/-- The credential of such an owner. -/
theorem get_put_bound_colons : ∃ db, (countingVault lasting).put ownerRegistered colonOwner.key
      lasting (List.replicate 12 0) = .ok db ∧
    (countingVault lasting).get db colonOwner.key = .ok (some lasting) ∧
      ∃ stored, db.findCredential colonOwner.key = some stored ∧
        ∀ other, other ≠ colonOwner → ∀ later row, later.findCredential other.key = some row →
          row.encryptedPayload = stored.encryptedPayload →
            Withheld (countingVault lasting) later other.key row := by
  obtain ⟨db, hput⟩ := put_lasting
  exact ⟨db, hput, get_put_bound (countingVault lasting) (countingVault_authentic lasting) colonOwner
    lasting (List.replicate 12 0) rfl countingVault_parse ownerRegistered db hput⟩

/-- In a revoked row the payload of another owner is not tried. -/
theorem get_put_not_bound :
    ¬ ∀ (vault : Vault), vault.crypto.Authentic → ∀ (owner : CredentialOwner)
      (credential : ProviderCredential) (nonce : List UInt8), nonce.length = 12 →
      vault.crypto.parse credential.stringify = some credential → ∀ db db' : Database,
      vault.put db owner.key credential nonce = .ok db' →
        vault.get db' owner.key = .ok (some credential) ∧
        ∃ stored, db'.findCredential owner.key = some stored ∧
          ∀ other, other ≠ owner → ∀ later row, later.findCredential other.key = some row →
            row.encryptedPayload = stored.encryptedPayload →
              ∃ error, vault.get later other.key = .error error := by
  intro h
  obtain ⟨db, hput⟩ := put_lasting
  obtain ⟨-, stored, -, hthrows⟩ := h (countingVault lasting) (countingVault_authentic lasting)
    colonOwner lasting (List.replicate 12 0) rfl countingVault_parse ownerRegistered db hput
  obtain ⟨error, herror⟩ := hthrows { colonOwner with tenantId := "a" }
    (fun h => absurd (congrArg CredentialOwner.tenantId h) (by decide))
    { Database.empty with credentials := [⟨"cred_0", "a", colonOwner.userId, "gmail",
      stored.encryptedPayload, "v1", [], none, some 0⟩] } _ rfl rfl
  cases herror

end Vault

end RecruitingOs
