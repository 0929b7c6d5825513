import RecruitingOs.Domain.Models
import RecruitingOs.Lib.JsonParse

/-!
# Override requests

The body of `POST /api/admin/organizations/:id/opportunities/:opportunityId/override` in
`src/http/routes/recruiting.ts`: the schema that admits it, and the patch that the route
makes of it.  A field of the patch may be missing, `null` to clear it, or a value; the
route turns `null` into `undefined`.

The two text formats of the schema library and `new URL` are parameters.
-/

namespace RecruitingOs

/-- The parts of a `URL` that `safeHttpUrl` reads. -/
structure HttpUrl where
  protocol : String
  username : String
  password : String
  href : String
deriving Repr, DecidableEq

/-- The formats that the schema asks for; `parseUrl` is `new URL(text)`, `none` where it
throws. -/
structure Formats where
  /-- `z.string().datetime({ offset: true })`. -/
  datetime : String → Bool
  /-- `z.string().url()`. -/
  url : String → Bool
  parseUrl : String → Option HttpUrl
  datetime_empty : datetime "" = false

/-- `safeHttpUrl(value)`. -/
def safeHttpUrl (parseUrl : String → Option HttpUrl) (value : Option String) : Option String :=
  (value.filter (· ≠ "")).bind fun value => (parseUrl value).bind fun url =>
    if (url.protocol ≠ "http:" ∧ url.protocol ≠ "https:") ∨ url.username ≠ "" ∨ url.password ≠ ""
    then none else some url.href

/-- `text.length`, in UTF-16 code units. -/
def utf16Length (text : String) : ℕ :=
  (text.toList.map fun c => if c.toNat < 65536 then 1 else 2).sum

/-- The fields that a review can override. -/
inductive PatchField where
  | title
  | deadlineAt
  | startsAt
  | url
  | stale
deriving Repr, DecidableEq

/-- The key of a field. -/
def PatchField.key : PatchField → String
  | .title => "title"
  | .deadlineAt => "deadlineAt"
  | .startsAt => "startsAt"
  | .url => "url"
  | .stale => "stale"

/-- The fields, in the order of the schema. -/
def PatchField.all : List PatchField := [.title, .deadlineAt, .startsAt, .url, .stale]

/-- A submitted patch: the fields that it names, each with its value or `null`. -/
structure SubmittedPatch where
  title : Option String
  deadlineAt : Option (Option String)
  startsAt : Option (Option String)
  url : Option (Option String)
  stale : Option Bool
deriving Repr, DecidableEq

/-- What a patch says about a field: nothing, `null`, or a value. -/
def SubmittedPatch.field (patch : SubmittedPatch) : PatchField → Option (Option Json)
  | .title => patch.title.map fun text => some (.str text)
  | .deadlineAt => patch.deadlineAt.map fun value => value.map .str
  | .startsAt => patch.startsAt.map fun value => value.map .str
  | .url => patch.url.map fun value => value.map .str
  | .stale => patch.stale.map fun b => some (.bool b)

/-! ### The schema -/

namespace Schema

/-- `.optional()`. -/
def optional {α : Type} (read : Json → Option α) : Option Json → Option (Option α)
  | none => some none
  | some value => (read value).map some

/-- `.nullable()`. -/
def nullable {α : Type} (read : Json → Option α) : Json → Option (Option α)
  | .null => some none
  | value => (read value).map some

/-- `z.string().min(least).max(most)`. -/
def text (least most : ℕ) : Json → Option String
  | .str text => if least ≤ utf16Length text ∧ utf16Length text ≤ most then some text else none
  | _ => none

def datetime (formats : Formats) : Json → Option String
  | .str text => if formats.datetime text then some text else none
  | _ => none

/-- `z.string().url().max(2_048).refine((value) => Boolean(safeHttpUrl(value)), …)`. -/
def url (formats : Formats) : Json → Option String
  | .str text =>
      if formats.url text ∧ utf16Length text ≤ 2048 ∧
          (safeHttpUrl formats.parseUrl (some text)).any (· ≠ "") then some text else none
  | _ => none

def boolean : Json → Option Bool
  | .bool b => some b
  | _ => none

/-- The fields of a `.strict()` object with these keys. -/
def strict (keys : List String) : Json → Option (List (String × Json))
  | .obj fields => if fields.all (fun field => field.1 ∈ keys) then some fields else none
  | _ => none

end Schema

/-- The schema of a patch. -/
def SubmittedPatch.parse (formats : Formats) (value : Json) : Option SubmittedPatch := do
  let fields ← Schema.strict (PatchField.all.map PatchField.key) value
  let title ← Schema.optional (Schema.text 1 160) (fields.lookup "title")
  let deadlineAt ←
    Schema.optional (Schema.nullable (Schema.datetime formats)) (fields.lookup "deadlineAt")
  let startsAt ←
    Schema.optional (Schema.nullable (Schema.datetime formats)) (fields.lookup "startsAt")
  let url ← Schema.optional (Schema.nullable (Schema.url formats)) (fields.lookup "url")
  let stale ← Schema.optional Schema.boolean (fields.lookup "stale")
  return { title, deadlineAt, startsAt, url, stale }

/-- The body of a request. -/
structure OverrideBody where
  patch : SubmittedPatch
  reason : String
deriving Repr, DecidableEq

/-- The schema of a body. -/
def OverrideBody.parse (formats : Formats) (value : Json) : Option OverrideBody := do
  let fields ← Schema.strict ["patch", "reason"] value
  let patch ← (fields.lookup "patch").bind (SubmittedPatch.parse formats)
  let reason ← (fields.lookup "reason").bind (Schema.text 8 500)
  return { patch, reason }

/-! ### The patch of the route -/

/-- `Object.entries(body.patch)`: the schema keeps its own order. -/
def SubmittedPatch.entries (patch : SubmittedPatch) : List (String × Json) :=
  PatchField.all.filterMap fun f => (patch.field f).map fun value => (f.key, value.getD .null)

/-- `value ?? undefined`. -/
def orUndefined (value : Json) : Option Json := if value = .null then none else some value

/-- `Object.fromEntries(Object.entries(body.patch).map(([key, value]) => [key, value ??
undefined]))`: a key without a value has `undefined`. -/
def routePatch (patch : SubmittedPatch) : List (String × Option Json) :=
  patch.entries.map fun (key, value) => (key, orUndefined value)

/-- The values of an admitted patch, except the flag, are texts that are not empty. -/
def SubmittedPatch.Admitted (patch : SubmittedPatch) : Prop :=
  ∀ f value, patch.field f = some (some value) →
    f = .stale ∨ ∃ text, value = .str text ∧ text ≠ ""

section Admitted

variable {formats : Formats}

theorem optional_eq_some {α : Type} {read : Json → Option α} {value : Option Json} {a : α}
    (h : Schema.optional read value = some (some a)) : ∃ v, value = some v ∧ read v = some a := by
  cases value with
  | none => cases h
  | some v =>
      obtain ⟨b, hread, hb⟩ := Option.map_eq_some_iff.mp h
      cases hb
      exact ⟨v, rfl, hread⟩

theorem nullable_eq_some {α : Type} {read : Json → Option α} {value : Json} {a : α}
    (h : Schema.nullable read value = some (some a)) : read value = some a := by
  unfold Schema.nullable at h
  split at h
  · cases h
  · obtain ⟨b, hread, hb⟩ := Option.map_eq_some_iff.mp h
    cases hb
    exact hread

theorem text_ne_empty {most : ℕ} {value : Json} {t : String}
    (h : Schema.text 1 most value = some t) : t ≠ "" := by
  unfold Schema.text at h
  split at h
  · split at h
    · rename_i hlength
      cases h
      rintro rfl
      exact absurd hlength.1 (by decide)
    · cases h
  · cases h

theorem datetime_ne_empty {value : Json} {t : String}
    (h : Schema.datetime formats value = some t) : t ≠ "" := by
  unfold Schema.datetime at h
  split at h
  · split at h
    · rename_i hformat
      cases h
      rintro rfl
      rw [formats.datetime_empty] at hformat
      cases hformat
    · cases h
  · cases h

/-- `safeHttpUrl` refuses the empty text. -/
theorem url_ne_empty {value : Json} {t : String} (h : Schema.url formats value = some t) :
    t ≠ "" := by
  unfold Schema.url at h
  split at h
  · split at h
    · rename_i hurl
      cases h
      rintro rfl
      have hrefused : safeHttpUrl formats.parseUrl (some "") = none := rfl
      rw [hrefused] at hurl
      cases hurl.2.2
    · cases h
  · cases h

/-- **The schema admits no empty text.** -/
theorem SubmittedPatch.parse_admitted {value : Json} {patch : SubmittedPatch}
    (h : SubmittedPatch.parse formats value = some patch) : patch.Admitted := by
  unfold SubmittedPatch.parse at h
  simp only [Option.bind_eq_bind, Option.bind_eq_some_iff] at h
  obtain ⟨fields, -, title, htitle, deadlineAt, hdeadline, startsAt, hstarts, url, hurl, stale, -,
    hpatch⟩ := h
  cases hpatch
  intro f v hv
  cases f with
  | title =>
      obtain ⟨text, rfl, hsome⟩ := Option.map_eq_some_iff.mp hv
      cases hsome
      obtain ⟨w, -, hread⟩ := optional_eq_some htitle
      exact .inr ⟨text, rfl, text_ne_empty hread⟩
  | deadlineAt =>
      obtain ⟨named, rfl, hsome⟩ := Option.map_eq_some_iff.mp hv
      obtain ⟨text, rfl, rfl⟩ := Option.map_eq_some_iff.mp hsome
      obtain ⟨w, -, hread⟩ := optional_eq_some hdeadline
      exact .inr ⟨text, rfl, datetime_ne_empty (nullable_eq_some hread)⟩
  | startsAt =>
      obtain ⟨named, rfl, hsome⟩ := Option.map_eq_some_iff.mp hv
      obtain ⟨text, rfl, rfl⟩ := Option.map_eq_some_iff.mp hsome
      obtain ⟨w, -, hread⟩ := optional_eq_some hstarts
      exact .inr ⟨text, rfl, datetime_ne_empty (nullable_eq_some hread)⟩
  | url =>
      obtain ⟨named, rfl, hsome⟩ := Option.map_eq_some_iff.mp hv
      obtain ⟨text, rfl, rfl⟩ := Option.map_eq_some_iff.mp hsome
      obtain ⟨w, -, hread⟩ := optional_eq_some hurl
      exact .inr ⟨text, rfl, url_ne_empty (nullable_eq_some hread)⟩
  | stale => exact .inl rfl

end Admitted

end RecruitingOs
