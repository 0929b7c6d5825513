import RecruitingOs.Http.OverrideRequest
import RecruitingOs.Ingest.Resolution

/-!
# Stored overrides and listed opportunities

The `patch` column of `opportunity_overrides` has the text that `JSON.stringify` makes of
the route's object, and `listOpportunityOverrides` parses it again.  `JSON.stringify` drops
a key whose value is `undefined` (`storedEntries_objectText`), so what a stored patch says
about a field is what was submitted, except that it says nothing where that was `null`
(`ofText_field`).

`listOpportunities` reads the other table; `TextColumn` is what the driver returns for a
value that was bound to a text column.
-/

namespace RecruitingOs

/-- `JSON.stringify(object)`, where a value may be `undefined`. -/
def objectText (entries : List (String × Option Json)) : String :=
  Json.stringify (.obj (entries.filterMap fun entry => entry.2.map (Prod.mk entry.1)))

/-- `parseJsonSafe(text, {})`. -/
def parseObject (text : String) : Json := (Json.parse text).getD (.obj [])

/-- The entries of the object that is read back. -/
def storedEntries (text : String) : List (String × Option Json) :=
  match parseObject text with
  | .obj fields => fields.map fun (key, value) => (key, some value)
  | _ => []

/-- A text, as the value of a field. -/
def textOf : Option Json → Option String
  | some (.str text) => some text
  | _ => none

/-- A boolean, as the value of a field. -/
def boolOf : Option Json → Option Bool
  | some (.bool b) => some b
  | _ => none

/-- The patch of a row. -/
def OpportunityPatch.ofText (text : String) : OpportunityPatch where
  title := textOf ((parseObject text).get? "title")
  deadlineAt := textOf ((parseObject text).get? "deadlineAt")
  startsAt := textOf ((parseObject text).get? "startsAt")
  url := textOf ((parseObject text).get? "url")
  stale := boolOf ((parseObject text).get? "stale")

/-- What a stored patch says about a field. -/
def OpportunityPatch.field (patch : OpportunityPatch) : PatchField → Option Json
  | .title => patch.title.map .str
  | .deadlineAt => patch.deadlineAt.map .str
  | .startsAt => patch.startsAt.map .str
  | .url => patch.url.map .str
  | .stale => patch.stale.map .bool

/-! ### The round trip of a patch -/

theorem printableFields_of {fields : List (String × Json)}
    (h : ∀ field ∈ fields, field.2.printable) : Json.printableFields fields := by
  induction fields with
  | nil => rfl
  | cons field rest ih =>
      rw [Json.printableFields, decide_eq_true_eq]
      exact ⟨h field List.mem_cons_self, ih fun f hf => h f (List.mem_cons_of_mem _ hf)⟩

theorem parseObject_objectText {entries : List (String × Option Json)}
    (h : ∀ entry ∈ entries, ∀ value, entry.2 = some value → value.printable) :
    parseObject (objectText entries) =
      .obj (entries.filterMap fun entry => entry.2.map (Prod.mk entry.1)) := by
  have hprintable : Json.printable
      (.obj (entries.filterMap fun entry => entry.2.map (Prod.mk entry.1))) := by
    refine printableFields_of fun field hfield => ?_
    obtain ⟨entry, hentry, hmap⟩ := List.mem_filterMap.mp hfield
    obtain ⟨value, hvalue, rfl⟩ := Option.map_eq_some_iff.mp hmap
    exact h entry hentry value hvalue
  rw [parseObject, objectText, Json.parse_stringify hprintable, Option.getD_some]

/-- **What is read back** are the entries that have a value. -/
theorem storedEntries_objectText {entries : List (String × Option Json)}
    (h : ∀ entry ∈ entries, ∀ value, entry.2 = some value → value.printable) :
    storedEntries (objectText entries) = entries.filter fun entry => entry.2.isSome := by
  rw [storedEntries, parseObject_objectText h]
  show (entries.filterMap fun entry => entry.2.map (Prod.mk entry.1)).map
    (fun field => (field.1, some field.2)) = _
  rw [List.map_filterMap]
  induction entries with
  | nil => rfl
  | cons entry rest ih =>
      obtain ⟨key, value⟩ := entry
      have hrest := ih fun e he => h e (List.mem_cons_of_mem _ he)
      cases value with
      | none => simpa using hrest
      | some value => simpa using hrest

theorem SubmittedPatch.field_ne_null (patch : SubmittedPatch) (f : PatchField) :
    patch.field f ≠ some (some .null) := by
  intro h
  cases f with
  | title | stale =>
      obtain ⟨value, -, hvalue⟩ := Option.map_eq_some_iff.mp h
      cases hvalue
  | deadlineAt | startsAt | url =>
      obtain ⟨named, -, hvalue⟩ := Option.map_eq_some_iff.mp h
      obtain ⟨text, -, htext⟩ := Option.map_eq_some_iff.mp hvalue
      cases htext

/-- The value of a field is a text or a boolean. -/
theorem SubmittedPatch.field_printable (patch : SubmittedPatch) {f : PatchField} {value : Json}
    (h : patch.field f = some (some value)) : value.printable := by
  cases f with
  | title | stale =>
      obtain ⟨named, -, hvalue⟩ := Option.map_eq_some_iff.mp h
      cases hvalue
      rfl
  | deadlineAt | startsAt | url =>
      obtain ⟨named, -, hvalue⟩ := Option.map_eq_some_iff.mp h
      obtain ⟨text, -, rfl⟩ := Option.map_eq_some_iff.mp hvalue
      rfl

/-- The entries of the route's object. -/
theorem routePatch_eq (patch : SubmittedPatch) :
    routePatch patch =
      PatchField.all.filterMap fun f => (patch.field f).map fun value => (f.key, value) := by
  rw [routePatch, SubmittedPatch.entries, List.map_filterMap]
  congr 1
  funext f
  rw [Option.map_map]
  cases hfield : patch.field f with
  | none => rfl
  | some value =>
      cases value with
      | none => rfl
      | some value =>
          have hne : value ≠ .null := by
            rintro rfl
            exact patch.field_ne_null f hfield
          simp [orUndefined, hne]

theorem routePatch_printable (patch : SubmittedPatch) :
    ∀ entry ∈ routePatch patch, ∀ value, entry.2 = some value → value.printable := by
  intro entry hentry value hvalue
  rw [routePatch_eq] at hentry
  obtain ⟨f, -, hmap⟩ := List.mem_filterMap.mp hentry
  obtain ⟨named, hnamed, rfl⟩ := Option.map_eq_some_iff.mp hmap
  exact patch.field_printable (hnamed.trans (congrArg some hvalue))

/-- **A patch comes back whole exactly if it has no `null`.** -/
theorem readBack_iff (patch : SubmittedPatch) :
    storedEntries (objectText (routePatch patch)) = routePatch patch ↔
      ∀ f, patch.field f ≠ some none := by
  rw [storedEntries_objectText (routePatch_printable patch), List.filter_eq_self, routePatch_eq]
  have hall : ∀ f, f ∈ PatchField.all := by
    intro f
    cases f <;> decide
  constructor
  · intro h f hnull
    have hentry : (f.key, none) ∈ PatchField.all.filterMap fun f =>
        (patch.field f).map fun value => (f.key, value) :=
      List.mem_filterMap.mpr ⟨f, hall f, by rw [hnull]; rfl⟩
    cases h _ hentry
  · intro h entry hentry
    obtain ⟨f, -, hmap⟩ := List.mem_filterMap.mp hentry
    obtain ⟨named, hnamed, rfl⟩ := Option.map_eq_some_iff.mp hmap
    cases named with
    | none => exact absurd hnamed (h f)
    | some value => rfl

theorem PatchField.key_inj {f g : PatchField} (h : f.key = g.key) : f = g := by
  cases f <;> cases g <;> first | rfl | exact absurd h (by decide)

/-- A field is found under its key. -/
theorem lookup_key {g : PatchField → Option Json} {f : PatchField} {fields : List PatchField}
    (hf : f ∈ fields) :
    (fields.filterMap fun f => (g f).map (Prod.mk f.key)).lookup f.key = g f := by
  induction fields with
  | nil => cases hf
  | cons first rest ih =>
      by_cases hfirst : first = f
      · subst hfirst
        cases hg : g first with
        | some value => simp [hg]
        | none =>
            rw [List.filterMap_cons, hg, Option.map_none]
            by_cases hrest : first ∈ rest
            · rw [ih hrest, hg]
            · refine List.lookup_eq_none_iff.mpr fun entry hentry => ?_
              obtain ⟨other, hother, hmap⟩ := List.mem_filterMap.mp hentry
              obtain ⟨value, -, rfl⟩ := Option.map_eq_some_iff.mp hmap
              rw [bne_iff_ne]
              exact fun hkey => hrest (PatchField.key_inj hkey ▸ hother)
      · have hrest : f ∈ rest := (List.mem_cons.mp hf).resolve_left (Ne.symm hfirst)
        have hkey : (f.key == first.key) = false :=
          beq_false_of_ne fun hkey => hfirst (PatchField.key_inj hkey).symm
        cases hg : g first with
        | none =>
            rw [List.filterMap_cons, hg, Option.map_none]
            exact ih hrest
        | some value =>
            rw [List.filterMap_cons, hg, Option.map_some, List.lookup_cons, hkey]
            exact ih hrest

/-- **What a stored patch says about a field.** -/
theorem ofText_field (patch : SubmittedPatch) (f : PatchField) :
    (OpportunityPatch.ofText (objectText (routePatch patch))).field f = (patch.field f).join := by
  have hget : ∀ f : PatchField,
      (parseObject (objectText (routePatch patch))).get? f.key = (patch.field f).join := by
    intro f
    have hall : f ∈ PatchField.all := by cases f <;> decide
    rw [parseObject_objectText (routePatch_printable patch), routePatch_eq, List.filterMap_filterMap]
    have hentries : (fun f : PatchField => ((patch.field f).map fun value => (f.key, value)).bind
        fun entry : String × Option Json => entry.2.map (Prod.mk entry.1)) =
        fun f => (patch.field f).join.map (Prod.mk f.key) := by
      funext f
      cases patch.field f with
      | none => rfl
      | some value => rfl
    rw [hentries]
    exact lookup_key (g := fun f => (patch.field f).join) hall
  cases f with
  | title =>
      show (textOf ((parseObject (objectText (routePatch patch))).get? "title")).map Json.str = _
      rw [show "title" = PatchField.title.key from rfl, hget]
      cases htitle : patch.title <;> simp [SubmittedPatch.field, htitle, textOf]
  | deadlineAt =>
      show (textOf ((parseObject (objectText (routePatch patch))).get? "deadlineAt")).map
        Json.str = _
      rw [show "deadlineAt" = PatchField.deadlineAt.key from rfl, hget]
      rcases hvalue : patch.deadlineAt with _ | _ | value <;>
        simp [SubmittedPatch.field, hvalue, textOf]
  | startsAt =>
      show (textOf ((parseObject (objectText (routePatch patch))).get? "startsAt")).map
        Json.str = _
      rw [show "startsAt" = PatchField.startsAt.key from rfl, hget]
      rcases hvalue : patch.startsAt with _ | _ | value <;>
        simp [SubmittedPatch.field, hvalue, textOf]
  | url =>
      show (textOf ((parseObject (objectText (routePatch patch))).get? "url")).map Json.str = _
      rw [show "url" = PatchField.url.key from rfl, hget]
      rcases hvalue : patch.url with _ | _ | value <;> simp [SubmittedPatch.field, hvalue, textOf]
  | stale =>
      show (boolOf ((parseObject (objectText (routePatch patch))).get? "stale")).map Json.bool = _
      rw [show "stale" = PatchField.stale.key from rfl, hget]
      cases hvalue : patch.stale <;> simp [SubmittedPatch.field, hvalue, boolOf]

/-! ### Listed opportunities -/

/-- What a text column returns for a value that was bound to it, `none` for `null`: a text
is returned as it is. -/
structure TextColumn where
  read : Json → Option String
  read_str : ∀ text, read (.str text) = some text

/-- `row.column ? String(row.column) : undefined`. -/
def TextColumn.get (column : TextColumn) (value : Option Json) : Option String :=
  (value.bind column.read).filter (· ≠ "")

/-- What `listOpportunities` makes of a row. -/
def listedOpportunity (column : TextColumn) (o : Opportunity) : Opportunity :=
  { o with
    deadlineAt := o.deadlineAt.filter (· ≠ "")
    startsAt := (column.get o.startsAt).map .str
    url := (column.get o.url).map .str
    confidence := some (o.confidence.getD 0)
    startsAtPrecision := (column.get o.startsAtPrecision).map .str }

/-- `order by coalesce(deadline_at,starts_at)`: nulls come first. -/
def listedBefore (column : TextColumn) (a b : Opportunity) : Bool :=
  match a.deadlineAt.or (a.startsAt.bind column.read), b.deadlineAt.or (b.startsAt.bind column.read)
  with
  | none, _ => true
  | some _, none => false
  | some a, some b => a ≤ b

/-- `listOpportunities(organizationId, tenantId)`. -/
def Database.listOpportunities (column : TextColumn) (db : Database) (orgId tenantId : String) :
    List Opportunity :=
  ((db.opportunitiesOf tenantId orgId).insertionSort fun a b => listedBefore column a b).map
    (listedOpportunity column)

theorem Database.mem_listOpportunities {column : TextColumn} {db : Database}
    {orgId tenantId : String} {o : Opportunity} :
    o ∈ db.listOpportunities column orgId tenantId ↔
      ∃ row ∈ db.opportunitiesOf tenantId orgId, listedOpportunity column row = o := by
  simp [listOpportunities, List.mem_insertionSort]

/-- The value of a field. -/
def Opportunity.field (o : Opportunity) : PatchField → Option Json
  | .title => some (.str o.title)
  | .deadlineAt => o.deadlineAt.map .str
  | .startsAt => o.startsAt
  | .url => o.url
  | .stale => some (.bool o.stale)

/-- The flag, and a text that is not empty, are listed as they are. -/
theorem listedOpportunity_field {column : TextColumn} {o : Opportunity} {f : PatchField}
    {value : Json} (h : o.field f = some value)
    (hvalue : f = .stale ∨ ∃ text, value = .str text ∧ text ≠ "") :
    (listedOpportunity column o).field f = some value := by
  rcases hvalue with rfl | ⟨text, rfl, hne⟩
  · exact h
  cases f with
  | title | stale => exact h
  | deadlineAt =>
      obtain ⟨text, htext, hsame⟩ := Option.map_eq_some_iff.mp h
      cases hsame
      simp [Opportunity.field, listedOpportunity, htext, hne]
  | startsAt | url =>
      simp only [Opportunity.field] at h
      simp [Opportunity.field, listedOpportunity, TextColumn.get, h, column.read_str, hne]

end RecruitingOs
