import RecruitingOs.Store.Schema

/-!
# Connector cursors

`getConnectorState` and `setConnectorState` of `src/store.ts`.  A cursor that is empty
reads as none.
-/

namespace RecruitingOs

/-- `primary key(tenant_id, connector, scope)`. -/
def ConnectorStateRow.key (row : ConnectorStateRow) : String × String × String :=
  (row.tenantId, row.connector, row.scope)

namespace Database

/-- `getConnectorState(connector, scope, tenantId)`, its cursor. -/
def getConnectorState (db : Database) (connector scope tenantId : String) : Option String :=
  match db.connectorState.find? fun row => row.key = (tenantId, connector, scope) with
  | none => none
  | some row => row.cursor.filter (· ≠ "")

/-- `setConnectorState(connector, scope, cursor, metadata, tenantId, ownerUserId)`: the
owner of a cursor is a member. -/
def setConnectorState (db : Database) (connector scope : String) (cursor : Option String)
    (metadata : Json) (tenantId : String) (ownerUserId : Option String) :
    Except StoreError Database :=
  let row : ConnectorStateRow := ⟨tenantId, connector, scope, cursor, metadata, ownerUserId⟩
  if ownerUserId.all fun user => db.isMember tenantId user then
    .ok { db with
      connectorState := Table.upsert ConnectorStateRow.key (fun _ => row) db.connectorState row }
  else .error (.foreignKey "connector_state")

variable {db db' : Database} {connector scope tenantId : String} {cursor : Option String}
  {metadata : Json} {ownerUserId : Option String}

theorem setConnectorState_ok
    (h : db.setConnectorState connector scope cursor metadata tenantId ownerUserId = .ok db') :
    ownerUserId.all (fun user => db.isMember tenantId user) ∧
      db' = { db with
        connectorState := Table.upsert ConnectorStateRow.key
          (fun _ => ⟨tenantId, connector, scope, cursor, metadata, ownerUserId⟩)
          db.connectorState ⟨tenantId, connector, scope, cursor, metadata, ownerUserId⟩ } := by
  unfold setConnectorState at h
  dsimp only at h
  split at h
  · rename_i howner
    cases h
    exact ⟨howner, rfl⟩
  · cases h

/-- A cursor is refused only to an owner who is not a member. -/
theorem setConnectorState_error {e : StoreError}
    (h : db.setConnectorState connector scope cursor metadata tenantId ownerUserId = .error e) :
    ownerUserId.all (fun user => db.isMember tenantId user) = false := by
  unfold setConnectorState at h
  dsimp only at h
  split at h
  · cases h
  · rename_i howner
    exact Bool.eq_false_iff.mpr howner

/-- What is set is read back, and no other cursor changes. -/
theorem getConnectorState_setConnectorState
    (h : db.setConnectorState connector scope cursor metadata tenantId ownerUserId = .ok db')
    (connector' scope' tenantId' : String) :
    db'.getConnectorState connector' scope' tenantId' =
      if (tenantId', connector', scope') = (tenantId, connector, scope) then
        cursor.filter (· ≠ "")
      else db.getConnectorState connector' scope' tenantId' := by
  obtain ⟨-, rfl⟩ := setConnectorState_ok h
  have hrow : ConnectorStateRow.key
      ⟨tenantId, connector, scope, cursor, metadata, ownerUserId⟩ =
        (tenantId, connector, scope) := rfl
  unfold getConnectorState
  dsimp only
  rw [Table.find?_upsert fun _ _ _ => rfl, hrow]
  by_cases hkey : (tenantId', connector', scope') = (tenantId, connector, scope)
  · rw [if_pos hkey, if_pos hkey]
    cases db.connectorState.find? fun row => row.key = (tenantId', connector', scope') with
    | none => rfl
    | some old => rfl
  · rw [if_neg hkey, if_neg hkey]

end Database

end RecruitingOs
