import Hill90.Foundation.Program
import Hill90.Chat.Statement
import Hill90.Models.Record

/-! # The statements on models and connections

The SQL of `routes/user-models.ts` and `routes/provider-connections.ts`.  What the
transaction of a connection's DELETE writes becomes visible with its COMMIT, so the
COMMIT carries the writes.
-/

namespace Hill90.Models

open Chat (Uuid Failure)

structure ModelUpdate where
  name : Option String := none
  isRouter : Option Bool := none
  connectionId : Option (Option UuidText) := none
  litellmModel : Option (Option String) := none
  routingConfig : Option (Option RoutingConfig) := none
  isActive : Option Bool := none
  /-- The fields of the old type are cleared. -/
  cleared : Bool := false
  deriving DecidableEq

/-- A write of the cascade. -/
inductive CascadeWrite where
  | deleteModel (id : Uuid)
  | setRouting (id : Uuid) (config : RoutingConfig) (deactivate : Bool)
  deriving DecidableEq

def CascadeWrite.model : CascadeWrite → Uuid
  | deleteModel id | setRouting id _ _ => id

structure ModelRow where
  id : Uuid
  isRouter : Bool
  createdBy : Owner
  deriving DecidableEq

inductive Statement where
  | selectOwned (ids : List UuidText) (owner : Owner)
  | selectCatalogName (name : String)
  | insertModel (name : String) (kind : Kind) (createdBy : Owner)
  | selectModel (id : UuidText) (user : String) (admin : Bool)
  | updateModel (id : UuidText) (update : ModelUpdate)
  | deleteModel (id : UuidText) (user : String) (admin : Bool)
  | insertConnection (createdBy : Owner) (apiKeyEncrypted apiKeyNonce : List UInt8)
      (apiBaseUrl : Option String)
  | selectConnection (id : UuidText) (user : String) (admin : Bool)
  | updateConnection (id : UuidText) (apiBaseUrl : Option String)
  | begin
  | deleteConnection (id : UuidText) (user : String) (admin : Bool)
  | selectRouters (owner : Owner) (id : UuidText)
  | cascade (write : CascadeWrite)
  | commit (id : UuidText) (writes : List CascadeWrite)
  | rollback
  deriving DecidableEq

namespace Statement

abbrev Rows : Statement → Type
  | selectOwned .. => List Uuid
  | selectCatalogName _ => Bool
  | insertModel .. | insertConnection .. => Uuid
  | selectModel .. => List ModelRow
  | selectConnection .. | updateModel .. | updateConnection .. | deleteModel .. => ℕ
  | deleteConnection .. => List Owner
  | selectRouters .. => List (Uuid × RoutingConfig)
  | begin | cascade _ | commit .. | rollback => Unit

end Statement

abbrev Handler (α : Type) := Program Statement Statement.Rows Failure α

def ask (s : Statement) : Handler s.Rows := Program.query s

structure Store where
  catalog : Catalog
  nextId : Uuid := 0

/-- Whether `model_catalog` has the name of a model already. -/
structure Choice where
  collides : Bool := false
  deriving DecidableEq

def Connection.visible (user : String) (admin : Bool) (c : Connection) : Bool :=
  admin || c.createdBy = some user

def UserModel.visible (user : String) (admin : Bool) (m : UserModel) : Bool :=
  admin || m.createdBy = some user

def UserModel.isRouter (m : UserModel) : Bool :=
  match m.kind with
  | .single .. => false
  | .router _ => true

structure Fields where
  isRouter : Bool
  connectionId : Option Uuid := none
  litellmModel : Option String := none
  routingConfig : Option RoutingConfig := none
  deriving DecidableEq

def Kind.fields : Kind → Fields
  | .single connectionId litellmModel =>
    { isRouter := false, connectionId := some connectionId, litellmModel := some litellmModel }
  | .router config => { isRouter := true, routingConfig := some config }

def Fields.kind? (f : Fields) : Option Kind :=
  match f.isRouter, f.connectionId, f.litellmModel, f.routingConfig with
  | false, some connectionId, some litellmModel, none => some (.single connectionId litellmModel)
  | true, none, none, some config => some (.router config)
  | _, _, _, _ => none

def ModelUpdate.fields (u : ModelUpdate) (f : Fields) : Option Fields :=
  let isRouter := u.isRouter.getD f.isRouter
  let given := { f with
    isRouter
    connectionId := (u.connectionId.getD (f.connectionId.map fun id => ⟨id, 0⟩)).map UuidText.uuid
    litellmModel := u.litellmModel.getD f.litellmModel
    routingConfig := u.routingConfig.getD f.routingConfig }
  if !u.cleared then some given
  else if isRouter then
    if u.connectionId.isSome || u.litellmModel.isSome then none
    else some { given with connectionId := none, litellmModel := none }
  else if u.routingConfig.isSome then none else some { given with routingConfig := none }

def ModelUpdate.apply (u : ModelUpdate) (m : UserModel) : Option UserModel :=
  (u.fields m.kind.fields).bind fun f => f.kind?.map fun kind =>
    { m with name := u.name.getD m.name, kind, isActive := u.isActive.getD m.isActive }

theorem ModelUpdate.id_apply {u : ModelUpdate} {m m' : UserModel} (h : u.apply m = some m') :
    m'.id = m.id := by
  obtain ⟨f, _, hf⟩ := Option.bind_eq_some_iff.mp h
  obtain ⟨kind, _, rfl⟩ := Option.map_eq_some_iff.mp hf
  rfl

/-- The foreign key of single models. -/
def UserModel.linkedTo (connections : Table Connection.id) (m : UserModel) : Bool :=
  match m.kind with
  | .single connectionId _ => connections.rows.any fun c => c.id = connectionId
  | .router _ => true

def violation (message : String) : Failure := .error message

def Catalog.ofTables (models : Table UserModel.id) (connections : Table Connection.id) :
    Except Failure Catalog :=
  if hnamed : (models.rows.map UserModel.ownedName).Nodup then
    if hlinked : ∀ m ∈ models.rows, m.linkedTo connections = true then
      .ok ⟨models, connections, hnamed, by
        intro m hm cid litellm hkind
        have hm := hlinked m hm
        rw [UserModel.linkedTo, hkind] at hm
        simpa using hm⟩
    else .error .foreignKeyViolation
  else .error (.uniqueViolation "user_models_name_owner_unique")

namespace Store

variable (s : Store)

def setTables {α : Type} (answer : α) (models : Table UserModel.id)
    (connections : Table Connection.id) (nextId : Uuid) : Except Failure (α × Store) :=
  match Catalog.ofTables models connections with
  | .ok catalog => .ok (answer, ⟨catalog, nextId⟩)
  | .error e => .error e

end Store

def CascadeWrite.run (models : Table UserModel.id) : CascadeWrite → Table UserModel.id
  | deleteModel id => models.delete fun m => m.id = id
  | setRouting id config deactivate =>
    models.patch (fun m => m.id = id)
      (fun _ m => { m with kind := .router config, isActive := m.isActive && !deactivate }) 0
      fun _ _ => rfl

/-- Setting the routing of a single model breaks the CHECK. -/
def CascadeWrite.applies (models : Table UserModel.id) : CascadeWrite → Bool
  | deleteModel _ => true
  | setRouting id _ _ => models.rows.all fun m => m.id ≠ id || m.isRouter

def Route.refersTo (id : UuidText) (r : Route) : Bool := r.connectionId = some id

/-- The DELETE and its cascades: single models through the foreign key, router models
through the writes. -/
def committed (s : Store) (id : Uuid) (writes : List CascadeWrite) :
    Table UserModel.id × Table Connection.id :=
  let singles := s.catalog.models.delete fun m =>
    match m.kind with
    | .single connectionId _ => connectionId = id
    | .router _ => false
  (writes.foldl CascadeWrite.run singles, s.catalog.connections.delete fun c => c.id = id)

def Statement.run (s : Store) (c : Choice) : (st : Statement) → Except Failure (st.Rows × Store)
  | selectOwned ids owner =>
    .ok ((s.catalog.connections.rows.filter fun c =>
      ids.any (fun id => id.uuid = c.id) && c.createdBy = owner).map Connection.id, s)
  | selectCatalogName _ => .ok (c.collides, s)
  | insertModel name kind createdBy =>
    match s.catalog.models.insert { id := s.nextId, name, kind, createdBy } with
    | some models => Store.setTables s.nextId models s.catalog.connections (s.nextId + 1)
    | none => .error (.uniqueViolation "user_models_pkey")
  | selectModel id user admin =>
    .ok ((s.catalog.models.rows.filter fun m => m.id = id.uuid && m.visible user admin).map
      fun m => ⟨m.id, m.isRouter, m.createdBy⟩, s)
  | updateModel id update =>
    if s.catalog.models.rows.all fun m => m.id ≠ id.uuid || (update.apply m).isSome then
      Store.setTables (s.catalog.models.count fun m => m.id = id.uuid)
        (s.catalog.models.patch (fun m => m.id = id.uuid) (fun _ m => (update.apply m).getD m) 0
          fun _ m => by
            cases h : update.apply m with
            | none => rfl
            | some m' => exact ModelUpdate.id_apply h)
        s.catalog.connections s.nextId
    else .error (violation "chk_model_type_fields")
  | deleteModel id user admin =>
    let selects := fun m : UserModel => m.id = id.uuid && m.visible user admin
    Store.setTables (s.catalog.models.count selects) (s.catalog.models.delete selects)
      s.catalog.connections s.nextId
  | insertConnection createdBy apiKeyEncrypted apiKeyNonce apiBaseUrl =>
    match s.catalog.connections.insert
      { id := s.nextId, apiKeyEncrypted, apiKeyNonce, apiBaseUrl, createdBy } with
    | some connections => Store.setTables s.nextId s.catalog.models connections (s.nextId + 1)
    | none => .error (.uniqueViolation "provider_connections_pkey")
  | selectConnection id user admin =>
    .ok (s.catalog.connections.count fun c => c.id = id.uuid && c.visible user admin, s)
  | updateConnection id apiBaseUrl =>
    Store.setTables (s.catalog.connections.count fun c => c.id = id.uuid) s.catalog.models
      (s.catalog.connections.patch (fun c => c.id = id.uuid) (fun _ c => { c with apiBaseUrl }) 0
        fun _ _ => rfl) s.nextId
  | begin | rollback | cascade _ => .ok ((), s)
  | deleteConnection id user admin =>
    .ok ((s.catalog.connections.rows.filter fun c => c.id = id.uuid && c.visible user admin).map
      Connection.createdBy, s)
  | selectRouters owner id =>
    .ok (s.catalog.models.rows.filterMap fun m =>
      match m.kind with
      | .single .. => none
      | .router config =>
        if m.createdBy = owner ∧ config.routes.any (Route.refersTo id) then some (m.id, config)
        else none, s)
  | commit id writes =>
    if writes.all (CascadeWrite.applies s.catalog.models) then
      Store.setTables () (committed s id.uuid writes).1 (committed s id.uuid writes).2 s.nextId
    else .error (violation "chk_model_type_fields")

end Hill90.Models
