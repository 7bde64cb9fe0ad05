import Hill90.Models.Statement

/-! # The routes of models and connections

POST, PUT and DELETE of `routes/user-models.ts` and `routes/provider-connections.ts`.
-/

namespace Hill90.Models

open Chat (Uuid Failure)

structure Response where
  status : ℕ := 200
  error : Option String := none
  deriving DecidableEq

structure User where
  sub : String
  admin : Bool := false
  deriving DecidableEq

def refuse (status : ℕ) (error : String) : Handler Response := pure { status, error := some error }

def given (text : Option String) : Bool := text.any (!·.isEmpty)

def routesError : List Route → List String → Option String
  | [], _ => none
  | r :: rs, keys =>
    match r.key, r.connectionId, given r.litellmModel with
    | some key, some _, true =>
      if key.isEmpty then some "Each route must have key, connection_id, and litellm_model"
      else if key ∈ keys then some ("Duplicate route key: " ++ key)
      else routesError rs (key :: keys)
    | _, _, _ => some "Each route must have key, connection_id, and litellm_model"

def RoutingConfig.hasKey (config : RoutingConfig) (key : String) : Bool :=
  config.routes.any fun r => r.key = some key

def validateRoutingConfig : Option RoutingConfig → Option String
  | none => some "routing_config is required for router models"
  | some config =>
    if config.strategy ∉ ["fallback", "task_routing"] then
      some "routing_config.strategy must be \"fallback\" or \"task_routing\""
    else if config.routes.isEmpty then some "routing_config.routes must be a non-empty array"
    else if let some error := routesError config.routes [] then some error
    else if config.defaultRoute.isEmpty || !config.hasKey config.defaultRoute then
      some "default_route must reference an existing route key"
    else none

/-- `validateRouteConnectionOwnership`: the ids that come back are canonical, and are
compared as texts. -/
def routesOwned (routes : List Route) (owner : Owner) : Handler Bool := do
  let ids := routes.filterMap Route.connectionId
  let owned ← ask (.selectOwned ids owner)
  pure (ids.all fun id => id ∈ owned.map fun uuid => (⟨uuid, 0⟩ : UuidText))

def singleModelConnectionOwned (connectionId : Option UuidText) (owner : Owner) : Handler Bool :=
  match connectionId with
  | none => pure false
  | some id => do
    let owned ← ask (.selectOwned [id] owner)
    pure !owned.isEmpty

def notOwned : Handler Response := refuse 400 "Connection not found or not owned by you"

/-- The answer to a failed INSERT or UPDATE of a model. -/
def orTaken (name : String) (p : Handler Response) : Handler Response :=
  tryCatch p fun e =>
    match e with
    | .uniqueViolation _ => refuse 409 ("Model named '" ++ name ++ "' already exists")
    | e => throw e

structure NewModel where
  name : Option String := none
  isRouter : Bool := false
  connectionId : Option UuidText := none
  litellmModel : Option String := none
  routingConfig : Option RoutingConfig := none
  platform : Bool := false
  deriving DecidableEq

/-- The last steps of a POST: the platform's own names, then the row. -/
def insertNamed (name : String) (kind : Kind) (createdBy : Owner) : Handler Response := do
  let collides ← ask (.selectCatalogName name)
  if collides then refuse 409 ("Name '" ++ name ++ "' conflicts with a platform model")
  else orTaken name do
    let _ ← ask (.insertModel name kind createdBy)
    pure { status := 201 }

def createModel (user : User) (body : NewModel) : Handler Response :=
  let createdBy : Owner := if body.platform && user.admin then none else some user.sub
  if body.platform && !user.admin then refuse 403 "Only admins can create platform models"
  else if !given body.name then refuse 400 "name is required"
  else if body.isRouter then
    if body.connectionId.isSome || given body.litellmModel then
      refuse 400 "Router models must not have connection_id or litellm_model"
    else
      match validateRoutingConfig body.routingConfig, body.routingConfig with
      | none, some config => do
        let owned ← routesOwned config.routes createdBy
        if !owned then notOwned
        else insertNamed (body.name.getD "") (.router config) createdBy
      | some error, _ => refuse 400 error
      | none, none => refuse 400 "routing_config is required for router models"
  else
    match body.connectionId, body.litellmModel with
    | some connectionId, some litellmModel =>
      if litellmModel.isEmpty then
        refuse 400 "name, connection_id, and litellm_model are required"
      else if body.routingConfig.isSome then refuse 400 "Single models must not have routing_config"
      else do
        let owned ← singleModelConnectionOwned (some connectionId) createdBy
        if !owned then notOwned
        else insertNamed (body.name.getD "") (.single connectionId.uuid litellmModel) createdBy
    | _, _ => refuse 400 "name, connection_id, and litellm_model are required"

/-- The body of a PUT; `none` is `undefined`, and `some none` is `null`. -/
structure ModelChanges where
  name : Option String := none
  isRouter : Option Bool := none
  connectionId : Option (Option UuidText) := none
  litellmModel : Option (Option String) := none
  routingConfig : Option (Option RoutingConfig) := none
  isActive : Option Bool := none
  deriving DecidableEq

def ModelChanges.update (b : ModelChanges) (wasRouter : Bool) : ModelUpdate :=
  let isRouter := b.isRouter.getD wasRouter
  { name := b.name, isRouter := b.isRouter
    connectionId := if isRouter then b.connectionId.map fun _ => none else b.connectionId
    litellmModel := if isRouter then b.litellmModel.map fun _ => none else b.litellmModel
    routingConfig := if isRouter then b.routingConfig else b.routingConfig.map fun _ => none
    isActive := b.isActive, cleared := b.isRouter.any (· ≠ wasRouter) }

/-- The owner a PUT looks for connections under: the caller, or the platform. -/
def ownerFor (existing : ModelRow) (user : User) : Owner :=
  if existing.createdBy.isNone then none else some user.sub

def notOwnedResponse (owned : Bool) : Option Response :=
  if owned then none
  else some { status := 400, error := some "Connection not found or not owned by you" }

def routingError (isRouter : Bool) (owner : Owner) (routingConfig : Option (Option RoutingConfig)) :
    Handler (Option Response) :=
  match isRouter, routingConfig with
  | true, some config =>
    match validateRoutingConfig config with
    | some error => pure (some { status := 400, error := some error })
    | none => do
      let owned ← routesOwned (config.elim [] RoutingConfig.routes) owner
      pure (notOwnedResponse owned)
  | _, _ => pure none

def connectionError (isRouter : Bool) (owner : Owner) (connectionId : Option (Option UuidText)) :
    Handler (Option Response) :=
  match isRouter, connectionId with
  | false, some connectionId => do
    let owned ← singleModelConnectionOwned connectionId owner
    pure (notOwnedResponse owned)
  | _, _ => pure none

def changesError (existing : ModelRow) (user : User) (b : ModelChanges) :
    Handler (Option Response) := do
  let isRouter := b.isRouter.getD existing.isRouter
  let refused ← routingError isRouter (ownerFor existing user) b.routingConfig
  if refused.isSome then pure refused
  else connectionError isRouter (ownerFor existing user) b.connectionId

def nameError (name : Option String) : Handler (Option Response) :=
  match name with
  | none => pure none
  | some name => do
    let collides ← ask (.selectCatalogName name)
    pure (if collides then
      some { status := 409, error := some ("Name '" ++ name ++ "' conflicts with a platform model") }
      else none)

def updateModel (user : User) (id : UuidText) (body : ModelChanges) : Handler Response := do
  match ← ask (.selectModel id user.sub user.admin) with
  | [] => refuse 404 "Model not found"
  | existing :: _ =>
    if existing.createdBy.isNone && !user.admin then
      refuse 403 "Only admins can modify platform models"
    else do
      match ← changesError existing user body with
      | some response => pure response
      | none =>
        match ← nameError body.name with
        | some response => pure response
        | none =>
          if body = {} then refuse 400 "No fields to update"
          else orTaken (body.name.getD "undefined") do
            let count ← ask (.updateModel id (body.update existing.isRouter))
            if count = 0 then throw (.error "the row to answer with is undefined") else pure {}

/-- `DELETE /user-models/:id`; the policies it scrubs are not modelled. -/
def deleteModel (user : User) (id : UuidText) : Handler Response := do
  let count ← ask (.deleteModel id user.sub user.admin)
  if count = 0 then refuse 404 "Model not found" else pure {}

structure NewConnection where
  complete : Bool := true
  apiKeyEncrypted : List UInt8 := []
  apiKeyNonce : List UInt8 := []
  apiBaseUrl : Option String := none
  platform : Bool := false
  deriving DecidableEq

def createConnection (user : User) (body : NewConnection) : Handler Response :=
  if !body.complete then refuse 400 "name, provider, and api_key are required"
  else if body.platform && !user.admin then
    refuse 403 "Only admins can create platform connections"
  else do
    let _ ← ask (.insertConnection (if body.platform && user.admin then none else some user.sub)
      body.apiKeyEncrypted body.apiKeyNonce body.apiBaseUrl)
    pure { status := 201 }

/-- `PUT /provider-connections/:id`: neither the id nor the owner changes. -/
def updateConnection (user : User) (id : UuidText) (apiBaseUrl : Option String) :
    Handler Response := do
  let count ← ask (.selectConnection id user.sub user.admin)
  if count = 0 then refuse 404 "Connection not found"
  else do
    let _ ← ask (.updateConnection id apiBaseUrl)
    pure {}

/-- What the cascade writes for one router model. -/
def scrub (id : UuidText) (model : Uuid) (config : RoutingConfig) : CascadeWrite :=
  let routes := config.routes.filter fun r => !r.refersTo id
  if routes.isEmpty then .deleteModel model
  else .setRouting model { config with routes }
    (!routes.any fun r => r.key = some config.defaultRoute)

def routersOf (owner : Owner) (id : UuidText) : Handler (List (Uuid × RoutingConfig)) :=
  match owner with
  | none => pure []
  | some owner => ask (.selectRouters (some owner) id)

def deleteConnection (user : User) (id : UuidText) : Handler Response :=
  tryCatch (do
    ask .begin
    match ← ask (.deleteConnection id user.sub user.admin) with
    | [] => do
      ask .rollback
      refuse 404 "Connection not found"
    | owner :: _ => do
      let routers ← routersOf owner id
      let writes := routers.map fun (model, config) => scrub id model config
      writes.forM fun write => ask (.cascade write)
      ask (.commit id writes)
      pure {}) fun _ => do
        tryCatch (ask .rollback) fun _ => pure ()
        refuse 500 "Failed to delete connection — cascade cleanup error"

inductive Request where
  | createModel (user : User) (body : NewModel)
  | updateModel (user : User) (id : UuidText) (body : ModelChanges)
  | deleteModel (user : User) (id : UuidText)
  | createConnection (user : User) (body : NewConnection)
  | updateConnection (user : User) (id : UuidText) (apiBaseUrl : Option String)
  | deleteConnection (user : User) (id : UuidText)
  deriving DecidableEq

def handle : Request → Handler Response
  | .createModel user body => Models.createModel user body
  | .updateModel user id body => Models.updateModel user id body
  | .deleteModel user id => Models.deleteModel user id
  | .createConnection user body => Models.createConnection user body
  | .updateConnection user id apiBaseUrl => Models.updateConnection user id apiBaseUrl
  | .deleteConnection user id => Models.deleteConnection user id

end Hill90.Models
