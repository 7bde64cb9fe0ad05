import Hill90.Foundation.Interleaving
import Hill90.Policies.Statement

/-! # The policy routes and the router's lookup

`routes/model-policies.ts`, the DELETE of `routes/user-models.ts`, and `resolve_agent_policy` of
the AI service.
-/

namespace Hill90.Policies

open Chat (Uuid Failure)
open Models (Owner)

/-- The fields of a request body; `none` is a field the body does not have. -/
structure PolicyBody where
  name : Option String := none
  description : Option String := none
  allowedModels : Option (List String) := none
  modelAliases : Option Aliases := none
  maxRequestsPerMinute : Option (Option ℤ) := none
  maxTokensPerDay : Option (Option ℤ) := none
  deriving DecidableEq, Repr

inductive Response where
  | ok (code : ℕ)
  | error (code : ℕ) (text : String)
  deriving DecidableEq, Repr

structure User where
  sub : String
  admin : Bool := false
  deriving DecidableEq, Repr

/-- `null` for an admin, whose queries are not scoped. -/
def User.owner (u : User) : Option String := if u.admin then none else some u.sub

def aliasError (aliases : Aliases) (models : List String) : Option String :=
  (aliases.find? fun a => !models.contains a.2).map fun a =>
    "Alias '" ++ a.1 ++ "' target '" ++ a.2 ++ "' is not in allowed_models"

def validateAllowedModels : List String → String → Handler (Option String)
  | [], _ => pure none
  | modelName :: rest, userSub => do
    let found : Bool ← ask (.selectModel modelName userSub)
    if found then validateAllowedModels rest userSub
    else pure (some ("Model '" ++ modelName ++ "' not found in user models for policy owner"))

def orConflict (text : String) (p : Handler Response) : Handler Response :=
  tryCatch p fun err =>
    match err with
    | .uniqueViolation _ => pure (.error 409 "A policy with this name already exists")
    | _ => pure (.error 500 text)

/-- `POST /`, with the name and the models it must have. -/
def insertValidated (user : User) (body : PolicyBody) (name : String) (models : List String) :
    Handler Response := do
  let modelError ← validateAllowedModels models user.sub
  match modelError with
  | some text => pure (.error 400 text)
  | none => do
    let _ : Uuid ← ask (.insertPolicy
      { name, description := body.description.getD "", allowedModels := models
        modelAliases := body.modelAliases.getD []
        maxRequestsPerMinute := body.maxRequestsPerMinute.getD none
        maxTokensPerDay := body.maxTokensPerDay.getD none, createdBy := user.owner })
    pure (.ok 201)

def create (user : User) (body : PolicyBody) : Handler Response :=
  orConflict "Failed to create model policy" <|
    match body.name.filter (· ≠ ""), body.allowedModels with
    | none, _ => pure (.error 400 "name is required")
    | _, none => pure (.error 400 "allowed_models must be an array")
    | some name, some models =>
      if body.modelAliases.isSome && !user.admin then
        pure (.error 403 "model_aliases can only be set by admins")
      else
        match aliasError (body.modelAliases.getD []) models with
        | some text => pure (.error 400 text)
        | none => insertValidated user body name models

/-- The alias check of a PUT, against the new list or the one that was read. -/
def updateAliasError (body : PolicyBody) (existing : List String) : Option String :=
  body.modelAliases.bind fun aliases => aliasError aliases (body.allowedModels.getD existing)

def validateGiven (user : User) (models : Option (List String)) : Handler (Option String) :=
  match models with
  | some models => validateAllowedModels models user.sub
  | none => pure none

/-- `PUT /:id`, after the ownership check. -/
def updateExisting (id : Uuid) (user : User) (body : PolicyBody) (existing : List String) :
    Handler Response :=
  if body.modelAliases.isSome && !user.admin then
    pure (.error 403 "model_aliases can only be set by admins")
  else
    match updateAliasError body existing with
    | some text => pure (.error 400 text)
    | none => do
      let modelError ← validateGiven user body.allowedModels
      match modelError with
      | some text => pure (.error 400 text)
      | none => do
        let _ : ℕ ← ask (.updatePolicy id
          { name := body.name.filter (· ≠ ""), description := body.description
            allowedModels := body.allowedModels
            maxRequestsPerMinute := body.maxRequestsPerMinute
            maxTokensPerDay := body.maxTokensPerDay, modelAliases := body.modelAliases })
        pure (.ok 200)

def update (id : Uuid) (user : User) (body : PolicyBody) : Handler Response :=
  orConflict "Failed to update model policy" do
    let existing : Option (List String) ← ask (.selectPolicy id user.owner)
    match existing with
    | none => pure (.error 404 "Model policy not found")
    | some existing => updateExisting id user body existing

def delete (id : Uuid) (user : User) : Handler Response :=
  tryCatch (do
    let assigned : Bool ← ask (.selectAssigned id)
    if assigned then pure (.error 409 "Cannot delete policy while agents are assigned to it")
    else do
      let count : ℕ ← ask (.deletePolicy id user.owner)
      if count = 0 then pure (.error 404 "Model policy not found") else pure (.ok 200))
    fun _ => pure (.error 500 "Failed to delete model policy")

/-- The best-effort scrub after the DELETE of a model. -/
def scrub (name : String) : Owner → Handler Unit
  | some owner => tryCatch (ask (.scrubModel name owner)) fun _ => pure ()
  | none => pure ()

def deleteModel (id : Uuid) (user : User) : Handler Response := do
  let deleted : Option (String × Owner) ← ask (.deleteModel id user.owner)
  match deleted with
  | none => pure (.error 404 "Model not found")
  | some (name, owner) => do
    scrub name owner
    pure (.ok 200)

inductive Request where
  | create (user : User) (body : PolicyBody)
  | update (id : Uuid) (user : User) (body : PolicyBody)
  | delete (id : Uuid) (user : User)
  | deleteModel (id : Uuid) (user : User)
  deriving DecidableEq, Repr

def Request.handler : Request → Handler Response
  | create user body => Policies.create user body
  | update id user body => Policies.update id user body
  | delete id user => Policies.delete id user
  | deleteModel id user => Policies.deleteModel id user

inductive Surroundings where
  | assign (agents : Table Assignee.agentId)
  | catalog (models : Table ModelEntry.id)

def Surroundings.apply (s : Store) : Surroundings → Option Store
  | assign agents => some { s with agents }
  | catalog models => some { s with models }

def Store.Fresh (s : Store) : Prop := ∀ p ∈ s.policies, p.createdBy = none

def service : Service Statement Statement.Rows Failure Request Response Store Unit Surroundings where
  fresh := Store.Fresh
  handler := Request.handler
  run := Statement.run
  environment := Surroundings.apply

/-! ## The router's lookup -/

structure AgentPolicy where
  allowedModels : List String := []
  maxRequestsPerMinute : Option ℤ := none
  maxTokensPerDay : Option ℤ := none
  modelAliases : Option Aliases := none
  deriving DecidableEq, Repr

def Policy.extract (p : Policy) : AgentPolicy where
  allowedModels := p.allowedModels
  maxRequestsPerMinute := p.maxRequestsPerMinute
  maxTokensPerDay := p.maxTokensPerDay
  modelAliases := some p.modelAliases

/-- A row of a query without an ORDER BY, in an order of the server's own. -/
def fetchrow (order : ℕ) (rows : List Policy) : Option Policy := rows[order % rows.length]?

def Store.assignedPolicy (s : Store) (agentId : String) : Option Policy :=
  (s.agents.get? agentId).bind fun a => a.modelPolicyId.bind fun id => s.book.policies.get? id

/-- `resolve_agent_policy`. -/
def resolveAgentPolicy (s : Store) (order : ℕ) (agentId : String) : AgentPolicy :=
  match s.assignedPolicy agentId with
  | some p => p.extract
  | none => ((fetchrow order (s.policies.filter fun p => p.name = "default")).map Policy.extract).getD {}

end Hill90.Policies
