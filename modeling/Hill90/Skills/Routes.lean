import Hill90.Policies.Routes
import Hill90.Skills.Statement

/-! # The routes that configure agents and skills

`routes/agents.ts` (create, detail, export, import, update, skills and clone) and the writes of
`routes/skills.ts`.  Audit lines, environment variables, the shape checks of a body's limits and
slug, and the tools of a skill are left out, but for the answer to a malformed body.
-/

namespace Hill90.Skills

open Chat (Uuid Failure)
open Policies (Policy User)

structure AgentBody where
  agentId : Option String := none
  name : Option String := none
  description : Option String := none
  toolsConfig : Option StoredConfig := none
  cpus : Option String := none
  memLimit : Option String := none
  pidsLimit : Option ℤ := none
  soulMd : Option String := none
  rulesMd : Option String := none
  modelPolicyId : Option (Option Uuid) := none
  modelNames : Option (List String) := none
  skillIds : Option (List Uuid) := none
  skillNames : Option (List String) := none
  containerProfileId : Option (Option Uuid) := none
  tags : Option (List String) := none
  /-- What the checks of `cpus`, `mem_limit`, `pids_limit` and the slug find. -/
  malformed : Option String := none
  deriving DecidableEq, Repr

inductive Response where
  | error (code : ℕ) (text : String)
  | agent (code : ℕ) (view : AgentView)
  | exported (agent : Agent) (models skillNames : List String)
  | done (code : ℕ)
  deriving DecidableEq, Repr

def unlessAnswered (check : Handler (Option Response)) (rest : Handler Response) : Handler Response := do
  let answer : Option Response ← check
  match answer with
  | some response => pure response
  | none => rest

def validateModelNames (owner : String) : List String → Handler (Option Response)
  | [] => pure none
  | name :: rest => do
    let found : Bool ← ask (.selectModel name owner)
    if found then validateModelNames owner rest
    else pure (some (.error 400 ("Model '" ++ name ++ "' not found in user models for agent owner")))

def inaccessible (owner : String) : List String → Handler (List String)
  | [] => pure []
  | name :: rest => do
    let found : Bool ← ask (.selectModel name owner)
    let missing ← inaccessible owner rest
    pure (if found then missing else name :: missing)

def validatePolicyEligibility (policyId : Uuid) (owner : String) : Handler (Option Response) := do
  let policy : Option Policy ← ask (.selectPolicy policyId)
  match policy with
  | none => pure none
  | some policy => do
    let missing ← inaccessible owner policy.allowedModels
    pure (if missing = [] then none else some (.error 400
      ("Policy contains models not accessible to agent owner: " ++ String.intercalate ", " missing)))

/-- The policy a body names is the platform's or the caller's own, with models its agent can use. -/
def checkPolicy (policyId : Option Uuid) (user : User) (owner : String) : Handler (Option Response) :=
  match policyId with
  | none => pure none
  | some id => do
    let policy : Option Policy ← ask (.selectPolicy id)
    match policy with
    | none => pure (some (.error 400 "Model policy not found"))
    | some policy =>
      if policy.createdBy ≠ none ∧ policy.createdBy ≠ some user.sub then
        pure (some (.error 403 "Cannot assign another user's policy"))
      else validatePolicyEligibility id owner

def checkProfile (profileId : Option Uuid) : Handler (Option Response) :=
  match profileId with
  | none => pure none
  | some id => do
    let found : Bool ← ask (.selectProfile id)
    pure (if found then none else some (.error 400 "Container profile not found"))

def deniedScope (user : User) (skills : List Skill) : Option Response :=
  if user.admin then none
  else (skills.find? fun k => k.scope.elevated).map fun k =>
    .error 403 ("Assigning " ++ k.scope.text ++ " skills requires admin role")

def resolveSkills (user : User) (ids : List Uuid) : Handler (Except Response (List Skill)) :=
  if ids = [] then pure (.ok [])
  else do
    let skills : List Skill ← ask (.selectSkills ids)
    if skills.length ≠ ids.length then pure (.error (.error 400 "One or more skills not found"))
    else
      match deniedScope user skills with
      | some response => pure (.error response)
      | none => pure (.ok skills)

def resolveAgentModels (policyId : Option Uuid) : Handler (List String) :=
  match policyId with
  | none => pure []
  | some id => do
    let policy : Option Policy ← ask (.selectPolicy id)
    pure ((policy.map (·.allowedModels)).getD [])

def orConflict (conflict text : String) (p : Handler Response) : Handler Response :=
  tryCatch p fun err =>
    match err with
    | .uniqueViolation _ => pure (.error 409 conflict)
    | _ => pure (.error 500 text)

def orFailed (text : String) (p : Handler Response) : Handler Response :=
  tryCatch p fun _ => pure (.error 500 text)

def orDefault (given : Option String) (default : String) : String := (given.filter (· ≠ "")).getD default

def AgentBody.newAgent (b : AgentBody) (user : User) (agentId name : String) (toolsConfig : StoredConfig)
    (modelPolicyId containerProfileId : Option Uuid) : NewAgent :=
  { agentId, name, description := b.description.getD "", toolsConfig
    cpus := orDefault b.cpus "1.0", memLimit := orDefault b.memLimit "1g"
    pidsLimit := (b.pidsLimit.filter (· ≠ 0)).getD 200, soulMd := b.soulMd.getD ""
    rulesMd := b.rulesMd.getD "", modelPolicyId, containerProfileId, createdBy := user.sub }

def mergeSkills (skills : List Skill) : Handler StoredConfig :=
  match mergeStored (skills.map (·.toolsConfig)) with
  | some config => pure config
  | none => throw mergeFailed

/-- The merge of the skills, or what the body says without any. -/
def resolvedToolsConfig (given : Option StoredConfig) (skills : List Skill) : Handler StoredConfig :=
  if skills = [] then pure (given.getD defaultToolsConfig.stored) else mergeSkills skills

def normalizedNames (names : List String) : List String := dedupe (names.filter (· ≠ ""))

/-- `POST /`, with a slug and a name. -/
def createNamed (user : User) (b : AgentBody) (agentId name : String) : Handler Response :=
  if b.modelNames.isSome && b.modelPolicyId.isSome then
    pure (.error 400 "Use either model_names or model_policy_id, not both")
  else
    unlessAnswered (checkPolicy b.modelPolicyId.join user user.sub) <|
    unlessAnswered (validateModelNames user.sub (normalizedNames (b.modelNames.getD []))) <|
    unlessAnswered (checkProfile b.containerProfileId.join) do
      let ids := b.skillIds.getD []
      let resolved ← resolveSkills user ids
      match resolved with
      | .error response => pure response
      | .ok skills => do
        let toolsConfig ← resolvedToolsConfig b.toolsConfig skills
        let view : AgentView ← ask (.createAgent
          (b.newAgent user agentId name toolsConfig b.modelPolicyId.join b.containerProfileId.join)
          (b.modelNames.map normalizedNames) ids)
        pure (.agent 201 view)

def create (user : User) (b : AgentBody) : Handler Response :=
  orConflict "An agent with this agent_id already exists" "Failed to create agent" <|
    match b.malformed, b.agentId.filter (· ≠ ""), b.name.filter (· ≠ "") with
    | some text, _, _ => pure (.error 400 text)
    | none, some agentId, some name => createNamed user b agentId name
    | _, _, _ => pure (.error 400 "agent_id and name are required")

def importSkills (user : User) (names : List String) : Handler (Except Response (List Skill)) :=
  if names = [] then pure (.ok [])
  else do
    let skills : List Skill ← ask (.selectSkillsNamed names)
    if (skills.any fun k => k.scope.elevated) && !user.admin then
      pure (.error (.error 403 "Importing agents with elevated-scope skills requires admin role"))
    else pure (.ok skills)

/-- A profile that is not there is dropped. -/
def importProfile (profileId : Option Uuid) : Handler (Option Uuid) :=
  match profileId with
  | none => pure none
  | some id => do
    let found : Bool ← ask (.selectProfile id)
    pure (if found then some id else none)

def importNamed (user : User) (b : AgentBody) (agentId name : String) : Handler Response := do
  let resolved ← importSkills user (b.skillNames.getD [])
  match resolved with
  | .error response => pure response
  | .ok skills => do
    let toolsConfig ← resolvedToolsConfig b.toolsConfig skills
    unlessAnswered (validateModelNames user.sub (b.modelNames.getD [])) do
      let profileId ← importProfile b.containerProfileId.join
      let view : AgentView ← ask (.createAgent
        (b.newAgent user agentId name toolsConfig none profileId)
        (b.modelNames.filter (· ≠ [])) (skills.map (·.id)))
      pure (.agent 201 view)

def importAgent (user : User) (b : AgentBody) : Handler Response :=
  orConflict "An agent with this agent_id already exists" "Failed to import agent" <|
    match b.malformed, b.agentId.filter (· ≠ ""), b.name.filter (· ≠ "") with
    | some text, _, _ => pure (.error 400 text)
    | none, some agentId, some name => importNamed user b agentId name
    | _, _, _ => pure (.error 400 "Exported config must include agent_id and name")

def detail (user : User) (id : Uuid) : Handler Response :=
  orFailed "Failed to get agent" do
    let found : Option (Agent × List String) ← ask (.selectDetail id user.owner)
    match found with
    | none => pure (.error 404 "Agent not found")
    | some (agent, models) => do
      let skills : List Skill ← ask (.selectAgentSkills agent.id)
      pure (.agent 200 ⟨agent, models, skills⟩)

def exportAgent (user : User) (id : Uuid) : Handler Response :=
  orFailed "Failed to export agent" do
    let found : Option (Agent × List String) ← ask (.selectDetail id user.owner)
    match found with
    | none => pure (.error 404 "Agent not found")
    | some (agent, models) => do
      let skills : List Skill ← ask (.selectAgentSkills agent.id)
      pure (.exported agent models (skills.map (·.name)))

/-- How a PUT with model names will write them: to the agent's own policy, if that is one made for
it, or to a new one. -/
def planPolicy (existing : Agent) : Option (List String) → Handler PolicyWrite
  | none | some [] => pure .keep
  | some models => do
    match existing.modelPolicyId with
    | none => pure (.upsert existing.agentId existing.createdBy models)
    | some policyId => do
      let policy : Option Policy ← ask (.selectPolicy policyId)
      if policy.any fun p => p.description.startsWith "[auto-agent-models]" then
        pure (.reuse policyId models)
      else pure (.upsert existing.agentId existing.createdBy models)

/-- A non-admin may not take an elevated skill away by leaving it out. -/
def checkRemoved (user : User) (id : Uuid) (ids : List Uuid) : Handler (Option Response) :=
  if user.admin then pure none
  else do
    let current : List Skill ← ask (.selectAgentSkills id)
    pure ((current.find? fun k => !ids.contains k.id && k.scope.elevated).map fun k =>
      .error 403 ("Cannot remove " ++ k.scope.text ++ " skills without admin role"))

/-- The configuration a PUT writes: for an empty list, what its body says. -/
def updatedConfig (given : Option StoredConfig) (skills : List Skill) :
    Handler (Option StoredConfig) :=
  if skills = [] then pure given
  else do
    let toolsConfig ← mergeSkills skills
    pure (some toolsConfig)

def updateSkills (user : User) (id : Uuid) (given : Option StoredConfig) :
    Option (List Uuid) → Handler (Except Response (Option StoredConfig))
  | none => pure (.ok given)
  | some ids => do
    let resolved ← resolveSkills user ids
    match resolved with
    | .error response => pure (.error response)
    | .ok skills => do
      let toolsConfig ← updatedConfig given skills
      let removed ← checkRemoved user id ids
      pure (removed.elim (.ok toolsConfig) .error)

def AgentBody.update (b : AgentBody) (toolsConfig : Option StoredConfig) : AgentUpdate :=
  { name := b.name.filter (· ≠ ""), description := b.description, toolsConfig
    cpus := b.cpus.filter (· ≠ ""), memLimit := b.memLimit.filter (· ≠ ""), pidsLimit := b.pidsLimit
    soulMd := b.soulMd, rulesMd := b.rulesMd
    modelPolicyId := if b.modelNames.isSome then some none else b.modelPolicyId
    containerProfileId := b.containerProfileId, tags := b.tags }

/-- `PUT /:id`, after the ownership check. -/
def updateExisting (user : User) (id : Uuid) (b : AgentBody) (existing : Agent) : Handler Response :=
  if existing.status = "running" then
    pure (.error 409 "Cannot update a running agent. Stop it first.")
  else
    match b.malformed with
    | some text => pure (.error 400 text)
    | none =>
      if b.modelNames.isSome && b.modelPolicyId.isSome then
        pure (.error 400 "Use either model_names or model_policy_id, not both")
      else
        unlessAnswered (checkPolicy b.modelPolicyId.join user existing.createdBy) <|
        unlessAnswered (checkProfile b.containerProfileId.join) <|
        unlessAnswered (validateModelNames existing.createdBy (normalizedNames (b.modelNames.getD []))) do
          let write ← planPolicy existing (b.modelNames.map normalizedNames)
          let resolved ← updateSkills user id b.toolsConfig b.skillIds
          match resolved with
          | .error response => pure response
          | .ok toolsConfig => do
            let agent : Agent ← ask (.updateAgent id (b.update toolsConfig) write b.skillIds user.sub)
            let skills : List Skill ← ask (.selectAgentSkills id)
            let models ← resolveAgentModels agent.modelPolicyId
            pure (.agent 200 ⟨agent, models, skills⟩)

def update (user : User) (id : Uuid) (b : AgentBody) : Handler Response :=
  orFailed "Failed to update agent" do
    let existing : Option Agent ← ask (.selectAgent id user.owner)
    match existing with
    | none => pure (.error 404 "Agent not found")
    | some existing => updateExisting user id b existing

def checkAgent (user : User) (id : Uuid) : Handler (Option Response) := do
  let agent : Option Agent ← ask (.selectAgent id user.owner)
  match agent with
  | none => pure (some (.error 404 "Agent not found"))
  | some agent =>
    pure (if agent.status = "running" then
      some (.error 409 "Cannot modify skills on a running agent. Stop it first.") else none)

def insertAssignment (a : Assignment) : Handler (Option Response) :=
  tryCatch (do
    ask (.insertAssignment a)
    pure none) fun err =>
    match err with
    | .uniqueViolation _ => pure (some (.error 409 "Skill already assigned to this agent"))
    | err => throw err

def assign (user : User) (id skillId : Uuid) : Handler Response :=
  orFailed "Failed to assign skill" <|
    unlessAnswered (checkAgent user id) do
      let skill : Option Skill ← ask (.selectSkill skillId)
      match skill with
      | none => pure (.error 404 "Skill not found")
      | some skill =>
        if skill.scope.elevated && !user.admin then
          pure (.error 403 ("Assigning " ++ skill.scope.text ++ " skills requires admin role"))
        else
          unlessAnswered (insertAssignment ⟨id, skillId, user.sub⟩) do
            let skills : List Skill ← ask (.selectAgentSkills id)
            ask (.setToolsConfig id (mergeStored (skills.map (·.toolsConfig))))
            pure (.done 201)

def remove (user : User) (id skillId : Uuid) : Handler Response :=
  orFailed "Failed to remove skill" <|
    unlessAnswered (checkAgent user id) do
      let skill : Option Skill ← ask (.selectSkill skillId)
      match skill with
      | none => pure (.error 404 "Skill not found")
      | some skill =>
        if skill.scope.elevated && !user.admin then
          pure (.error 403 ("Removing " ++ skill.scope.text ++ " skills requires admin role"))
        else do
          let count : ℕ ← ask (.deleteAssignment id skillId)
          if count = 0 then pure (.error 404 "Skill assignment not found")
          else do
            let skills : List Skill ← ask (.selectAgentSkills id)
            ask (.setToolsConfig id (mergeStored (skills.map (·.toolsConfig))))
            pure (.done 200)

/-- The first free slug of a clone. -/
def cloneSlug (slug : String) (taken : List String) : String :=
  let stem := slug ++ "-clone"
  if taken.contains stem then
    let n := ((List.range' 2 (taken.length + 1)).find? fun n =>
      !taken.contains (stem ++ "-" ++ toString n)).getD (taken.length + 3)
    stem ++ "-" ++ toString n
  else stem

/-- The source's policy for the clone: none that was made for the source or is another user's. -/
def clonedPolicy (user : User) : Option Uuid → Handler (Option Uuid)
  | none => pure none
  | some policyId => do
    let policy : Option Policy ← ask (.selectPolicy policyId)
    pure (if policy.any fun p => !p.description.startsWith "[auto-agent-models]" &&
      (p.createdBy = none || p.createdBy = some user.sub) then some policyId else none)

def copyAssignments (user : User) (id : Uuid) (skills : List Uuid) : Handler Unit :=
  skills.forM fun skillId => ask (.insertAssignment ⟨id, skillId, user.sub⟩)

def upsertAutoPolicy (agentId : Uuid) (slug owner : String) (models : List String) : Handler Uuid := do
  let existing : Option Uuid ← ask (.selectOwnPolicy (autoPolicyName agentId) owner)
  match existing with
  | some id => do
    ask (.rewritePolicy id (autoPolicyDescription slug) models)
    pure id
  | none => ask (.insertPolicy (autoPolicyName agentId) (autoPolicyDescription slug) owner models)

/-- The models of the source's policy where that was not copied. -/
def uncopiedModels (src : Agent) (policyId : Option Uuid) : Handler (List String) :=
  if policyId = none then resolveAgentModels src.modelPolicyId else pure []

/-- The models of a clone: a policy of its own where the source had one that was not copied. -/
def cloneModels (user : User) (src cloned : Agent) (policyId : Option Uuid) :
    Handler (Agent × List String) := do
  let models ← uncopiedModels src policyId
  if models = [] then do
    let models ← resolveAgentModels cloned.modelPolicyId
    pure (cloned, models)
  else do
    let autoPolicyId ← upsertAutoPolicy cloned.id cloned.agentId user.sub models
    ask (.setModelPolicy cloned.id autoPolicyId)
    pure ({ cloned with modelPolicyId := some autoPolicyId }, models)

def Agent.cloneOf (src : Agent) (user : User) (slug name : String) (policyId : Option Uuid) : NewAgent :=
  { agentId := slug, name, description := src.description, toolsConfig := src.toolsConfig
    cpus := src.cpus, memLimit := src.memLimit, pidsLimit := src.pidsLimit, soulMd := src.soulMd
    rulesMd := src.rulesMd, modelPolicyId := policyId, containerProfileId := src.containerProfileId
    createdBy := user.sub }

def cloneSource (user : User) (id : Uuid) (name : Option String) (src : Agent) : Handler Response := do
  let taken : List String ← ask (.selectSlugs (src.agentId ++ "-clone"))
  let policyId ← clonedPolicy user src.modelPolicyId
  let cloned : Agent ← ask (.insertAgent
    (src.cloneOf user (cloneSlug src.agentId taken) (orDefault name (src.name ++ " (Clone)")) policyId))
  let assigned : List Uuid ← ask (.selectAssigned id)
  copyAssignments user cloned.id assigned
  let (agent, models) ← cloneModels user src cloned policyId
  let skills : List Skill ← ask (.selectAgentSkills cloned.id)
  pure (.agent 201 ⟨agent, models, skills⟩)

/-- The source is looked up for every owner. -/
def clone (user : User) (id : Uuid) (name : Option String) : Handler Response :=
  orConflict "Clone slug already exists — try again" "Failed to clone agent" do
    let src : Option Agent ← ask (.selectAgent id none)
    match src with
    | none => pure (.error 404 "Agent not found")
    | some src => cloneSource user id name src

def defaultToolsConfigForScope : ToolsConfig where
  shell := { enabled := true }
  filesystem := { enabled := true, allowedPaths := ["/workspace", "/data", "/home/agentuser"] }

structure SkillBody where
  name : Option String := none
  toolsConfig : Option StoredConfig := none
  scope : Option Scope := none
  deriving DecidableEq, Repr

def createSkill (b : SkillBody) : Handler Response :=
  orConflict "A skill with this name already exists" "Failed to create skill" <|
    match b.name.filter (· ≠ "") with
    | none => pure (.error 400 "name is required")
    | some name => do
      ask (.insertSkill name (b.scope.getD .containerLocal) (b.toolsConfig.getD defaultToolsConfigForScope.stored))
      pure (.done 201)

/-- The scope-change contract: no change to or from an elevated scope under a running agent, and
none to an elevated scope while any agent is assigned. -/
def checkScopeChange (id : Uuid) (oldScope newScope : Scope) : Handler (Option Response) :=
  if oldScope ≠ newScope ∧ (oldScope.elevated || newScope.elevated) then do
    let running : ℕ ← ask (.countRunning id)
    if 0 < running then
      pure (some (.error 409 "Cannot change scope while running agents are assigned. Stop the agent(s) first."))
    else if newScope.elevated then do
      let count : ℕ ← ask (.countAssigned id)
      pure (if 0 < count then
        some (.error 409 "Cannot escalate scope while agents are assigned. Remove assignments first.")
        else none)
    else pure none
  else pure none

def updateSkill (id : Uuid) (b : SkillBody) : Handler Response :=
  orConflict "A skill with this name already exists" "Failed to update skill" do
    let existing : Option Skill ← ask (.selectSkill id)
    match existing with
    | none => pure (.error 404 "Skill not found")
    | some existing =>
      unlessAnswered (checkScopeChange id existing.scope (b.scope.getD existing.scope)) do
        ask (.updateSkill id { name := b.name.filter (· ≠ ""), toolsConfig := b.toolsConfig, scope := b.scope })
        pure (.done 200)

def deleteSkill (id : Uuid) : Handler Response :=
  orFailed "Failed to delete skill" do
    let existing : Option Skill ← ask (.selectSkill id)
    match existing with
    | none => pure (.error 404 "Skill not found")
    | some existing =>
      if existing.isPlatform then pure (.error 403 "Cannot delete a platform skill")
      else do
        let count : ℕ ← ask (.countAssigned id)
        if 0 < count then pure (.error 409 "Cannot delete skill while agents are assigned to it")
        else do
          ask (.deleteSkill id)
          pure (.done 200)

inductive Request where
  | create (user : User) (body : AgentBody)
  | importAgent (user : User) (body : AgentBody)
  | detail (user : User) (id : Uuid)
  | exportAgent (user : User) (id : Uuid)
  | update (user : User) (id : Uuid) (body : AgentBody)
  | assign (user : User) (id skillId : Uuid)
  | remove (user : User) (id skillId : Uuid)
  | clone (user : User) (id : Uuid) (name : Option String)
  | createSkill (body : SkillBody)
  | updateSkill (id : Uuid) (body : SkillBody)
  | deleteSkill (id : Uuid)
  deriving DecidableEq, Repr

def Request.handler : Request → Handler Response
  | create user body => Skills.create user body
  | importAgent user body => Skills.importAgent user body
  | detail user id => Skills.detail user id
  | exportAgent user id => Skills.exportAgent user id
  | update user id body => Skills.update user id body
  | assign user id skillId => Skills.assign user id skillId
  | remove user id skillId => Skills.remove user id skillId
  | clone user id name => Skills.clone user id name
  | createSkill body => Skills.createSkill body
  | updateSkill id body => Skills.updateSkill id body
  | deleteSkill id => Skills.deleteSkill id

/-- The caller of a request on an agent; the skill routes are for admins only. -/
def Request.caller : Request → Option User
  | create user _ | importAgent user _ | detail user _ | exportAgent user _ | update user _ _
  | assign user _ _ | remove user _ _ | clone user _ _ => some user
  | createSkill _ | updateSkill .. | deleteSkill _ => none

/-- Other routes start and stop agents, delete them, and change policies, models and profiles. -/
inductive Surroundings where
  | status (id : Uuid) (status : String)
  | deleted (id : Uuid)
  | library (policies : Table Policy.id) (models : Table Policies.ModelEntry.id) (profiles : List Uuid)

def Surroundings.apply (s : Store) : Surroundings → Option Store
  | status id value => some { s with
      agents := s.agents.patch (fun a => a.id = id) (fun _ a => { a with status := value }) 0
        fun _ _ => rfl }
  | deleted id => some { s with
      agents := s.agents.delete fun a => a.id = id
      assignments := s.assignments.delete fun a => a.agentId = id }
  | library policies models profiles => some { s with policies, models, profiles }

def Store.Fresh (s : Store) : Prop :=
  (∀ k ∈ s.skills.rows, k.id < s.nextId) ∧ ∀ x ∈ s.assignments.rows, x.skillId < s.nextId

def service : Service Statement Statement.Rows Failure Request Response Store Unit Surroundings where
  fresh := Store.Fresh
  handler := Request.handler
  run := Statement.run
  environment := Surroundings.apply

end Hill90.Skills
