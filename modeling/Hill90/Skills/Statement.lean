import Hill90.Foundation.Program
import Hill90.Chat.Statement
import Hill90.Skills.Record

/-! # The statements of the agent and skill routes

The SQL of `routes/agents.ts` and `routes/skills.ts` as far as it is about the configuration of
agents and their skills.  A transaction is one statement, which takes effect when it commits.
-/

namespace Hill90.Skills

open Chat (Uuid Failure)
open Policies (Policy ModelEntry)

structure NewAgent where
  agentId : String
  name : String
  description : String
  toolsConfig : StoredConfig
  cpus : String
  memLimit : String
  pidsLimit : ℤ
  soulMd : String
  rulesMd : String
  modelPolicyId : Option Uuid
  containerProfileId : Option Uuid
  createdBy : String
  deriving DecidableEq, Repr

/-- The SET clauses of an update of an agent; `none` leaves a column alone. -/
structure AgentUpdate where
  name : Option String := none
  description : Option String := none
  toolsConfig : Option StoredConfig := none
  cpus : Option String := none
  memLimit : Option String := none
  pidsLimit : Option ℤ := none
  soulMd : Option String := none
  rulesMd : Option String := none
  modelPolicyId : Option (Option Uuid) := none
  containerProfileId : Option (Option Uuid) := none
  tags : Option (List String) := none
  deriving DecidableEq, Repr

inductive PolicyWrite where
  | keep
  | reuse (id : Uuid) (models : List String)
  | upsert (slug owner : String) (models : List String)
  deriving DecidableEq, Repr

structure SkillUpdate where
  name : Option String := none
  toolsConfig : Option StoredConfig := none
  scope : Option Scope := none
  deriving DecidableEq, Repr

structure AgentView where
  agent : Agent
  models : List String
  skills : List Skill
  deriving DecidableEq, Repr

inductive Statement where
  | selectPolicy (id : Uuid)
  | selectModel (name owner : String)
  | selectProfile (id : Uuid)
  | selectSkills (ids : List Uuid)
  | selectSkillsNamed (names : List String)
  | selectSkill (id : Uuid)
  | selectAgent (id : Uuid) (owner : Option String)
  | selectDetail (id : Uuid) (owner : Option String)
  | selectAgentSkills (id : Uuid)
  | createAgent (agent : NewAgent) (models : Option (List String)) (skills : List Uuid)
  | updateAgent (id : Uuid) (update : AgentUpdate) (write : PolicyWrite) (skills : Option (List Uuid))
      (assignedBy : String)
  | insertAssignment (a : Assignment)
  | deleteAssignment (agentId skillId : Uuid)
  /-- Without a configuration the merge has thrown: its request goes on as after a failed query. -/
  | setToolsConfig (id : Uuid) (config : Option StoredConfig)
  | selectSlugs (stem : String)
  | insertAgent (agent : NewAgent)
  | selectAssigned (agentId : Uuid)
  | selectOwnPolicy (name owner : String)
  | rewritePolicy (id : Uuid) (description : String) (models : List String)
  | insertPolicy (name description owner : String) (models : List String)
  | setModelPolicy (id policyId : Uuid)
  | insertSkill (name : String) (scope : Scope) (toolsConfig : StoredConfig)
  | countRunning (skillId : Uuid)
  | countAssigned (skillId : Uuid)
  | updateSkill (id : Uuid) (update : SkillUpdate)
  | deleteSkill (id : Uuid)
  deriving DecidableEq, Repr

namespace Statement

abbrev Rows : Statement → Type
  | selectPolicy _ => Option Policy
  | selectModel .. | selectProfile _ => Bool
  | selectSkills _ | selectSkillsNamed _ | selectAgentSkills _ => List Skill
  | selectSkill _ => Option Skill
  | selectAgent .. => Option Agent
  | selectDetail .. => Option (Agent × List String)
  | createAgent .. => AgentView
  | updateAgent .. | insertAgent _ => Agent
  | insertAssignment _ | setToolsConfig .. | rewritePolicy .. | setModelPolicy .. | insertSkill ..
  | updateSkill .. | deleteSkill _ => Unit
  | deleteAssignment .. | countRunning _ | countAssigned _ => ℕ
  | selectSlugs _ => List String
  | selectAssigned _ => List Uuid
  | selectOwnPolicy .. => Option Uuid
  | insertPolicy .. => Uuid

end Statement

abbrev Handler (α : Type) := Program Statement Statement.Rows Failure α

def mergeFailed : Failure := .error "Cannot read properties of undefined"

def ask (s : Statement) : Handler s.Rows := Program.query s

/-- The scope of a query: everything for an admin, else the agents of one owner. -/
def inScope (owner : Option String) (createdBy : String) : Bool := owner.all (· = createdBy)

def NewAgent.toAgent (n : NewAgent) (id : Uuid) (modelPolicyId : Option Uuid) : Agent :=
  { id, agentId := n.agentId, name := n.name, description := n.description
    toolsConfig := n.toolsConfig, cpus := n.cpus, memLimit := n.memLimit, pidsLimit := n.pidsLimit
    soulMd := n.soulMd, rulesMd := n.rulesMd, modelPolicyId
    containerProfileId := n.containerProfileId, createdBy := n.createdBy }

def AgentUpdate.apply (u : AgentUpdate) (a : Agent) : Agent :=
  { a with
    name := u.name.getD a.name, description := u.description.getD a.description
    toolsConfig := u.toolsConfig.getD a.toolsConfig, cpus := u.cpus.getD a.cpus
    memLimit := u.memLimit.getD a.memLimit, pidsLimit := u.pidsLimit.getD a.pidsLimit
    soulMd := u.soulMd.getD a.soulMd, rulesMd := u.rulesMd.getD a.rulesMd
    modelPolicyId := u.modelPolicyId.getD a.modelPolicyId
    containerProfileId := u.containerProfileId.getD a.containerProfileId
    tags := u.tags.getD a.tags }

theorem AgentUpdate.apply_id (u : AgentUpdate) (a : Agent) : (u.apply a).id = a.id := rfl

def SkillUpdate.apply (u : SkillUpdate) (k : Skill) : Skill :=
  { k with
    name := u.name.getD k.name, toolsConfig := u.toolsConfig.getD k.toolsConfig
    scope := u.scope.getD k.scope }

def autoPolicyName (agentId : Uuid) : String := "agent-models-" ++ toString agentId

def autoPolicyDescription (slug : String) : String := "[auto-agent-models] " ++ slug

namespace Store

variable (s : Store)

def refers (a : Agent) : Bool :=
  (a.modelPolicyId.all fun id => (s.policies.get? id).isSome) &&
    a.containerProfileId.all fun id => s.profiles.contains id

def addAgent (new : NewAgent) : Except Failure (Agent × Store) :=
  let agent := new.toAgent s.nextId (new.modelPolicyId <|> s.defaultPolicy)
  if s.agents.rows.any fun a => a.agentId = new.agentId then
    .error (.uniqueViolation "agents_agent_id_key")
  else if s.refers agent then
    match s.agents.insert agent with
    | some agents => .ok (agent, { s with agents, nextId := s.nextId + 1 })
    | none => .error (.uniqueViolation "agents_pkey")
  else .error .foreignKeyViolation

def addAssignment (a : Assignment) : Except Failure Store :=
  if (s.agents.get? a.agentId).isSome && (s.skills.get? a.skillId).isSome then
    match s.assignments.insert a with
    | some assignments => .ok { s with assignments }
    | none => .error (.uniqueViolation "agent_skills_pkey")
  else .error .foreignKeyViolation

def addAssignments (s : Store) (agentId : Uuid) (assignedBy : String) : List Uuid → Except Failure Store
  | [] => .ok s
  | skillId :: rest =>
    match s.addAssignment ⟨agentId, skillId, assignedBy⟩ with
    | .ok s => s.addAssignments agentId assignedBy rest
    | .error e => .error e

def ownPolicy (name owner : String) : Option Uuid :=
  (s.policies.rows.find? fun p => p.name = name && p.createdBy = some owner).map (·.id)

def rewritePolicy (id : Uuid) (description : Option String) (models : List String) : Store :=
  let rewrite (p : Policy) : Policy :=
    { p with
      description := description.getD p.description, allowedModels := models, modelAliases := [] }
  { s with policies := s.policies.patch (fun p => p.id = id) (fun _ => rewrite) 0 fun _ _ => rfl }

def addPolicy (name description owner : String) (models : List String) : Except Failure (Uuid × Store) :=
  if (s.ownPolicy name owner).isSome then
    .error (.uniqueViolation "idx_model_policies_name_owner")
  else
    let policy : Policy :=
      { id := s.nextId, name, description, allowedModels := models, createdBy := some owner }
    match s.policies.insert policy with
    | some policies => .ok (s.nextId, { s with policies, nextId := s.nextId + 1 })
    | none => .error (.uniqueViolation "model_policies_pkey")

def upsertAutoPolicy (agentId : Uuid) (slug owner : String) (models : List String) :
    Except Failure (Uuid × Store) :=
  match s.ownPolicy (autoPolicyName agentId) owner with
  | some id => .ok (id, s.rewritePolicy id (some (autoPolicyDescription slug)) models)
  | none => s.addPolicy (autoPolicyName agentId) (autoPolicyDescription slug) owner models

def rewriteAgent (id : Uuid) (u : AgentUpdate) : Store :=
  { s with agents := s.agents.patch (fun a => a.id = id) (fun _ => u.apply) 0 fun _ => u.apply_id }

/-- The policy of a new agent's own, where its body names models. -/
def givePolicy (agent : Agent) (models : List String) : Except Failure (Option Uuid × Store) :=
  if models = [] then .ok (agent.modelPolicyId, s)
  else (s.upsertAutoPolicy agent.id agent.agentId agent.createdBy models).map fun r =>
    (some r.1, r.2.rewriteAgent agent.id { modelPolicyId := some (some r.1) })

/-- The transaction of a create, and of an import: the answer names the given models, even none. -/
def createAgent (new : NewAgent) (models : Option (List String)) (skills : List Uuid) :
    Except Failure (AgentView × Store) := do
  let (agent, s) ← s.addAgent new
  let (policyId, s) ← s.givePolicy agent (models.getD [])
  let s ← s.addAssignments agent.id new.createdBy skills
  .ok (⟨{ agent with modelPolicyId := policyId }, models.getD (s.modelsOf policyId),
    s.skillsOf agent.id⟩, s)

/-- The policy write of a PUT, and what it sets as the agent's policy. -/
def writePolicy (id : Uuid) (given : Option (Option Uuid)) : PolicyWrite →
    Except Failure (Option (Option Uuid) × Store)
  | .keep => .ok (given, s)
  | .reuse policyId models => .ok (some (some policyId), s.rewritePolicy policyId none models)
  | .upsert slug owner models => (s.upsertAutoPolicy id slug owner models).map fun r =>
    (some (some r.1), r.2)

def replaceAssignments (id : Uuid) (assignedBy : String) : Option (List Uuid) → Except Failure Store
  | none => .ok s
  | some skills =>
    { s with assignments := s.assignments.delete fun a => a.agentId = id }.addAssignments id assignedBy
      skills

def updateAgent (id : Uuid) (u : AgentUpdate) (write : PolicyWrite) (skills : Option (List Uuid))
    (assignedBy : String) : Except Failure (Agent × Store) := do
  let (modelPolicyId, s) ← s.writePolicy id u.modelPolicyId write
  let s := s.rewriteAgent id { u with modelPolicyId }
  match s.agents.get? id with
  | none => .error (.error "Cannot set properties of undefined")
  | some agent =>
    if s.refers agent then do
      let s ← s.replaceAssignments id assignedBy skills
      .ok (agent, s)
    else .error .foreignKeyViolation

def holders (skillId : Uuid) : List Agent :=
  (s.assignments.rows.filter fun a => a.skillId = skillId).filterMap fun a => s.agents.get? a.agentId

end Store

def Statement.run (s : Store) (_ : Unit) : (st : Statement) → Except Failure (st.Rows × Store)
  | .selectPolicy id => .ok (s.policies.get? id, s)
  | .selectModel name owner => .ok (s.models.rows.any fun m => m.usableBy name owner, s)
  | .selectProfile id => .ok (s.profiles.contains id, s)
  | .selectSkills ids => .ok (s.skills.rows.filter fun k => ids.contains k.id, s)
  | .selectSkillsNamed names => .ok (s.skills.rows.filter fun k => names.contains k.name, s)
  | .selectSkill id => .ok (s.skills.get? id, s)
  | .selectAgent id owner => .ok ((s.agents.get? id).filter fun a => inScope owner a.createdBy, s)
  | .selectDetail id owner =>
    .ok (((s.agents.get? id).filter fun a => inScope owner a.createdBy).map fun a =>
      (a, s.modelsOf a.modelPolicyId), s)
  | .selectAgentSkills id => .ok (s.skillsOf id, s)
  | .createAgent agent models skills => s.createAgent agent models skills
  | .updateAgent id update write skills assignedBy => s.updateAgent id update write skills assignedBy
  | .insertAssignment a => (s.addAssignment a).map fun s => ((), s)
  | .deleteAssignment agentId skillId =>
    .ok (s.assignments.count fun a => a.key = (agentId, skillId),
      { s with assignments := s.assignments.delete fun a => a.key = (agentId, skillId) })
  | .setToolsConfig id config =>
    match config with
    | some config => .ok ((), s.rewriteAgent id { toolsConfig := some config })
    | none => .error mergeFailed
  | .selectSlugs stem =>
    .ok ((s.agents.rows.map (·.agentId)).filter fun slug => stem.toList.isPrefixOf slug.toList, s)
  | .insertAgent agent => s.addAgent agent
  | .selectAssigned agentId =>
    .ok ((s.assignments.rows.filter fun a => a.agentId = agentId).map (·.skillId), s)
  | .selectOwnPolicy name owner => .ok (s.ownPolicy name owner, s)
  | .rewritePolicy id description models => .ok ((), s.rewritePolicy id (some description) models)
  | .insertPolicy name description owner models => s.addPolicy name description owner models
  | .setModelPolicy id policyId =>
    if (s.policies.get? policyId).isSome then
      .ok ((), s.rewriteAgent id { modelPolicyId := some (some policyId) })
    else .error .foreignKeyViolation
  | .insertSkill name scope toolsConfig =>
    if s.skills.rows.any fun k => k.name = name then .error (.uniqueViolation "skills_name_key")
    else
      match s.skills.insert { id := s.nextId, name, scope, toolsConfig } with
      | some skills => .ok ((), { s with skills, nextId := s.nextId + 1 })
      | none => .error (.uniqueViolation "skills_pkey")
  | .countRunning skillId => .ok ((s.holders skillId).countP fun a => a.status = "running", s)
  | .countAssigned skillId => .ok (s.assignments.count fun a => a.skillId = skillId, s)
  | .updateSkill id update =>
    if s.skills.rows.any fun k => update.name = some k.name && k.id ≠ id then
      .error (.uniqueViolation "skills_name_key")
    else .ok ((), { s with
      skills := s.skills.patch (fun k => k.id = id) (fun _ => update.apply) 0 fun _ _ => rfl })
  | .deleteSkill id =>
    if s.assignments.rows.any fun a => a.skillId = id then .error .foreignKeyViolation
    else .ok ((), { s with skills := s.skills.delete fun k => k.id = id })

end Hill90.Skills
