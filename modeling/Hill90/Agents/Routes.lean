import Hill90.Foundation.Serial
import Hill90.Agents.Statement

/-! # Start, stop, delete and refresh of an agent, and the reconcile pass

The routes of `routes/agents.ts` and `model-router-refresh.ts`, and `runReconcilePass` with
`reconcileAgentStatuses`.  Audit lines, webhooks, notices and the status history are left out.
-/

namespace Hill90.Agents

open Chat (Uuid Failure)

structure Config where
  hostConfigPath : Bool := true
  akm : Bool := true
  modelRouter : Bool := true
  deriving DecidableEq, Repr

/-- `isAkmConfigured` and `isModelRouterConfigured`. -/
def Config.configured (cfg : Config) : TokenKind → Bool
  | .akm => cfg.akm
  | .modelRouter => cfg.modelRouter

structure ReconcileResult where
  checked : ℕ := 0
  promoted : ℕ := 0
  demoted : ℕ := 0
  unverified : List String := []
  deriving DecidableEq, Repr

inductive Response where
  | status (code : ℕ)
  | passed (result : Option ReconcileResult)
  deriving DecidableEq, Repr

abbrev Handler (α : Type) := Program Statement Statement.Rows Failure α

def ask (s : Statement) : Handler s.Rows := Program.query s

/-- An error is logged and goes no further. -/
def best (p : Handler Unit) : Handler Unit := tryCatch p fun _ => pure ()

/-- `stopAndRemoveContainer`. -/
def stopAndRemoveContainer (agentId : String) : Handler Unit := do
  let info : Option Container ← ask (.inspect agentId)
  match info with
  | none => throw notFound
  | some _ => do
    best (ask (.stopContainer agentId))
    ask (.removeContainer agentId)

/-- The collision check: a container of this name goes first. -/
def removeExisting (agentId : String) : Handler Unit :=
  tryCatch (stopAndRemoveContainer agentId) fun err => if err = notFound then pure () else throw err

/-- `createAndStartContainer`. -/
def createAndStartContainer (agentId : String) : Handler Uuid := do
  removeExisting agentId
  ask (.checkLimits agentId)
  let containerId : Uuid ← ask (.createContainer agentId)
  ask (.startContainer agentId containerId)
  ask (.inspectCreated agentId containerId)
  pure containerId

def mintToken (cfg : Config) (kind : TokenKind) (id : Uuid) : Handler (Option Credential) :=
  if cfg.configured kind then tryCatch (ask (.mint kind id)) fun _ => pure none else pure none

def storeMinted (kind : TokenKind) (id : Uuid) : Option Credential → Handler Unit
  | some credential => best (ask (.storeToken kind id credential))
  | none => pure ()

def readStartedAt (agentId : String) : Handler (Option ℕ) :=
  tryCatch (do
    let info : Option Container ← ask (.inspectStarted agentId)
    pure (info.bind (·.startedAt))) fun _ => pure none

/-- `ensureRequiredToolsInstalled`; the container goes when it fails. -/
def installRequiredTools (agent : Agent) : Handler Unit :=
  tryCatch (ask (.installTools agent.id)) fun _ => do
    best (stopAndRemoveContainer agent.agentId)
    throw (.error "Tool installation failed")

def failStart (id : Uuid) : Failure → Handler Response
  | .error detail => do
    best (ask (.markError id detail))
    pure (.status 500)
  | _ => do
    best (ask (.markError id "Failed to start agent"))
    pure (.status 500)

def launch (cfg : Config) (agent : Agent) : Handler Response := do
  ask (.readSkills agent.id)
  let akm ← mintToken cfg .akm agent.id
  let modelRouter ← mintToken cfg .modelRouter agent.id
  let workToken : Uuid ← ask .randomUUID
  ask (.readScope agent.id)
  ask (.readProfile agent.id)
  let containerId ← createAndStartContainer agent.agentId
  let startedAt ← readStartedAt agent.agentId
  installRequiredTools agent
  storeMinted .akm agent.id akm
  storeMinted .modelRouter agent.id modelRouter
  ask (.markRunning agent.id containerId workToken)
  best (ask (.insertSession agent.id startedAt))
  pure (.status 200)

/-- `POST /:id/start`. -/
def start (cfg : Config) (id : Uuid) : Handler Response :=
  tryCatch (
    if !cfg.hostConfigPath then pure (.status 503)
    else do
      let agent : Option Agent ← ask (.selectAgent id)
      match agent with
      | none => pure (.status 404)
      | some agent => launch cfg agent) (failStart id)

def revokeToken (cfg : Config) (kind : TokenKind) (agent : Agent) : Handler Bool :=
  match agent.credential kind with
  | some credential =>
    if cfg.configured kind then
      tryCatch (do
        ask (.revoke kind agent.agentId credential.jti)
        pure false) fun _ => pure true
    else pure false
  | none => pure false

/-- The container removal of a stop, which records its failure before it passes it on. -/
def removeOrRecord (agent : Agent) : Handler Unit :=
  tryCatch (stopAndRemoveContainer agent.agentId) fun _ => do
    best (ask (.markError agent.id "Container removal failed"))
    throw (.error "Container removal failed")

/-- `POST /:id/stop`. -/
def stop (cfg : Config) (id : Uuid) : Handler Response :=
  tryCatch (do
    let agent : Option Agent ← ask (.selectAgent id)
    match agent with
    | none => pure (.status 404)
    | some agent => do
      let akmKept ← revokeToken cfg .akm agent
      let modelRouterKept ← revokeToken cfg .modelRouter agent
      removeOrRecord agent
      best (ask (.closeMessages agent.id))
      best (ask (.closeSessions agent.id))
      ask (.markStopped agent.id akmKept modelRouterKept)
      pure (.status 200)) fun _ => pure (.status 500)

def removeRunning (agent : Agent) : Handler Unit :=
  if agent.status = .running then best (stopAndRemoveContainer agent.agentId) else pure ()

/-- `DELETE /:id`; volumes, avatar and files are left out. -/
def delete (cfg : Config) (id : Uuid) : Handler Response :=
  tryCatch (do
    let agent : Option Agent ← ask (.selectAgent id)
    match agent with
    | none => pure (.status 404)
    | some agent => do
      let _ ← revokeToken cfg .akm agent
      let _ ← revokeToken cfg .modelRouter agent
      removeRunning agent
      ask (.deleteAgent agent.id)
      pure (.status 200)) fun _ => pure (.status 500)

/-- The token that a refresh replaced. -/
def revokeReplaced (agent : Agent) : Handler Unit :=
  match agent.modelRouter with
  | some credential => best (ask (.revoke .modelRouter agent.agentId credential.jti))
  | none => pure ()

/-- `refreshModelRouterToken`, once the bearer is verified. -/
def refresh (sub : String ⊕ Uuid) (secret : Uuid) : Handler Response :=
  tryCatch (do
    let agent : Option Agent ← ask (.selectRefreshable sub secret)
    match agent with
    | none => pure (.status 401)
    | some agent => do
      let minted : Option Credential ← ask (.mint .modelRouter agent.id)
      match minted with
      | none => throw (.error "SIGNING_PRIVATE_KEY not configured")
      | some credential => do
        ask (.storeToken .modelRouter agent.id credential)
        revokeReplaced agent
        pure (.status 200)) fun _ => pure (.status 500)

abbrev Observation := Option (Option Container)

def Container.running (c : Option Container) : Bool := c.any fun c => c.status = .running

def stateOf (c : Option Container) : ContainerState := c.elim .absent (·.status)

def reconcileRow (agent : Agent) : Observation → Option AgentStatusPatch
  | none =>
    if agent.containerState.isSome then
      some { id := agent.id, agentId := agent.agentId, previousStatus := agent.status
             status := agent.status, containerState := none }
    else none
  | some state =>
    let containerState := stateOf state
    let containerIsRunning := Container.running state
    let alreadyObservedNotRunning := agent.containerState.any fun c => c ≠ .running
    let confirmedDown := containerState = .absent || alreadyObservedNotRunning
    if containerIsRunning && agent.status ≠ .running then
      some { id := agent.id, agentId := agent.agentId, previousStatus := agent.status
             status := .running, containerState := some containerState
             containerId := some (state.map (·.id)), errorMessage := some none
             containerFinishedAt := some none }
    else if !containerIsRunning && agent.status = .running && confirmedDown then
      some { id := agent.id, agentId := agent.agentId, previousStatus := agent.status
             status := .stopped, containerState := some containerState, containerId := some none
             errorMessage := some (some (if state.isSome then "Container " ++ containerState.text
               else "Container not found"))
             containerFinishedAt := some (state.bind (·.finishedAt)) }
    else if (!containerIsRunning && agent.status = .running) ||
        agent.containerState ≠ some containerState then
      some { id := agent.id, agentId := agent.agentId, previousStatus := agent.status
             status := agent.status, containerState := some containerState }
    else none

/-- `inspectContainer`, or that it failed. -/
def observe (agentId : String) : Handler Observation :=
  tryCatch (do
    let state : Option Container ← ask (.inspect agentId)
    pure (some state)) fun _ => pure none

def applyPatch : Option AgentStatusPatch → Handler Unit
  | some p => ask (.patch p)
  | none => pure ()

def ReconcileResult.count (r : ReconcileResult) (agent : Agent) (seen : Observation)
    (p : Option AgentStatusPatch) : ReconcileResult :=
  match seen with
  | none => { r with unverified := r.unverified ++ [agent.agentId] }
  | some _ =>
    if p.any fun p => p.status = .running && agent.status ≠ .running then
      { r with promoted := r.promoted + 1 }
    else if p.any fun p => p.status ≠ .running && agent.status = .running then
      { r with demoted := r.demoted + 1 }
    else r

/-- `reconcileAgentStatuses`, from an agent on. -/
def reconcileAgentStatuses : List Agent → ReconcileResult → Handler ReconcileResult
  | [], r => pure r
  | agent :: agents, r => do
    let seen ← observe agent.agentId
    applyPatch (reconcileRow agent seen)
    reconcileAgentStatuses agents (r.count agent seen (reconcileRow agent seen))

/-- `runReconcilePass`. -/
def runReconcilePass : Handler Response :=
  tryCatch (do
    let agents : List Agent ← ask .selectAgents
    let result ← reconcileAgentStatuses agents { checked := agents.length }
    best (ask .sweepSessions)
    pure (.passed (some result))) fun _ => pure (.passed none)

inductive Request where
  | start (id : Uuid)
  | stop (id : Uuid)
  | delete (id : Uuid)
  | refresh (sub : String ⊕ Uuid) (secret : Uuid)
  | pass
  deriving DecidableEq, Repr

def Request.handler (cfg : Config) : Request → Handler Response
  | start id => Agents.start cfg id
  | stop id => Agents.stop cfg id
  | delete id => Agents.delete cfg id
  | refresh sub secret => Agents.refresh sub secret
  | pass => runReconcilePass

/-- Time passes, or a container changes on its own. -/
inductive Surroundings where
  | tick (d : ℕ)
  | docker (agentId : String) (c : Option Container)
  deriving DecidableEq, Repr

def Container.ended (now : ℕ) (c : Container) : Bool := c.finishedAt.all fun t => t ≤ now

def Surroundings.apply (s : Store) : Surroundings → Option Store
  | tick d => some { s with now := s.now + d }
  | docker agentId c => if c.all (Container.ended s.now) then some (s.setContainer agentId c) else none

def Agent.asCreated (a : Agent) : Bool :=
  a = { id := a.id, agentId := a.agentId, createdBy := a.createdBy }

structure Store.Fresh (s : Store) : Prop where
  names : (s.agents.rows.map Agent.agentId).Nodup
  agents : ∀ a ∈ s.agents.rows, a.asCreated = true
  sessions : s.sessions.rows = []
  containers : ∀ agentId c, s.containers agentId = some c → c.ended s.now = true
  issued : s.issued = []

def service (cfg : Config) :
    Service Statement Statement.Rows Failure Request Response Store Choice Surroundings where
  fresh := Store.Fresh
  handler := Request.handler cfg
  run := Statement.run
  environment := Surroundings.apply

def oneAgent (container : Option Container) : Store where
  agents := ⟨[{ id := 1, agentId := "scout", createdBy := "jon" }], by decide⟩
  containers agentId := if agentId = "scout" then container else none
  nextId := 10

theorem fresh_oneAgent (container : Option Container) (h : container.all (Container.ended 0) = true) :
    (oneAgent container).Fresh where
  names := List.nodup_singleton _
  agents := by
    intro a ha
    obtain rfl := List.mem_singleton.mp ha
    rfl
  sessions := rfl
  containers := by
    intro agentId c hc
    simp only [oneAgent] at hc
    split at hc
    · rwa [hc] at h
    · cases hc
  issued := rfl

end Hill90.Agents
