import Hill90.Chat.Callback

/-! # The routes that write chat state

One program for each route, from its checks to its answer; the last `catch` of a route
is its 500.  `POST /agents/:id/stop` is here because it closes the messages of the
agent it stops.
-/

namespace Hill90.Chat

structure User where
  sub : Uuid
  admin : Bool
  deriving DecidableEq, Repr

def maxAgentsPerGroup : ℕ := 8

def defaultPage : ℕ := 500

def threadNotFound : Response := ⟨404, .error "Thread not found"⟩

def failWith (text : String) (p : Handler Response) : Handler Response :=
  tryCatch p fun _ => pure ⟨500, .error text⟩

/-- The catch of the two routes that insert a user message. -/
def orDuplicate (text : String) (p : Handler Response) : Handler Response :=
  tryCatch p fun
    | .uniqueViolation constraint =>
      if constraint = idempotencyIndex then
        pure ⟨409, .error "Duplicate message (idempotency key already used)"⟩
      else pure ⟨500, .error text⟩
    | _ => pure ⟨500, .error text⟩

def isParticipant (threadId : Uuid) (user : User) : Handler Bool :=
  if user.admin then pure true else query (.isParticipant threadId user.sub)

def isThreadOwner (threadId userId : Uuid) (admin : Bool) : Handler Bool :=
  if admin then pure true else query (.isThreadOwner threadId userId)

structure CreateRequest where
  user : User
  agentId : Option Uuid := none
  agentIds : List Uuid := []
  message : Option String
  title : Option String := none
  idempotencyKey : Option String := none
  leadAgentId : Option Uuid := none
  deriving DecidableEq, Repr

structure SendRequest where
  user : User
  threadId : Uuid
  message : Option String
  idempotencyKey : Option String := none
  deriving DecidableEq, Repr

def messageText (message : Option String) : Option String :=
  message.bind fun text => if (trim text).isEmpty then none else some (trim text)

def loadAgents : List Uuid → Handler (Except Uuid (List Agent))
  | [] => pure (.ok [])
  | uuid :: uuids => do
    let agent : Option Agent ← query (.getAgentForDispatch uuid)
    match agent with
    | none => pure (.error uuid)
    | some agent =>
      let rest ← loadAgents uuids
      pure (rest.map (agent :: ·))

def loadKnownAgents : List Uuid → Handler (List Agent)
  | [] => pure []
  | uuid :: uuids => do
    let agent : Option Agent ← query (.getAgentForDispatch uuid)
    let rest ← loadKnownAgents uuids
    pure (agent.toList ++ rest)

/-- The first agent that is elevated while the user is no admin, with its scope. -/
def deniedAgent (admin : Bool) : List Agent → Handler (Option (Agent × String))
  | [] => pure none
  | agent :: agents => do
    let elevatedScope : Option String ← query (.getAgentElevatedScope agent.id)
    match elevatedScope with
    | some scope => if admin then deniedAgent admin agents else pure (some (agent, scope))
    | none => deniedAgent admin agents

def elevatedDenied (agent : Agent) (scope : String) : Response :=
  ⟨403, .error ("Elevated agent " ++ agent.peer.name ++ " (" ++ scope ++
    ") requires admin privileges")⟩

def skippedNotRunning (agents : List Agent) : List (Uuid × String) :=
  (agents.filter fun a => !a.isDispatchable).map fun a => (a.id, "not_running")

def firstMessageId (dispatched : List Dispatched) (failed : List Undelivered) : Option Uuid :=
  (dispatched.head?.map (·.messageId)).or (failed.head?.map (·.messageId))

/-- What `POST /threads` refuses before it looks at the database, else the agents,
the type of the thread and the text. -/
def checkCreate (req : CreateRequest) : Except Response (List Uuid × ThreadType × String) :=
  let agentUuids := if req.agentIds.isEmpty then req.agentId.toList else req.agentIds
  if agentUuids.isEmpty then .error ⟨400, .error "agent_id or agent_ids is required"⟩
  else
    match messageText req.message with
    | none => .error ⟨400, .error "message is required and must be a non-empty string"⟩
    | some text =>
      let threadType : ThreadType := if agentUuids.length = 1 then .direct else .group
      if threadType = .group && maxAgentsPerGroup < agentUuids.length then
        .error ⟨400, .error "Maximum 8 agents per group thread"⟩
      else
        match req.leadAgentId with
        | none => .ok (agentUuids, threadType, text)
        | some lead =>
          if threadType ≠ .group then
            .error ⟨400, .error "lead_agent_id is only valid for group threads (requires agent_ids with 2+ agents)"⟩
          else if lead ∉ agentUuids then
            .error ⟨400, .error "lead_agent_id must be one of the agent_ids"⟩
          else .ok (agentUuids, threadType, text)

def onlyLead (leadAgentId : Option Uuid) (agents : List Agent) : List Agent :=
  match leadAgentId with
  | some lead => agents.filter fun a => a.id = lead
  | none => agents

/-- The transaction, the dispatch and the answer of `POST /threads`. -/
def openThread (cfg : Config) (req : CreateRequest) (threadType : ThreadType) (text : String)
    (agents toDispatch : List Agent) : Handler Response := do
  let (thread, userMsg) : Thread × Uuid × ℕ ← query (.createThread threadType (orNull req.title)
    req.user.sub req.leadAgentId (agents.map (·.id)) text (orNull req.idempotencyKey))
  let (dispatched, failed) ← dispatchToAgents cfg
    { threadId := thread.id, agents := toDispatch, replyTo := userMsg.1
      historyMessages := [⟨.user, text⟩], threadType := some threadType
      participants := if threadType = .group then some (agents.map Agent.peer) else none
      leadAgentId := req.leadAgentId }
  pure ⟨201, .sent (some thread)
    (if threadType = .direct then firstMessageId dispatched failed else none)
    userMsg dispatched (skippedNotRunning agents) failed⟩

def createThread (cfg : Config) (req : CreateRequest) : Handler Response :=
  orDuplicate "Failed to create thread" <|
    match checkCreate req with
    | .error response => pure response
    | .ok (agentUuids, threadType, text) => do
      match ← loadAgents agentUuids with
      | .error uuid => pure ⟨404, .error ("Agent not found: " ++ toString uuid)⟩
      | .ok agents =>
        match ← deniedAgent req.user.admin agents with
        | some (agent, scope) => pure (elevatedDenied agent scope)
        | none =>
          let dispatchable := agents.filter Agent.isDispatchable
          let toDispatch := onlyLead req.leadAgentId dispatchable
          if dispatchable.isEmpty then
            pure ⟨400, .error "No available agents — all selected agents are not running"⟩
          else if toDispatch.isEmpty then pure ⟨409, .error "Lead agent is not running"⟩
          else openThread cfg req threadType text agents toDispatch

/-- The agents a send may dispatch and the ones it skips, each with the reason. -/
def classifyAgents (threadId : Uuid) : List Agent → Handler (List Agent × List (Uuid × String))
  | [] => pure ([], [])
  | agent :: agents =>
    if agent.isDispatchable then do
      let pending : Bool ← query (.selectPending threadId agent.id)
      let (dispatchable, skipped) ← classifyAgents threadId agents
      pure (if pending then (dispatchable, (agent.id, "has_pending") :: skipped)
        else (agent :: dispatchable, skipped))
    else do
      let (dispatchable, skipped) ← classifyAgents threadId agents
      pure (dispatchable, (agent.id, "not_running") :: skipped)

def nothingToDispatch (threadType : ThreadType) (skipped : List (Uuid × String)) : Response :=
  match threadType with
  | .direct =>
    if skipped.head?.map (·.2) = some "has_pending" then
      ⟨409, .error "Agent is still responding to a previous message"⟩
    else ⟨409, .error "Agent is not running"⟩
  | .group => ⟨409, .error "No agents available for dispatch (all pending or not running)"⟩

def peersOf (threadType : ThreadType) (uuids : List Uuid) : Handler (Option (List Peer)) :=
  if threadType = .group then do
    let infos ← loadKnownAgents uuids
    pure (some (infos.map Agent.peer))
  else pure none

def deliver (cfg : Config) (req : SendRequest) (text : String) (threadType : ThreadType)
    (leadAgentId : Option Uuid) (allAgentUuids : List Uuid) (targetAgents : Option (List Uuid))
    (dispatchable : List Agent) (skipped : List (Uuid × String)) : Handler Response := do
  let userMsg : Uuid × ℕ ← query (.createUserMessage req.threadId req.user.sub text
    (orNull req.idempotencyKey) targetAgents)
  let history : List ChatLine ← query (.selectHistory req.threadId)
  let participants ← peersOf threadType allAgentUuids
  let toDispatch := onlyLead leadAgentId dispatchable
  if toDispatch.isEmpty then
    pure ⟨409, .error "Lead agent is not running or has a pending response"⟩
  else do
    let (dispatched, failed) ← dispatchToAgents cfg
      { threadId := req.threadId, agents := toDispatch, replyTo := userMsg.1
        historyMessages := history.reverse, threadType := some threadType, participants
        leadAgentId }
    pure ⟨201, .sent none
      (if threadType = .direct then firstMessageId dispatched failed else none)
      userMsg dispatched skipped failed⟩

def sendTo (cfg : Config) (req : SendRequest) (text : String) (threadType : ThreadType)
    (leadAgentId : Option Uuid) (allAgentUuids targetUuids : List Uuid)
    (targetAgents : Option (List Uuid)) : Handler Response := do
  let targets ← loadKnownAgents targetUuids
  if targets.isEmpty then pure ⟨400, .error "No available agents"⟩
  else
    match ← deniedAgent req.user.admin targets with
    | some (agent, scope) => pure (elevatedDenied agent scope)
    | none =>
      let (dispatchable, skipped) ← classifyAgents req.threadId targets
      if dispatchable.isEmpty then pure (nothingToDispatch threadType skipped)
      else deliver cfg req text threadType leadAgentId allAgentUuids targetAgents dispatchable skipped

def sendMessage (cfg : Config) (req : SendRequest) : Handler Response :=
  orDuplicate "Failed to send message" do
    if !(← isParticipant req.threadId req.user) then pure threadNotFound
    else
      match messageText req.message with
      | none => pure ⟨400, .error "message is required and must be a non-empty string"⟩
      | some text =>
        let info : Option (ThreadType × Option Uuid) ← query (.getThreadType req.threadId)
        match info with
        | none => pure threadNotFound
        | some (threadType, leadAgentId) =>
          let slugs := parseMentions text
          let allAgentUuids : List Uuid ← query (.getThreadAgents req.threadId)
          if allAgentUuids.isEmpty then pure ⟨400, .error "No agent participant found in thread"⟩
          else if slugs.isEmpty then
            sendTo cfg req text threadType leadAgentId allAgentUuids allAgentUuids none
          else do
            let resolved ← resolveAgentSlugs req.threadId slugs
            match slugs.find? fun slug => slug ∉ resolved.map (·.1) with
            | some slug => pure ⟨400, .error ("Unknown agent: @" ++ slug)⟩
            | none =>
              let targetUuids := resolved.map (·.2)
              sendTo cfg req text threadType leadAgentId allAgentUuids targetUuids (some targetUuids)

def cancelMessages (user : User) (threadId : Uuid) : Handler Response :=
  failWith "Failed to cancel messages" do
    if !(← isParticipant threadId user) then pure threadNotFound
    else do
      let cancelled ← closeMessages (.cancelled threadId)
      pure ⟨200, .cancelled cancelled⟩

def getThread (user : User) (threadId : Uuid) (limit : Option ℕ) (beforeSeq : Option ℕ) :
    Handler Response :=
  failWith "Failed to get thread" do
    if !(← isParticipant threadId user) then pure threadNotFound
    else do
      let limit := limit.getD defaultPage
      let thread : Option Thread ← query (.selectThread threadId)
      match thread with
      | none => pure threadNotFound
      | some thread =>
        let participants : List Participant ← query (.selectParticipants threadId)
        let pageRows : List Message ← query (.selectPage threadId (limit + 1) beforeSeq)
        let total : ℕ ← query (.countMessages threadId)
        let messages := (pageRows.take limit).reverse
        let now : ℕ ← query .dateNow
        let isStale := fun m : Message => m.status = .pending && m.createdAt + staleTimeoutMs < now
        let staleIds := (messages.filter isStale).map (·.id)
        if staleIds.isEmpty then
          pure ⟨200, .page thread participants messages total (limit < pageRows.length)⟩
        else do
          let _ ← closeMessages (.staleOnLoad staleIds)
          let shown := messages.map fun m =>
            if m.id ∈ staleIds then
              { m with status := .error, errorMessage := some noResponseMessage }
            else m
          pure ⟨200, .page thread participants shown total (limit < pageRows.length)⟩

def leadIsActive (threadId : Uuid) : Option (Option Uuid) → Handler Bool
  | some (some lead) => do
    let agentUuids : List Uuid ← query (.getThreadAgents threadId)
    pure (decide (lead ∈ agentUuids))
  | _ => pure true

def updateThread (user : User) (threadId : Uuid) (title : Option (Option String))
    (leadAgentId : Option (Option Uuid)) : Handler Response :=
  failWith "Failed to update thread" do
    if !(← isThreadOwner threadId user.sub user.admin) then pure threadNotFound
    else do
      if !(← leadIsActive threadId leadAgentId) then
        pure ⟨400, .error "lead_agent_id must be an active agent participant in the thread"⟩
      else do
        let thread : Option Thread ← query (.updateThread threadId title leadAgentId)
        match thread with
        | none => pure threadNotFound
        | some thread => pure ⟨200, .thread thread⟩

/-- What the audit line of a deletion asks: is the admin not the owner? -/
def adminOverride (user : User) (threadId : Uuid) : Handler Bool :=
  if user.admin then do
    let owner ← isThreadOwner threadId user.sub false
    pure (!owner)
  else pure false

def deleteThread (user : User) (threadId : Uuid) : Handler Response :=
  failWith "Failed to delete thread" do
    if !(← isThreadOwner threadId user.sub user.admin) then pure threadNotFound
    else do
      let rowCount : ℕ ← query (.deleteThread threadId)
      if rowCount = 0 then pure threadNotFound
      else do
        let _ ← adminOverride user threadId
        pure ⟨200, .deleted⟩

def deniedUuid (admin : Bool) : List Uuid → Handler (Option (Uuid × String))
  | [] => pure none
  | uuid :: uuids => do
    let elevatedScope : Option String ← query (.getAgentElevatedScope uuid)
    match elevatedScope with
    | some scope => if admin then deniedUuid admin uuids else pure (some (uuid, scope))
    | none => deniedUuid admin uuids

def addParticipants (threadId : Uuid) (add : List Uuid) : Handler Unit := do
  add.forM fun agentUuid => query (.addParticipant threadId agentUuid)
  let postAddAgents : List Uuid ← query (.getThreadAgents threadId)
  if 1 < postAddAgents.length then query (.promoteThread threadId) else pure ()

def removeParticipant (threadId agentUuid : Uuid) : Handler Unit := do
  let _ ← closeMessages (.removed threadId agentUuid)
  query (.leaveThread threadId agentUuid)

def finishParticipants (threadId : Uuid) (remove : List Uuid) : Handler Response := do
  remove.forM (removeParticipant threadId)
  let participants : List Participant ← query (.selectParticipants threadId)
  pure ⟨200, .participants participants⟩

def updateParticipants (user : User) (threadId : Uuid) (add : Option (List Uuid))
    (remove : List Uuid) : Handler Response :=
  failWith "Failed to update participants" do
    if !(← isThreadOwner threadId user.sub user.admin) then pure threadNotFound
    else
      match add with
      | none => finishParticipants threadId remove
      | some add => do
        let currentAgents : List Uuid ← query (.getThreadAgents threadId)
        let newCount := currentAgents.length + (add.filter fun id => id ∉ currentAgents).length
        if maxAgentsPerGroup < newCount then
          pure ⟨400, .error "Maximum 8 agents per group thread"⟩
        else
          match ← deniedUuid user.admin add with
          | some (uuid, scope) =>
            pure ⟨403, .error ("Elevated agent " ++ toString uuid ++ " (" ++ scope ++
              ") requires admin privileges")⟩
          | none => do
            addParticipants threadId add
            finishParticipants threadId remove

def revokeFailed (configured : Bool) (agentId : String) (jti : Option String) : Handler Bool :=
  match orNull jti with
  | some jti =>
    if configured then
      tryCatch (do query (.revokeToken agentId jti); pure false) fun _ => pure true
    else pure false
  | none => pure false

def Failure.message : Failure → String
  | .error text => text
  | .uniqueViolation constraint =>
    "duplicate key value violates unique constraint \"" ++ constraint ++ "\""
  | .foreignKeyViolation => "violates foreign key constraint"

def removeContainer (agent : Agent) : Handler Unit :=
  tryCatch (query (.stopAndRemoveContainer agent.agentId)) fun err => do
    let detail := "Container removal failed: " ++ err.message
    quietly (query (.failAgent agent.id detail))
    throw (.error detail)

/-- `POST /agents/:id/stop`. -/
def stopAgent (cfg : Config) (agentUuid : Uuid) : Handler Response :=
  failWith "Failed to stop agent" do
    let agent : Option Agent ← query (.selectAgent agentUuid)
    match agent with
    | none => pure ⟨404, .error "Agent not found"⟩
    | some agent =>
      let akmRevokeFailed ← revokeFailed cfg.akmConfigured agent.agentId agent.akmJti
      let modelRouterRevokeFailed ←
        revokeFailed cfg.modelRouterConfigured agent.agentId agent.modelRouterJti
      removeContainer agent
      quietly (do let _ ← closeMessages (.stopped agent.id))
      quietly (query (.closeSessions agent.id))
      query (.clearAgent agentUuid akmRevokeFailed modelRouterRevokeFailed)
      quietly (query (.recordStatus agent.id))
      pure ⟨200, .stopped⟩

def sweepStale : Handler Response :=
  failWith "" do
    let rowCount ← closeMessages .swept
    pure ⟨200, .swept rowCount⟩

end Hill90.Chat
