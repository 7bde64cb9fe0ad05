import Hill90.Chat.Dispatch

/-! # The callback of an agent

`chatCallbackHandler` answers `POST /internal/chat/callback`.  A thinking callback
moves content and keeps the message open; any other closes it, and only the one
callback whose guarded UPDATE finds the message open goes on to journal the answer,
to detect the end of its batch and to dispatch the agents it mentions.
-/

namespace Hill90.Chat

inductive Body where
  | error (text : String)
  | updated (b : Bool)
  | cancelled (n : ℕ)
  | sent (thread : Option Thread) (messageId : Option Uuid) (userMessage : Uuid × ℕ)
      (dispatched : List Dispatched) (skipped : List (Uuid × String)) (failed : List Undelivered)
  | thread (thread : Thread)
  | page (thread : Thread) (participants : List Participant) (messages : List Message)
      (messageTotal : ℕ) (hasOlder : Bool)
  | participants (rows : List Participant)
  | deleted
  | stopped
  | swept (n : ℕ)
  deriving DecidableEq, Repr

structure Response where
  status : ℕ
  body : Body
  deriving DecidableEq, Repr

structure CallbackRequest where
  authorization : Option String
  body : CallbackBody
  deriving DecidableEq, Repr

/-- `new Map(rows)`: one entry for each key, with the value set last. -/
def toMap {α β : Type} [DecidableEq α] : List (α × β) → List (α × β)
  | [] => []
  | (k, v) :: rows =>
    match (toMap rows).find? fun e => e.1 = k with
    | some e => e :: (toMap rows).filter fun e => e.1 ≠ k
    | none => (k, v) :: toMap rows

def resolveAgentSlugs (threadId : Uuid) (slugs : List String) : Handler (List (String × Uuid)) :=
  if slugs.isEmpty then pure []
  else do
    let rows : List (String × Uuid) ← query (.resolveAgentSlugs threadId slugs)
    pure (toMap rows)

def journalContent (b : CallbackBody) : String :=
  let content := b.content.getD ""
  let preview := if 300 < content.length then String.ofList (content.toList.take 300) ++ "…"
    else content
  "**Chat response** (" ++ (orNull b.model).getD "unknown" ++ ", " ++
    toString (b.inputTokens.getD 0 + b.outputTokens.getD 0) ++ " tokens, " ++
    toString (b.durationMs.getD 0) ++ "ms)\n\n" ++ preview

/-- The append is not awaited: its outcome is counted elsewhere and changes nothing here. -/
def journal (cfg : Config) (id : Uuid) (b : CallbackBody) : Handler Unit :=
  if b.finalStatus = .complete && (orNull b.content).isSome &&
      (orNull cfg.akmInternalServiceToken).isSome then
    quietly do
      let row : Option JournalRow ← query (.selectJournal id)
      match row with
      | some row => quietly (query (.appendJournal row.agentSlug (journalContent b)))
      | none => pure ()
  else pure ()

def completeBatch (id : Uuid) : Handler Unit :=
  quietly do
    let batch : Option (Option Uuid × ThreadType) ← query (.selectBatch id)
    match batch with
    | some (some replyTo, .group) =>
      let (total, terminal) : ℕ × ℕ ← query (.countSiblings replyTo)
      if 0 < total && terminal = total then query (.setBatchComplete id) else pure ()
    | _ => pure ()

def tagElevated (id : Uuid) : Handler Unit :=
  quietly do
    let author : Option Uuid ← query (.selectAuthor id)
    match author with
    | some author =>
      let _ : Option String ← query (.getAgentElevatedScope author)
      pure ()
    | none => pure ()

def eligibleAgents (threadId : Uuid) : List Uuid → Handler (List Agent)
  | [] => pure []
  | uuid :: uuids => do
    let elevatedScope : Option String ← query (.getAgentElevatedScope uuid)
    match elevatedScope with
    | some _ => eligibleAgents threadId uuids
    | none =>
      let agent : Option Agent ← query (.getAgentForDispatch uuid)
      match agent with
      | none => eligibleAgents threadId uuids
      | some agent =>
        if agent.isDispatchable then
          let pending : Bool ← query (.selectPending threadId agent.id)
          let rest ← eligibleAgents threadId uuids
          pure (if pending then rest else agent :: rest)
        else eligibleAgents threadId uuids

/-- The list of participants a group thread sends along. -/
def groupPeers (threadId : Uuid) (threadType : Option ThreadType) : Handler (Option (List Peer)) :=
  if threadType = some .group then do
    let peers : List Peer ← query (.selectPeers threadId)
    pure (some peers)
  else pure none

def dispatchChain (cfg : Config) (id threadId chainId : Uuid) (newHop : ℕ)
    (agents : List Agent) : Handler Unit := do
  let history : List ChatLine ← query (.selectHistory threadId)
  let info : Option (ThreadType × Option Uuid) ← query (.getThreadType threadId)
  let participants ← groupPeers threadId (info.map (·.1))
  let _ ← dispatchToAgents cfg
    { threadId, agents, replyTo := id, historyMessages := history.reverse
      chain := some (chainId, some newHop, some id), threadType := info.map (·.1), participants }
  pure ()

def chainStart (chainId : Uuid) : Handler ℕ := do
  let start : Option ℕ ← query (.selectChainStart chainId)
  match start with
  | some t => pure t
  | none => query .dateNow

/-- Hop budget, time budget and cycle detection, each a guard of its own. -/
def continueChain (cfg : Config) (id threadId chainId : Uuid) (newHop : ℕ)
    (targetUuids : List Uuid) : Handler Unit :=
  if cfg.maxChainHops.any fun max => (newHop : ℤ) ≤ max then do
    let start ← chainStart chainId
    let now : ℕ ← query .dateNow
    if cfg.maxChainDurationMs.any fun max => (now : ℤ) - start ≤ max then do
      let chainParticipants : List Uuid ← query (.selectChainAuthors chainId)
      let freshTargets := targetUuids.filter fun uuid => uuid ∉ chainParticipants
      if freshTargets.isEmpty then pure ()
      else do
        let agents ← eligibleAgents threadId freshTargets
        if agents.isEmpty then pure () else dispatchChain cfg id threadId chainId newHop agents
    else pure ()
  else pure ()

/-- The chain of the trigger; without one, a new chain in which the trigger is hop 0. -/
def chainOf (id : Uuid) (trigger : Trigger) : Handler Uuid :=
  match trigger.chainId with
  | some chainId => pure chainId
  | none => do
    let chainId : Uuid ← query .randomUUID
    query (.startChain chainId id)
    pure chainId

def orchestrate (cfg : Config) (id : Uuid) (b : CallbackBody) : Handler Unit :=
  let content := b.content.getD ""
  let slugs := parseMentions content
  if b.finalStatus = .complete && !(trim content).isEmpty && !slugs.isEmpty then
    quietly do
      let trigger : Option Trigger ← query (.selectTrigger id)
      match trigger with
      | none => pure ()
      | some trigger =>
        let resolved ← resolveAgentSlugs trigger.threadId slugs
        let targetUuids := (resolved.map (·.2)).filter fun uuid => uuid ≠ trigger.authorId
        if targetUuids.isEmpty then pure ()
        else do
          let chainId ← chainOf id trigger
          continueChain cfg id trigger.threadId chainId (trigger.chainHop.getD 0 + 1) targetUuids
  else pure ()

/-- What a guarded UPDATE that matched no row is answered with. -/
def notUpdated (id : Uuid) : Handler Response := do
  let status : Option Status ← query (.selectStatus id)
  match status with
  | none => pure ⟨404, .error "unknown_message"⟩
  | some _ => pure ⟨200, .updated false⟩

def thinkingCallback (id : Uuid) (b : CallbackBody) : Handler Response := do
  let rowCount : ℕ ← query (.thinkMessage id b)
  if rowCount = 0 then notUpdated id
  else do
    query (.touchThread id)
    pure ⟨200, .updated true⟩

def finalCallback (cfg : Config) (id : Uuid) (b : CallbackBody) : Handler Response := do
  let rowCount : ℕ ← query (.finishMessage id b)
  if rowCount = 0 then notUpdated id
  else do
    query (.titleThread id)
    journal cfg id b
    completeBatch id
    tagElevated id
    orchestrate cfg id b
    pure ⟨200, .updated true⟩

/-- The token a header carries: `authHeader.slice(7)` after `Bearer `. -/
def bearerToken (authorization : Option String) : Option String :=
  authorization.bind fun header =>
    if "Bearer ".toList.isPrefixOf header.toList then some (String.ofList (header.toList.drop 7))
    else none

def chatCallbackHandler (cfg : Config) (req : CallbackRequest) : Handler Response :=
  match orNull cfg.chatCallbackToken with
  | none => pure ⟨503, .error "callback_not_configured"⟩
  | some configuredToken =>
    if bearerToken req.authorization ≠ some configuredToken then
      pure ⟨401, .error "unauthorized"⟩
    else
      match req.body.messageId with
      | none => pure ⟨400, .error "message_id is required"⟩
      | some id =>
        if req.body.idempotencyKey.isSome then
          pure ⟨400, .error "idempotency_key is not allowed in callback"⟩
        else if req.body.isThinking then thinkingCallback id req.body
        else finalCallback cfg id req.body

end Hill90.Chat
