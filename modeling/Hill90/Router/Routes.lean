import Hill90.Foundation.Interleaving
import Hill90.Router.Statement

/-! # The model router's endpoints

`main.py` with `limits.py`, `delegation.py` and `revocation.py`: the enforcement of policies, the
forwarding of requests to LiteLLM with the logging of their usage, delegations, and the
`RevocationManager`.
-/

namespace Hill90.Router

open Chat (Uuid)
open Models (UserModelInfo RoutingConfig)
open Policies (AgentPolicy)

abbrev Handler (α : Type) := Program Statement Statement.Rows Failure α

def ask (s : Statement) : Handler s.Rows := Program.query s

def catchException {α : Type} (p : Handler α) (h : Failure → Handler α) : Handler α :=
  tryCatch p fun e => if e.isException then h e else throw e

def attempt (s : Statement) : Handler (Except Failure s.Rows) :=
  tryCatch (Except.ok <$> ask s) fun e => pure (.error e)

structure Config where
  httpClient : Bool := true
  decrypt : List UInt8 → List UInt8 → Option String

/-! ## Policies -/

def resolveAgentPolicy (agentId : String) : Handler AgentPolicy := do
  let own : Option AgentPolicy ← ask (.selectAssigned agentId)
  match own with
  | some p => pure p
  | none => do
    let fallback : Option AgentPolicy ← ask .selectDefault
    pure (fallback.getD {})

def resolveAlias (requestedModel : String) (policy : AgentPolicy) : String :=
  ((policy.modelAliases.getD []).lookup requestedModel).getD requestedModel

structure EffectivePolicy where
  allowedModels : List String
  maxRequestsPerMinute : Option ℤ
  maxTokensPerDay : Option ℤ
  delegationId : Uuid
  deriving DecidableEq, Repr

/-- `_min_non_null`; nothing is unlimited. -/
def minNonNull : Option ℤ → Option ℤ → Option ℤ
  | none, b => b
  | a, none => a
  | some a, some b => some (min a b)

def computeEffectivePolicy (parent : AgentPolicy) (d : Delegation) : EffectivePolicy where
  allowedModels := d.allowedModels.filter fun m => m ∈ parent.allowedModels
  maxRequestsPerMinute := minNonNull parent.maxRequestsPerMinute d.maxRequestsPerMinute
  maxTokensPerDay := minNonNull parent.maxTokensPerDay d.maxTokensPerDay
  delegationId := d.id

inductive Response where
  | rateLimited (message : String) (delegationId : Option Uuid) (limit retryAfter : ℤ)
  | budgetExceeded (message : String) (delegationId : Option Uuid) (limit used : ℤ)
  | upstream (statusCode : ℕ)
  | streamed
  | delegated (token : Payload) (delegationId : Uuid) (expiresAt : ℤ)
  | revoked
  | done
  deriving DecidableEq, Repr

/-! ## Limits -/

structure RateLimitResult where
  allowed : Bool
  count : ℕ
  limit : ℤ
  retryAfter : ℤ

def checkRateLimit (agentId : String) (maxRpm : ℤ) (delegationId : Option Uuid) :
    Handler RateLimitResult := do
  let row : ℕ × Option ℤ ← ask (.countRequests agentId delegationId)
  pure { allowed := row.1 < maxRpm, count := row.1, limit := maxRpm
         retryAfter := if row.1 ≥ maxRpm then max 0 (60 - row.2.getD 0) else 0 }

structure BudgetResult where
  allowed : Bool
  tokensUsed : ℤ
  limit : ℤ

def checkTokenBudget (agentId : String) (maxTokens : ℤ) (delegationId : Option Uuid) :
    Handler BudgetResult := do
  let tokensUsed : ℤ ← ask (.sumTokens agentId delegationId)
  pure { allowed := tokensUsed < maxTokens, tokensUsed, limit := maxTokens }

/-- Who asks for which model; the columns all usage rows of a request share. -/
structure Attempt where
  agentId : String
  requestType : String
  requestedModel : String
  resolvedModel : String
  delegationId : Option Uuid := none
  deriving DecidableEq, Repr

def Attempt.row (q : Attempt) (status : UsageStatus) : Usage where
  agentId := q.agentId
  modelName := q.resolvedModel
  requestType := q.requestType
  status := status
  delegationId := q.delegationId
  requestedModel := some q.requestedModel

/-- `log_usage` in the handler that logs its failure and goes on. -/
def logUsage (u : Usage) : Handler Unit :=
  catchException (ask (.insertUsage u)) fun _ => pure ()

def enforceRate (q : Attempt) (limit : Option ℤ) (scope : Option Uuid) (message : String) :
    Handler (Option Response) :=
  match limit with
  | none => pure none
  | some maxRpm => do
    let rl ← checkRateLimit q.agentId maxRpm scope
    if rl.allowed then pure none
    else do
      logUsage (q.row .rateLimited)
      pure (some (.rateLimited message scope rl.limit rl.retryAfter))

def enforceBudget (q : Attempt) (limit : Option ℤ) (scope : Option Uuid) (message : String) :
    Handler (Option Response) :=
  match limit with
  | none => pure none
  | some maxTokens => do
    let budget ← checkTokenBudget q.agentId maxTokens scope
    if budget.allowed then pure none
    else do
      logUsage (q.row .budgetExceeded)
      pure (some (.budgetExceeded message scope budget.limit budget.tokensUsed))

/-- The first denial of a series of checks. -/
def firstDenial : List (Handler (Option Response)) → Handler (Option Response)
  | [] => pure none
  | check :: checks => do
    let denial ← check
    match denial with
    | some r => pure (some r)
    | none => firstDenial checks

def agentChecks (q : Attempt) (policy : AgentPolicy) : List (Handler (Option Response)) :=
  [enforceRate q policy.maxRequestsPerMinute none s!"Rate limit exceeded for agent '{q.agentId}'",
    enforceBudget q policy.maxTokensPerDay none
      s!"Daily token budget exhausted for agent '{q.agentId}'"]

def delegationChecks (q : Attempt) (effective : EffectivePolicy) : List (Handler (Option Response)) :=
  [enforceRate q effective.maxRequestsPerMinute (some effective.delegationId)
      "Rate limit exceeded for delegation",
    enforceBudget q effective.maxTokensPerDay (some effective.delegationId)
      "Daily token budget exhausted for delegation"]

def decided (q : Attempt) : Option Response → Except Response Attempt
  | some r => .error r
  | none => .ok q

/-- The delegation branch of `_enforce_policy`. -/
def enforceDelegation (q : Attempt) (policy : AgentPolicy) (id : Uuid) :
    Handler (Except Response Attempt) := do
  let deleg : Option Delegation ← ask (.selectDelegation id)
  match deleg with
  | none => throw (.http 401 s!"Delegation '{id}' not found")
  | some d =>
    if d.revokedAt.isSome then throw (.http 401 "Delegation revoked")
    else do
      let now : ℤ ← ask .readClock
      if d.expiresAt ≤ now then throw (.http 401 "Delegation expired")
      else do
        let effective := computeEffectivePolicy policy d
        let q := { q with delegationId := some effective.delegationId }
        if q.resolvedModel ∈ effective.allowedModels then do
          let denial ← firstDenial (delegationChecks q effective ++ agentChecks q policy)
          pure (decided q denial)
        else do
          logUsage (q.row .error)
          throw (.http 403 s!"Model '{q.requestedModel}' not authorized for this delegation")

def enforcePolicy (identity : Payload) (requestedModel requestType : String) :
    Handler (Except Response Attempt) := do
  let policy ← resolveAgentPolicy identity.sub
  let resolvedModel := resolveAlias requestedModel policy
  let q : Attempt := ⟨identity.sub, requestType, requestedModel, resolvedModel, none⟩
  match identity.delegationId with
  | some id => enforceDelegation q policy id
  | none =>
    if resolvedModel ∈ policy.allowedModels then do
      let denial ← firstDenial (agentChecks q policy)
      pure (decided q denial)
    else throw (.http 403 s!"Model '{requestedModel}' not authorized for agent '{identity.sub}'")

/-! ## Forwarding -/

def Body.set (body : Body) (member : String) (value : Json) : Body :=
  Function.update body member (some value)

def injectByokCredentials (cfg : Config) (info : UserModelInfo) (body : Body) :
    Except Failure Body :=
  match cfg.decrypt info.apiKeyEncrypted info.apiKeyNonce with
  | none => .error (.http 500 "Failed to decrypt provider key")
  | some apiKey =>
    let body := (Body.set body "model" (.text info.litellmModel)).set "api_key" (.text apiKey)
    match info.apiBaseUrl with
    | some url => .ok (if url = "" then body else body.set "api_base" (.text url))
    | none => .ok body

structure Resolved where
  owner : String
  providerModelId : String
  body : Body

def inject (cfg : Config) (owner : String) (info : UserModelInfo) (body : Body) : Handler Resolved :=
  match injectByokCredentials cfg info body with
  | .ok body => pure ⟨owner, info.litellmModel, body⟩
  | .error e => throw e

/-- `_resolve_byok` for an owner: a model of the owner, a router of the owner, a model of the
platform. -/
def resolveFor (cfg : Config) (resolvedModel owner : String) (body : Body) (taskType : Option String) :
    Handler Resolved := do
  let single : Option UserModelInfo ← ask (.userModel resolvedModel owner)
  match single with
  | some info => inject cfg owner info body
  | none => do
    let router : Option RoutingConfig ← ask (.routerModel resolvedModel owner)
    match router with
    | some router =>
      match Models.selectRoute router taskType with
      | none => throw (.http 403 s!"No route available for model '{resolvedModel}'")
      | some route => do
        let creds : Option UserModelInfo ← ask (.routeCredentials route owner)
        match creds with
        | some info => inject cfg owner info body
        | none =>
          let key := route.key.getD "unknown"
          throw (.http 403 s!"Route '{key}' credentials unavailable for model '{resolvedModel}' — connection may have been deleted")
    | none => do
      let platform : Option UserModelInfo ← ask (.platformModel resolvedModel)
      match platform with
      | some info => inject cfg owner info body
      | none => throw (.http 403 s!"Model '{resolvedModel}' not found in user models for agent owner")

def resolveByok (cfg : Config) (agentId resolvedModel : String) (body : Body)
    (taskType : Option String) : Handler Resolved := do
  let owner : Option String ← ask (.agentOwner agentId)
  match owner with
  | some owner => resolveFor cfg resolvedModel owner body taskType
  | none => throw (.http 403 s!"Agent '{agentId}' not found")

def Attempt.charge (q : Attempt) (r : Resolved) (status : UsageStatus)
    (inputTokens outputTokens : Option ℤ) : Usage :=
  { q.row status with
    inputTokens, outputTokens, owner := some r.owner, providerModelId := some r.providerModelId }

/-- The handler of a call to LiteLLM that raised: an exception is charged as unknown. -/
def proxyError (q : Attempt) (r : Resolved) (e : Failure) : Handler Response :=
  if e.isException then do
    logUsage (q.charge r .error none none)
    throw (.http 502 "LiteLLM proxy error")
  else throw e

/-- `proxy_chat_completion` and `proxy_embeddings` with what their callers do around them;
embeddings have no output tokens. -/
def proxy (endpoint : Endpoint) (q : Attempt) (r : Resolved) : Handler Response := do
  let result ← attempt (.forward endpoint q.agentId r.body)
  match result with
  | .error e => proxyError q r e
  | .ok (reply : UpstreamReply) => do
    let status := if reply.statusCode = 200 then UsageStatus.success else .error
    let outputTokens := if endpoint = .embeddings then 0 else reply.outputTokens
    logUsage (q.charge r status (some reply.inputTokens) (some outputTokens))
    pure (.upstream reply.statusCode)

/-- The body `stream_chat_completion` sends. -/
def streamBody (body : Body) : Body :=
  let options := match body "stream_options" with
    | some (.object members) => members.filter fun m => m.1 ≠ "include_usage"
    | _ => []
  (body.set "stream" (.bool true)).set "stream_options"
    (.object (options ++ [("include_usage", .bool true)]))

structure StreamingResult where
  inputTokens : ℤ := 0
  outputTokens : ℤ := 0
  completed : Bool := false
  error : Bool := false
  deriving DecidableEq, Repr

def StreamingResult.record (r : StreamingResult) : Option (ℤ × ℤ) → StreamingResult
  | some (inputTokens, outputTokens) => { r with inputTokens, outputTokens }
  | none => r

/-- `_generate` under the loop of `_stream_and_log`: the usage so far, and what ended it. -/
def generate : List Chunk → StreamingResult → Handler (StreamingResult × Option Failure)
  | [], r => do
    let next ← attempt .nextChunk
    match next with
    | .error e => pure ({ r with error := e.isException }, some e)
    | .ok _ => pure ({ r with completed := true }, none)
  | chunk :: chunks, r => do
    let next ← attempt .nextChunk
    match next with
    | .error e => pure ({ r with error := e.isException }, some e)
    | .ok _ => do
      let sent ← attempt .sendChunk
      match sent with
      | .error e => pure (r, some e)
      | .ok _ =>
        if chunk.malformed then
          pure ({ r with error := true }, some (.exception "'list' object has no attribute 'get'"))
        else generate chunks (r.record chunk.usage)

/-- `yield stream_error_event(exc)`, where an exception ended the stream. -/
def announce : Option Failure → Handler (Option Failure)
  | none => pure none
  | some e =>
    if e.isException then do
      let sent ← attempt .sendError
      match sent with
      | .error e' => pure (some e')
      | .ok _ => pure none
    else pure (some e)

def streamStatus (r : StreamingResult) (ending : Option Failure) : UsageStatus :=
  if ending = some .cancelled then .clientDisconnect else if r.error then .error else .success

/-- `_stream_and_log`, once its generator has begun. -/
def streamAndLog (q : Attempt) (r : Resolved)
    (stream : Handler (StreamingResult × Option Failure)) : Handler Response := do
  let ended ← stream
  let raised ← announce ended.2
  logUsage (q.charge r (streamStatus ended.1 ended.2) (some ended.1.inputTokens)
    (some ended.1.outputTokens))
  match raised with
  | some e => throw e
  | none => pure .streamed

/-- `_handle_streaming`, and the response it returns being sent: a generator that is never
begun runs no `finally`. -/
def handleStreaming (q : Attempt) (r : Resolved) : Handler Response := do
  let opened ← attempt (.openStream q.agentId (streamBody r.body))
  match opened with
  | .error e => proxyError q r e
  | .ok (.rejected statusCode) => do
    logUsage (q.charge r .error (some 0) (some 0))
    pure (.upstream statusCode)
  | .ok .rejectedNull => do
    ask .startResponse
    streamAndLog q r (pure ({}, some (.exception "'async for' requires an object with __aiter__")))
  | .ok (.opened chunks) => do
    ask .startResponse
    streamAndLog q r (generate chunks {})

/-- An authenticated request with its body and its `x-task-type`. -/
structure ApiRequest where
  identity : Payload
  body : Body
  taskType : Option String := none

/-- `body.get("model", "")`; what is no text is in no list of models. -/
def requestedModel (body : Body) : Handler String :=
  match body "model" with
  | none => pure ""
  | some (.text s) => pure s
  | some _ => throw (.http 403 "Model not authorized")

def isTrue : Option Json → Bool
  | some (.bool b) => b
  | _ => false

def chatCompletions (cfg : Config) (req : ApiRequest) : Handler Response := do
  let requested ← requestedModel req.body
  let enforced ← enforcePolicy req.identity requested "chat.completion"
  match enforced with
  | .error denial => pure denial
  | .ok q => do
    let body := req.body.set "model" (.text q.resolvedModel)
    let r ← resolveByok cfg q.agentId q.resolvedModel body req.taskType
    if !cfg.httpClient then throw (.http 503 "HTTP client not initialized")
    else if isTrue (r.body "stream") then handleStreaming q r
    else proxy .chat q r

def embeddings (cfg : Config) (req : ApiRequest) : Handler Response := do
  let requested ← requestedModel req.body
  let enforced ← enforcePolicy req.identity requested "embedding"
  match enforced with
  | .error denial => pure denial
  | .ok q => do
    let body := req.body.set "model" (.text q.resolvedModel)
    let r ← resolveByok cfg q.agentId q.resolvedModel body req.taskType
    if !cfg.httpClient then throw (.http 503 "HTTP client not initialized")
    else proxy .embeddings q r

/-! ## Revocation -/

def preload : Handler Unit := do
  let now : ℤ ← ask .readClock
  let jtis : List String ← ask (.selectUnexpired now)
  ask (.replaceRevoked jtis)

def revoke (r : RevokedToken) : Handler Unit := do
  ask (.insertRevoked r)
  ask (.addRevoked r.jti)

def cleanupExpired : Handler Unit := do
  let now : ℤ ← ask .readClock
  ask (.deleteExpired now)
  let jtis : List String ← ask (.selectUnexpired now)
  ask (.replaceRevoked jtis)

/-! ## Delegations -/

structure DelegateRequest where
  childLabel : String
  allowedModels : List String
  maxRequestsPerMinute : Option ℤ := none
  maxTokensPerDay : Option ℤ := none
  expiresAt : Option ℤ := none
  deriving DecidableEq, Repr

def exceeds : Option ℤ → Option ℤ → Bool
  | some requested, some limit => requested > limit
  | _, _ => false

def validateNarrowing (parent : AgentPolicy) (allowedModels : List String)
    (maxRpm maxTpd : Option ℤ) : List String :=
  (allowedModels.filter fun m => m ∉ parent.allowedModels).map
      (fun m => s!"model '{m}' not in parent's allowed_models") ++
    (if exceeds maxRpm parent.maxRequestsPerMinute then
      let limit := parent.maxRequestsPerMinute.getD 0
      let requested := maxRpm.getD 0
      [s!"max_requests_per_minute {requested} exceeds parent's limit of {limit}"]
    else []) ++
    (if exceeds maxTpd parent.maxTokensPerDay then
      let limit := parent.maxTokensPerDay.getD 0
      let requested := maxTpd.getD 0
      [s!"max_tokens_per_day {requested} exceeds parent's limit of {limit}"]
    else [])

def effectiveExpires (identity : Payload) (expiresAt : Option ℤ) : ℤ :=
  expiresAt.elim identity.exp fun e => min e identity.exp

/-- The row `create_delegation` inserts; its `child_jti` is a placeholder until the token of
the child is signed. -/
def pendingDelegation (identity : Payload) (body : DelegateRequest) (models : List String)
    (id : Uuid) : Delegation where
  id := id
  parentAgentId := identity.sub
  parentJti := identity.jti
  childJti := s!"pending-{id}"
  childLabel := body.childLabel
  allowedModels := models
  maxRequestsPerMinute := body.maxRequestsPerMinute
  maxTokensPerDay := body.maxTokensPerDay
  expiresAt := effectiveExpires identity body.expiresAt
  createdAt := 0

/-- The pending row is cleaned up, as far as that succeeds, and the request fails. -/
def abandon (id : Uuid) : Handler Response := do
  catchException (ask (.deleteDelegation id)) fun _ => pure ()
  throw (.http 502 "Failed to sign delegation token")

def signChild (cfg : Config) (d : Delegation) : Handler Response :=
  if !cfg.httpClient then throw (.http 503 "HTTP client not initialized")
  else do
    let reply ← attempt (.signToken d.parentAgentId d.id d.parentJti d.expiresAt)
    match reply with
    | .error e => if e.isException then abandon d.id else throw e
    | .ok (.refused _) => abandon d.id
    | .ok .malformed => abandon d.id
    | .ok (.signed token) => do
      ask (.updateChildJti d.id token.jti)
      pure (.delegated token d.id d.expiresAt)

def createDelegationEndpoint (cfg : Config) (identity : Payload) (body : DelegateRequest) :
    Handler Response :=
  if identity.isDelegation then throw (.http 403 "Delegation tokens cannot create sub-delegations")
  else do
    let parent ← resolveAgentPolicy identity.sub
    let models := body.allowedModels.map fun m => resolveAlias m parent
    match validateNarrowing parent models body.maxRequestsPerMinute body.maxTokensPerDay with
    | [] => do
      let id : Uuid ← ask .randomUUID
      let d := pendingDelegation identity body models id
      ask (.insertDelegation d)
      signChild cfg d
    | violations => throw (.http 400 ("Cannot widen parent permissions: " ++ "; ".intercalate violations))

def revokeDelegationEndpoint (identity : Payload) (id : Uuid) : Handler Response :=
  if identity.isDelegation then throw (.http 403 "Delegation tokens cannot revoke delegations")
  else do
    let deleg : Option Delegation ← ask (.revokeDelegation id identity.sub)
    match deleg with
    | none => throw (.http 404 "Delegation not found or already revoked")
    | some d => do
      revoke ⟨d.childJti, identity.sub, d.expiresAt⟩
      pure .revoked

/-! ## The service -/

inductive Request where
  | chat (req : ApiRequest)
  | embeddings (req : ApiRequest)
  | delegate (identity : Payload) (body : DelegateRequest)
  | revokeDelegation (identity : Payload) (id : Uuid)
  | revoke (r : RevokedToken)
  | preload
  | cleanup

def Request.handler (cfg : Config) : Request → Handler Response
  | chat req => chatCompletions cfg req
  | embeddings req => Router.embeddings cfg req
  | delegate identity body => createDelegationEndpoint cfg identity body
  | revokeDelegation identity id => revokeDelegationEndpoint identity id
  | revoke r => do
    Router.revoke r
    pure .done
  | preload => do
    Router.preload
    pure .done
  | cleanup => do
    cleanupExpired
    pure .done

/-- Time passes, or the API rewrites policies, models and owners. -/
inductive Surroundings where
  | tick (d : ℚ)
  | rewrite (policies : Policies.Store) (catalog : Models.Catalog) (owners : String → Option String)

def Surroundings.apply (s : Store) : Surroundings → Option Store
  | tick d => if 0 ≤ d then some { s with now := s.now + d } else none
  | rewrite policies catalog owners => some { s with policies, catalog, owners }

structure Store.Fresh (s : Store) : Prop where
  delegations : s.delegations.rows = []
  revokedTokens : s.revokedTokens.rows = []
  usage : s.usage = []
  revokedJtis : s.revokedJtis = []
  forwarded : s.forwarded = []

def service (cfg : Config) :
    Service Statement Statement.Rows Failure Request Response Store Choice Surroundings where
  fresh := Store.Fresh
  handler := Request.handler cfg
  run := Statement.run
  environment := Surroundings.apply

theorem distinct_blank :
    ((Table.empty : Table Policies.Policy.id).rows.map Policies.Policy.ownedName).Nodup := List.nodup_nil

theorem named_blank :
    ((Table.empty : Table Models.UserModel.id).rows.map Models.UserModel.ownedName).Nodup := List.nodup_nil

theorem linked_blank : ∀ m ∈ (Table.empty : Table Models.UserModel.id).rows, ∀ cid litellm,
    m.kind = .single cid litellm → ∃ c ∈ (Table.empty : Table Models.Connection.id).rows, c.id = cid :=
  fun _ hm => absurd hm List.not_mem_nil

def blank : Store where
  policies := { book := ⟨Table.empty, distinct_blank⟩ }
  catalog := ⟨Table.empty, Table.empty, named_blank, linked_blank⟩

theorem fresh_blank : blank.Fresh := ⟨rfl, rfl, rfl, rfl, rfl⟩

def onePolicy (p : Policies.Policy) : Store :=
  { blank with
    policies := { book := ⟨⟨[p], List.nodup_singleton _⟩, List.nodup_singleton _⟩ } }

theorem fresh_onePolicy (p : Policies.Policy) : (onePolicy p).Fresh := ⟨rfl, rfl, rfl, rfl, rfl⟩

def unkeyed : Config where
  decrypt := fun _ _ => none

end Hill90.Router
