import Hill90.Foundation.Program
import Hill90.Router.Record

/-! # The statements of the model router

Each query the AI service awaits, each call to LiteLLM and to the signing endpoint, each
chunk of a stream, and each step on the set of revoked tokens in memory.
-/

namespace Hill90.Router

open Chat (Uuid)
open Models (UserModelInfo RoutingConfig)

inductive Endpoint where
  | chat
  | stream
  | embeddings
  deriving DecidableEq, Repr

/-- What a response of LiteLLM is read for; `usage` is what `parse_usage` finds. -/
structure UpstreamReply where
  statusCode : ℕ := 200
  inputTokens : ℤ := 0
  outputTokens : ℤ := 0
  deriving DecidableEq, Repr

/-- A chunk of a stream, with the usage its events carry; events that are JSON but no object
make the parser fail. -/
structure Chunk where
  usage : Option (ℤ × ℤ) := none
  malformed : Bool := false
  deriving DecidableEq, Repr

/-- How LiteLLM answers the opening of a stream: an error with a body, an error whose body is
`null`, or the chunks that are to come. -/
inductive StreamReply where
  | rejected (statusCode : ℕ)
  | rejectedNull
  | opened (chunks : List Chunk)
  deriving DecidableEq, Repr

/-- The answer of the signing endpoint: another status than 200, a reply of another shape, or
the token that was signed. -/
inductive SignReply where
  | refused (statusCode : ℕ)
  | malformed
  | signed (token : Payload)
  deriving DecidableEq, Repr

inductive SignShape where
  | refused (statusCode : ℕ)
  | malformed
  | signed
  deriving DecidableEq, Repr

structure Choice where
  order : ℕ := 0
  upstream : UpstreamReply := {}
  stream : StreamReply := .opened []
  sign : SignShape := .signed
  deriving DecidableEq, Repr

inductive Statement where
  | readClock
  | randomUUID
  | selectAssigned (agentId : String)
  | selectDefault
  | selectDelegation (id : Uuid)
  | countRequests (agentId : String) (delegationId : Option Uuid)
  | sumTokens (agentId : String) (delegationId : Option Uuid)
  | insertUsage (u : Usage)
  | agentOwner (agentId : String)
  | userModel (name owner : String)
  | routerModel (name owner : String)
  | routeCredentials (route : Models.Route) (owner : String)
  | platformModel (name : String)
  | forward (endpoint : Endpoint) (agentId : String) (body : Body)
  | openStream (agentId : String) (body : Body)
  | startResponse
  | nextChunk
  | sendChunk
  | sendError
  | insertDelegation (d : Delegation)
  | signToken (sub : String) (delegationId : Uuid) (parentJti : String) (expiresAt : ℤ)
  | deleteDelegation (id : Uuid)
  | updateChildJti (id : Uuid) (childJti : String)
  | revokeDelegation (id : Uuid) (agentId : String)
  | insertRevoked (r : RevokedToken)
  | deleteExpired (now : ℤ)
  | selectUnexpired (now : ℤ)
  | addRevoked (jti : String)
  | replaceRevoked (jtis : List String)

namespace Statement

abbrev Rows : Statement → Type
  | readClock => ℤ
  | randomUUID => Uuid
  | selectAssigned _ | selectDefault => Option Policies.AgentPolicy
  | selectDelegation _ | revokeDelegation .. => Option Delegation
  | countRequests .. => ℕ × Option ℤ
  | sumTokens .. => ℤ
  | agentOwner _ => Option String
  | userModel .. | routeCredentials .. | platformModel _ => Option UserModelInfo
  | routerModel .. => Option RoutingConfig
  | forward .. => UpstreamReply
  | openStream .. => StreamReply
  | signToken .. => SignReply
  | selectUnexpired _ => List String
  | _ => Unit

end Statement

def secondsPerDay : ℚ := 86400

namespace Store

variable (s : Store)

def lastMinute (agentId : String) (delegationId : Option Uuid) : List UsageRow :=
  s.usage.filter fun r => r.countsFor agentId delegationId && decide (r.createdAt > s.now - 60)

def oldestAge (rows : List UsageRow) : Option ℤ :=
  (rows.map UsageRow.createdAt).min?.map fun oldest => ⌊s.now - oldest + 1 / 2⌋

def midnight : ℚ := ⌊s.now / secondsPerDay⌋ * secondsPerDay

/-- `input_tokens + output_tokens`; a row with a NULL in it adds nothing to the sum. -/
def tokensOf (r : UsageRow) : ℤ :=
  match r.usage.inputTokens, r.usage.outputTokens with
  | some i, some o => i + o
  | _, _ => 0

def tokensToday (agentId : String) (delegationId : Option Uuid) : ℤ :=
  ((s.usage.filter fun r => r.countsFor agentId delegationId &&
    decide (r.createdAt ≥ s.midnight)).map tokensOf).sum

def rewriteDelegation (p : Delegation → Bool) (f : Delegation → Delegation)
    (hf : ∀ d, (f d).id = d.id) : Store :=
  { s with delegations := s.delegations.patch p (fun _ => f) 0 fun _ => hf }

def send (agentId : String) : Store := { s with forwarded := ⟨agentId, s.now⟩ :: s.forwarded }

end Store

/-- `signDelegationToken` of the API, once the shape of its answer is chosen. -/
def signDelegationToken (s : Store) (shape : SignShape) (sub : String) (delegationId : Uuid)
    (parentJti : String) (expiresAt : ℤ) : SignReply :=
  match shape with
  | .refused statusCode => .refused statusCode
  | .malformed => .malformed
  | .signed => .signed { sub := sub, exp := expiresAt, iat := ⌊s.now⌋, jti := toString s.nextId
                         delegationId := some delegationId, parentJti := some parentJti }

def Statement.run (s : Store) (c : Choice) : (st : Statement) → Except Failure (st.Rows × Store)
  | .readClock => .ok (⌊s.now⌋, s)
  | .randomUUID => .ok (s.nextId, { s with nextId := s.nextId + 1 })
  | .selectAssigned agentId => .ok ((s.policies.assignedPolicy agentId).map Policies.Policy.extract, s)
  | .selectDefault =>
    .ok ((Policies.fetchrow c.order (s.policies.policies.filter fun p => p.name = "default")).map
      Policies.Policy.extract, s)
  | .selectDelegation id => .ok (s.delegations.get? id, s)
  | .countRequests agentId delegationId =>
    .ok (((s.lastMinute agentId delegationId).length,
      s.oldestAge (s.lastMinute agentId delegationId)), s)
  | .sumTokens agentId delegationId => .ok (s.tokensToday agentId delegationId, s)
  | .insertUsage u => .ok ((), { s with usage := ⟨u, s.now⟩ :: s.usage })
  | .agentOwner agentId => .ok (s.owners agentId, s)
  | .userModel name owner => .ok (Models.resolveUserModel s.catalog name owner, s)
  | .routerModel name owner => .ok (Models.resolveRouterModel s.catalog name owner, s)
  | .routeCredentials route owner => .ok (Models.resolveRouteCredentials s.catalog route owner, s)
  | .platformModel name => .ok (Models.resolvePlatformModel s.catalog name, s)
  | .forward _ agentId _ => .ok (c.upstream, s.send agentId)
  | .openStream agentId _ => .ok (c.stream, s.send agentId)
  | .startResponse | .nextChunk | .sendChunk | .sendError => .ok ((), s)
  | .insertDelegation d =>
    match s.delegations.insert { d with createdAt := s.now } with
    | some delegations => .ok ((), { s with delegations })
    | none => .error (.exception "duplicate key value violates unique constraint")
  | .signToken sub delegationId parentJti expiresAt =>
    .ok (signDelegationToken s c.sign sub delegationId parentJti expiresAt,
      { s with nextId := s.nextId + 1 })
  | .deleteDelegation id =>
    .ok ((), { s with delegations := s.delegations.delete fun d => d.id = id })
  | .updateChildJti id childJti =>
    .ok ((), s.rewriteDelegation (fun d => d.id = id) (fun d => { d with childJti }) fun _ => rfl)
  | .revokeDelegation id agentId =>
    let active := fun d : Delegation =>
      d.id = id && d.parentAgentId = agentId && d.revokedAt.isNone
    .ok ((s.delegations.get? id).bind fun d =>
        if active d then some { d with revokedAt := some s.now } else none,
      s.rewriteDelegation active (fun d => { d with revokedAt := some s.now }) fun _ => rfl)
  | .insertRevoked r =>
    .ok ((), { s with revokedTokens := (s.revokedTokens.insert r).getD s.revokedTokens })
  | .deleteExpired now =>
    .ok ((), { s with revokedTokens := s.revokedTokens.delete fun r => r.expiresAt ≤ now })
  | .selectUnexpired now =>
    .ok ((s.revokedTokens.rows.filter fun r => now < r.expiresAt).map RevokedToken.jti, s)
  | .addRevoked jti => .ok ((), { s with revokedJtis := jti :: s.revokedJtis })
  | .replaceRevoked jtis => .ok ((), { s with revokedJtis := jtis })

end Hill90.Router
