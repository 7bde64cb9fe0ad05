import Mathlib.Data.Rat.Floor
import Hill90.Foundation.Table
import Hill90.Models.Resolution
import Hill90.Policies.Routes

/-! # The model router's data

Tokens and their verification, delegations, the denylist in the database and the set in
memory, usage rows, and the bodies that are passed on to LiteLLM.  Time is in seconds.
-/

namespace Hill90.Router

open Chat (Uuid)
open Models (Catalog)

/-- What the AI service raises: an `HTTPException`, any other `Exception`, the cancellation
of a task, or the closing of a generator.  The last two are no `Exception`. -/
inductive Failure where
  | http (status : ℕ) (detail : String)
  | exception (message : String)
  | cancelled
  | closed
  deriving DecidableEq, Repr

def Failure.isException : Failure → Bool
  | http .. | exception _ => true
  | cancelled | closed => false

/-- The body of a token, and what `verify_model_router_token` returns of it. -/
structure Payload where
  sub : String
  iss : String := "hill90-api"
  aud : String := "hill90-model-router"
  exp : ℤ
  iat : ℤ
  jti : String
  owner : Option String := none
  delegationId : Option Uuid := none
  parentJti : Option String := none
  deriving DecidableEq, Repr

def Payload.isDelegation (p : Payload) : Bool := p.delegationId.isSome

def expectedIssuer : String := "hill90-api"
def expectedAudience : String := "hill90-model-router"
def clockSkewSeconds : ℤ := 30

inductive JwtError where
  | expiredSignature
  | invalidIssuer
  | invalidAudience
  | invalidToken (message : String)
  deriving DecidableEq, Repr

/-- `jwt.decode`, with the public key, the issuer, the audience and the leeway the service
gives it.  A token has one body, and is refused from `exp` plus the leeway on. -/
structure Decoder (τ : Type) where
  decode : τ → ℚ → Except JwtError Payload
  unexpired : ∀ token now p, decode token now = .ok p → now - clockSkewSeconds < p.exp
  same : ∀ token now now' p p', decode token now = .ok p → decode token now' = .ok p' → p = p'

inductive AuthError where
  | jwt (e : JwtError)
  | tokenRevoked
  | parentTokenRevoked
  deriving DecidableEq, Repr

/-- What follows the decoding: the token's own `jti`, then that of the parent's token. -/
def checkRevoked (revokedJtis : List String) (p : Payload) : Except AuthError Payload :=
  if p.jti ∈ revokedJtis then .error .tokenRevoked
  else if p.delegationId.isSome ∧ ∃ jti ∈ p.parentJti, jti ≠ "" ∧ jti ∈ revokedJtis then
    .error .parentTokenRevoked
  else .ok p

def verifyModelRouterToken {τ : Type} (D : Decoder τ) (token : τ) (now : ℚ)
    (revokedJtis : List String) : Except AuthError Payload :=
  match D.decode token now with
  | .error e => .error (.jwt e)
  | .ok p => checkRevoked revokedJtis p

theorem verify_eq_ok {τ : Type} {D : Decoder τ} {token : τ} {now : ℚ} {revokedJtis : List String}
    {p : Payload} (h : verifyModelRouterToken D token now revokedJtis = .ok p) :
    D.decode token now = .ok p ∧ p.jti ∉ revokedJtis := by
  unfold verifyModelRouterToken at h
  split at h
  · cases h
  · rename_i p' hdecode
    unfold checkRevoked at h
    split at h
    · cases h
    · rename_i hjti
      split at h
      · cases h
      · cases h
        exact ⟨hdecode, hjti⟩

structure Delegation where
  id : Uuid
  parentAgentId : String
  parentJti : String
  childJti : String
  childLabel : String
  allowedModels : List String
  maxRequestsPerMinute : Option ℤ
  maxTokensPerDay : Option ℤ
  expiresAt : ℤ
  revokedAt : Option ℚ := none
  createdAt : ℚ
  deriving DecidableEq, Repr

structure RevokedToken where
  jti : String
  agentId : String
  expiresAt : ℤ
  deriving DecidableEq, Repr

inductive UsageStatus where
  | success
  | error
  | rateLimited
  | budgetExceeded
  | clientDisconnect
  deriving DecidableEq, Repr

def UsageStatus.counted : UsageStatus → Bool
  | success | error => true
  | rateLimited | budgetExceeded | clientDisconnect => false

structure Usage where
  agentId : String
  modelName : String
  requestType : String
  status : UsageStatus
  inputTokens : Option ℤ := some 0
  outputTokens : Option ℤ := some 0
  delegationId : Option Uuid := none
  owner : Option String := none
  requestedModel : Option String := none
  providerModelId : Option String := none
  deriving DecidableEq, Repr

structure UsageRow where
  usage : Usage
  createdAt : ℚ
  deriving DecidableEq, Repr

/-- `agent_id = $1 AND status IN (...)`, and `delegation_id = $2` where one is given. -/
def UsageRow.countsFor (r : UsageRow) (agentId : String) (delegationId : Option Uuid) : Bool :=
  r.usage.agentId = agentId && r.usage.status.counted &&
    delegationId.all fun id => r.usage.delegationId = some id

inductive Json where
  | null
  | bool (b : Bool)
  | number (q : ℚ)
  | text (s : String)
  | array (items : List Json)
  | object (members : List (String × Json))

abbrev Body := String → Option Json

structure Forwarded where
  agentId : String
  sentAt : ℚ
  deriving DecidableEq, Repr

structure Store where
  now : ℚ := 0
  policies : Policies.Store
  catalog : Catalog
  owners : String → Option String := fun _ => none
  delegations : Table Delegation.id := Table.empty
  revokedTokens : Table RevokedToken.jti := Table.empty
  usage : List UsageRow := []
  revokedJtis : List String := []
  forwarded : List Forwarded := []
  nextId : Uuid := 0

end Hill90.Router
