import Mathlib.Logic.Function.Basic
import Hill90.Chat.Statement
import Hill90.Agents.Record

/-! # The statements of the agent lifecycle

The SQL of the start, stop, delete and refresh routes and of the reconciler, the calls to
Docker one by one, and the calls about tokens.
-/

namespace Hill90.Agents

open Chat (Uuid Failure)

structure AgentStatusPatch where
  id : Uuid
  agentId : String
  previousStatus : Status
  status : Status
  containerState : Option ContainerState
  containerId : Option (Option Uuid) := none
  errorMessage : Option (Option String) := none
  containerFinishedAt : Option (Option ℕ) := none
  deriving DecidableEq, Repr

def AgentStatusPatch.apply (p : AgentStatusPatch) (a : Agent) : Agent :=
  { a with
    status := p.status, containerState := p.containerState
    containerId := p.containerId.getD a.containerId
    errorMessage := p.errorMessage.getD a.errorMessage
    containerFinishedAt := p.containerFinishedAt.getD a.containerFinishedAt }

theorem AgentStatusPatch.apply_id (p : AgentStatusPatch) (a : Agent) : (p.apply a).id = a.id := rfl

inductive Statement where
  | selectAgent (id : Uuid)
  | selectRefreshable (sub : String ⊕ Uuid) (secret : Uuid)
  | selectAgents
  | readSkills (id : Uuid)
  | readScope (id : Uuid)
  | readProfile (id : Uuid)
  /-- The checks of the stored limits, which throw where one is out of range. -/
  | checkLimits (agentId : String)
  | mint (kind : TokenKind) (id : Uuid)
  | randomUUID
  | revoke (kind : TokenKind) (agentId : String) (jti : Uuid)
  | inspect (agentId : String)
  | inspectStarted (agentId : String)
  | stopContainer (agentId : String)
  | removeContainer (agentId : String)
  | createContainer (agentId : String)
  | startContainer (agentId : String) (containerId : Uuid)
  | inspectCreated (agentId : String) (containerId : Uuid)
  | installTools (id : Uuid)
  | storeToken (kind : TokenKind) (id : Uuid) (credential : Credential)
  | markRunning (id containerId workToken : Uuid)
  | markError (id : Uuid) (detail : String)
  | markStopped (id : Uuid) (keepAkm keepModelRouter : Bool)
  | insertSession (id : Uuid) (startedAt : Option ℕ)
  | closeMessages (id : Uuid)
  | closeSessions (id : Uuid)
  | patch (p : AgentStatusPatch)
  | sweepSessions
  | deleteAgent (id : Uuid)
  deriving DecidableEq, Repr

namespace Statement

abbrev Rows : Statement → Type
  | selectAgent _ | selectRefreshable .. => Option Agent
  | selectAgents => List Agent
  | mint .. => Option Credential
  | randomUUID | createContainer _ => Uuid
  | inspect _ | inspectStarted _ => Option Container
  | _ => Unit

end Statement

/-- Whether a token can be signed; a signature is made in the process and is not lost. -/
structure Choice where
  signs : Bool := true
  deriving DecidableEq, Repr

def notFound : Failure := .error "404"

def conflict : Failure := .error "409"

def tokenLifetime : ℕ := 3600

namespace Store

variable (s : Store)

def withContainer (agentId : String) (f : Container → Option Container) :
    Except Failure (Unit × Store) :=
  match s.containers agentId with
  | some c => .ok ((), s.setContainer agentId (f c))
  | none => .error notFound

def closeWhere (p : Session → Bool) (f : Session → Session) (hf : ∀ x, (f x).id = x.id) : Store :=
  { s with sessions := s.sessions.patch (fun x => x.stoppedAt.isNone && p x) (fun _ => f) 0 fun _ => hf }

/-- `COALESCE(a.container_finished_at, NOW())` of the agent of a session. -/
def finishedAt (x : Session) : Option ℕ := (s.agent? x.agentId).bind (·.containerFinishedAt)

def stale (x : Session) : Bool := (s.agent? x.agentId).any fun a => a.status ≠ .running

def close (x : Session) : Session :=
  { x with stoppedAt := some ((s.finishedAt x).getD s.now)
           stoppedAtEstimated := (s.finishedAt x).isNone }

end Store

def Statement.run (s : Store) (c : Choice) : (st : Statement) → Except Failure (st.Rows × Store)
  | .selectAgent id => .ok (s.agent? id, s)
  | .selectRefreshable sub secret =>
    .ok (s.agents.rows.find? fun a =>
      (sub = .inl a.agentId || sub = .inr a.id) && a.status = .running &&
        a.modelRouter.any fun c => c.refreshSecret = some secret, s)
  | .selectAgents => .ok (s.agents.rows, s)
  | .readSkills _ | .readScope _ | .readProfile _ | .checkLimits _ | .installTools _
  | .closeMessages _ => .ok ((), s)
  | .mint kind id =>
    if c.signs then
      let secret := if kind = .modelRouter then some (s.nextId + 1) else none
      .ok (some ⟨s.nextId, s.now + tokenLifetime, secret⟩,
        { s with issued := ⟨kind, id, s.nextId, s.now + tokenLifetime⟩ :: s.issued
                 nextId := s.nextId + 2 })
    else .ok (none, s)
  | .randomUUID => .ok (s.nextId, { s with nextId := s.nextId + 1 })
  | .revoke _ _ jti => .ok ((), { s with revoked := jti :: s.revoked })
  | .inspect agentId | .inspectStarted agentId => .ok (s.containers agentId, s)
  | .stopContainer agentId =>
    s.withContainer agentId fun c => some { c with status := .exited, finishedAt := some s.now }
  | .removeContainer agentId => s.withContainer agentId fun _ => none
  | .createContainer agentId =>
    match s.containers agentId with
    | some _ => .error conflict
    | none =>
      .ok (s.nextId,
        { s.setContainer agentId (some ⟨s.nextId, .created, none, none⟩) with nextId := s.nextId + 1 })
  | .startContainer agentId containerId =>
    match s.containers agentId with
    | some c =>
      if c.id = containerId then
        .ok ((), s.setContainer agentId (some ⟨c.id, .running, some s.now, none⟩))
      else .error notFound
    | none => .error notFound
  | .inspectCreated agentId containerId =>
    match s.containers agentId with
    | some c => if c.id = containerId then .ok ((), s) else .error notFound
    | none => .error notFound
  | .storeToken kind id credential =>
    .ok ((), s.rewrite id (fun a => a.setCredential kind (some credential)) fun a => by
      cases kind <;> rfl)
  | .markRunning id containerId workToken =>
    .ok ((), s.rewrite id (fun a => { a with
      status := .running, containerId := some containerId, workToken := some workToken
      errorMessage := none, containerState := some .running
      containerFinishedAt := none }) fun _ => rfl)
  | .markError id detail =>
    .ok ((), s.rewrite id (fun a => { a with status := .error, errorMessage := some detail })
      fun _ => rfl)
  | .markStopped id keepAkm keepModelRouter =>
    .ok ((), s.rewrite id (fun a => { a with
      status := .stopped, containerId := none, workToken := none, errorMessage := none
      containerState := some .absent
      akm := if keepAkm then a.akm else none
      modelRouter := if keepModelRouter then a.modelRouter else none }) fun _ => rfl)
  | .insertSession id startedAt =>
    match s.sessions.insert
      { id := s.nextId, agentId := id, startedAt := startedAt.getD s.now
        startedAtEstimated := startedAt.isNone } with
    | some sessions => .ok ((), { s with sessions, nextId := s.nextId + 1 })
    | none => .error (.uniqueViolation "agent_sessions_pkey")
  | .closeSessions id =>
    .ok ((), s.closeWhere (fun x => x.agentId = id) (fun x => { x with stoppedAt := some s.now })
      fun _ => rfl)
  | .patch p => .ok ((), s.rewrite p.id p.apply p.apply_id)
  | .sweepSessions => .ok ((), s.closeWhere s.stale s.close fun _ => rfl)
  | .deleteAgent id =>
    .ok ((), { s with
      agents := s.agents.delete fun a => a.id = id
      sessions := s.sessions.delete fun x => x.agentId = id })

end Hill90.Agents
