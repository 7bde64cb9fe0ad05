import Hill90.Foundation.Table
import Hill90.Chat.Record

/-! # Agents, their containers and their sessions

The rows of `agents` and `agent_sessions`, the containers as Docker reports them, and the
tokens that were signed for an agent together with the denylists they are revoked by.
-/

namespace Hill90.Agents

open Chat (Uuid)

inductive Status where
  | stopped
  | running
  | error
  deriving DecidableEq, Repr

inductive ContainerState where
  | absent
  | created
  | running
  | paused
  | restarting
  | removing
  | exited
  | dead
  deriving DecidableEq, Repr

def ContainerState.text : ContainerState → String
  | absent => "absent"
  | created => "created"
  | running => "running"
  | paused => "paused"
  | restarting => "restarting"
  | removing => "removing"
  | exited => "exited"
  | dead => "dead"

structure Container where
  id : Uuid
  status : ContainerState
  startedAt : Option ℕ := none
  finishedAt : Option ℕ := none
  deriving DecidableEq, Repr

inductive TokenKind where
  | akm
  | modelRouter
  deriving DecidableEq, Repr

/-- A signed token: its `jti`, its `exp`, and the secret it may be refreshed with. -/
structure Credential where
  jti : Uuid
  exp : ℕ
  refreshSecret : Option Uuid := none
  deriving DecidableEq, Repr

structure Agent where
  id : Uuid
  agentId : String
  createdBy : String
  status : Status := .stopped
  containerId : Option Uuid := none
  containerState : Option ContainerState := none
  containerFinishedAt : Option ℕ := none
  errorMessage : Option String := none
  workToken : Option Uuid := none
  akm : Option Credential := none
  modelRouter : Option Credential := none
  deriving DecidableEq, Repr

def Agent.credential (a : Agent) : TokenKind → Option Credential
  | .akm => a.akm
  | .modelRouter => a.modelRouter

def Agent.setCredential (a : Agent) (kind : TokenKind) (c : Option Credential) : Agent :=
  match kind with
  | .akm => { a with akm := c }
  | .modelRouter => { a with modelRouter := c }

structure Session where
  id : Uuid
  agentId : Uuid
  startedAt : ℕ
  stoppedAt : Option ℕ := none
  startedAtEstimated : Bool := false
  stoppedAtEstimated : Bool := false
  deriving DecidableEq, Repr

structure Token where
  kind : TokenKind
  agent : Uuid
  jti : Uuid
  exp : ℕ
  deriving DecidableEq, Repr

structure Store where
  agents : Table Agent.id := Table.empty
  sessions : Table Session.id := Table.empty
  containers : String → Option Container := fun _ => none
  issued : List Token := []
  revoked : List Uuid := []
  now : ℕ := 0
  nextId : Uuid := 0

namespace Store

variable (s : Store)

def agent? (id : Uuid) : Option Agent := s.agents.get? id

def rewrite (id : Uuid) (f : Agent → Agent) (hf : ∀ a, (f a).id = a.id) : Store :=
  { s with agents := s.agents.patch (fun a => a.id = id) (fun _ => f) 0 fun _ => hf }

def setContainer (agentId : String) (c : Option Container) : Store :=
  { s with containers := Function.update s.containers agentId c }

theorem agent?_rewrite {id : Uuid} {f : Agent → Agent} {hf : ∀ a, (f a).id = a.id} (id' : Uuid) :
    (s.rewrite id f hf).agent? id' = (s.agent? id').map fun a => if a.id = id then f a else a := by
  rw [agent?, rewrite, Table.get?_patch_eq]
  simp [agent?]

def openSessions (id : Uuid) : List Session :=
  s.sessions.rows.filter fun x => x.agentId = id && x.stoppedAt.isNone

end Store

end Hill90.Agents
