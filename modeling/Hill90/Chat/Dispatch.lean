import Hill90.Foundation.Program
import Hill90.Chat.Statement
import Hill90.Chat.Text

/-! # Dispatch to agents

`dispatchToAgents` is shared by the human send and the chain: it inserts one pending
placeholder for each agent in turn, calls all the agents at once, and marks the
placeholders of the calls that failed.  A failure to mark one is swallowed.
-/

namespace Hill90.Chat

abbrev Handler := Program Statement Statement.Rows Failure

abbrev query (s : Statement) : Handler s.Rows := Program.query s

/-- The environment variables the chat routes read.  A limit that does not parse is
`NaN`, here `none`. -/
structure Config where
  chatCallbackToken : Option String
  maxChainHops : Option ℤ := some 5
  maxChainDurationMs : Option ℤ := some 60000
  defaultChatModel : String := "claude-sonnet-4-20250514"
  akmInternalServiceToken : Option String := none
  akmConfigured : Bool := false
  modelRouterConfigured : Bool := false

structure DispatchOpts where
  threadId : Uuid
  agents : List Agent
  replyTo : Uuid
  historyMessages : List ChatLine
  chain : Option (Uuid × Option ℕ × Option Uuid) := none
  threadType : Option ThreadType := none
  participants : Option (List Peer) := none
  leadAgentId : Option Uuid := none

structure Dispatched where
  agentId : Uuid
  messageId : Uuid
  deriving DecidableEq, Repr

structure Undelivered where
  agentId : Uuid
  messageId : Uuid
  reason : String
  deriving DecidableEq, Repr

def Agent.peer (a : Agent) : Peer := ⟨a.agentId, (orNull a.name).getD a.agentId⟩

/-- `agent.status !== 'running' || !agent.work_token`, negated. -/
def Agent.isDispatchable (a : Agent) : Bool :=
  a.status = "running" && (orNull a.workToken).isSome

def quietly (p : Handler Unit) : Handler Unit := tryCatch p fun _ => pure ()

def closeMessages (c : Closer) : Handler ℕ := query (.closeMessages c)

def createPlaceholders (opts : DispatchOpts) : List Agent → Handler (List (Agent × Uuid))
  | [] => pure []
  | agent :: agents => do
    let id : Uuid ← query (.createPlaceholder
      { threadId := opts.threadId, agentId := agent.id, replyTo := opts.replyTo
        chain := opts.chain })
    let rest ← createPlaceholders opts agents
    pure ((agent, id) :: rest)

def refuseAll : List (Agent × Uuid) → Handler (List Undelivered)
  | [] => pure []
  | (agent, id) :: placeholders => do
    quietly (do let _ ← closeMessages (.callbackNotConfigured id))
    let rest ← refuseAll placeholders
    pure (⟨agent.id, id, "callback_not_configured"⟩ :: rest)

def chatWork (cfg : Config) (opts : DispatchOpts) (agent : Agent) (id : Uuid) : ChatWork where
  agentId := agent.agentId
  workToken := agent.workToken
  threadId := opts.threadId
  messageId := id
  messages := opts.historyMessages
  model := (orNull agent.models.head?).getD cfg.defaultChatModel
  callbackUrl := "http://api:3000/internal/chat/callback"
  threadType := opts.threadType
  participants := opts.participants
  isLead := opts.leadAgentId.map fun lead => agent.id = lead
  collaborators := opts.leadAgentId.bind fun lead =>
    if agent.id = lead then some ((opts.agents.filter fun a => a.id ≠ lead).map Agent.peer)
    else none

def DispatchOutcome.failure : DispatchOutcome → Option String
  | .fulfilled true _ => none
  | .fulfilled false error => some ((orNull error).getD "not accepted")
  | .rejected reason => some reason

def settle : List (Agent × Uuid) → List DispatchOutcome →
    Handler (List Dispatched × List Undelivered)
  | (agent, id) :: placeholders, result :: results => do
    match result.failure with
    | none =>
      let (dispatched, failed) ← settle placeholders results
      pure (⟨agent.id, id⟩ :: dispatched, failed)
    | some reason =>
      let safeReason := sanitizeDispatchReason reason [agent.workToken]
      quietly (do let _ ← closeMessages (.dispatchFailed id safeReason))
      let (dispatched, failed) ← settle placeholders results
      pure (dispatched, ⟨agent.id, id, "dispatch_failed"⟩ :: failed)
  | _, _ => pure ([], [])

def dispatchToAgents (cfg : Config) (opts : DispatchOpts) :
    Handler (List Dispatched × List Undelivered) := do
  let placeholders ← createPlaceholders opts opts.agents
  if (orNull cfg.chatCallbackToken).isNone then
    let failed ← refuseAll placeholders
    pure ([], failed)
  else
    let results : List DispatchOutcome ← query (.dispatchChatWork
      (placeholders.map fun (agent, id) => chatWork cfg opts agent id))
    settle placeholders results

end Hill90.Chat
