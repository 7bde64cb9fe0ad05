import Hill90.Chat.Record

/-! # The rows of the workflow tables

`workflows`, `workflow_runs` and the bindings of Discord channels, with the raw rows
their writers put into the chat tables: what a CHECK forbids can be written down here.
-/

namespace Hill90.Workflows

open Chat (Uuid Agent)

structure Workflow where
  id : Uuid
  name : String
  agentId : Uuid
  scheduleCron : Option String
  prompt : String
  enabled : Bool := true
  createdBy : String
  triggerType : String := "cron"
  webhookTokenHash : Option String := none
  lastRunAt : Option ℕ := none
  nextRunAt : Option ℕ := none
  deriving DecidableEq, Repr

def Workflow.isWebhook (w : Workflow) : Bool := w.triggerType = "webhook"

structure Run where
  id : Uuid
  workflowId : Uuid
  status : String
  threadId : Option Uuid := none
  error : Option String := none
  deriving DecidableEq, Repr

/-- `cron-parser` behind `computeNextRun`: which expressions parse, what it says of the
others, and the next time after a clock. -/
structure Cron where
  valid : String → Bool
  error : String → String
  next : String → ℕ → ℕ

/-- The row an INSERT of a workflow writer proposes for a chat table; a column it does
not name is `none`. -/
inductive ChatInsert where
  | thread (title : String) (createdBy : String)
  | participant (threadId : Uuid) (participantId : String) (participantType : String)
  | message (threadId : Uuid) (authorId : String) (authorType : String) (role : Option String)
      (content : String) (status : String)
  deriving DecidableEq, Repr

def chatSchema : ChatInsert → Bool
  | .thread .. => true
  | .participant _ _ participantType => participantType ∈ ["human", "agent"]
  | .message _ _ authorType role _ status =>
    authorType ∈ ["human", "agent"] && role.any (· ∈ ["user", "assistant"]) &&
      status ∈ ["pending", "thinking", "complete", "error", "stale"]

structure Binding where
  channelId : String
  agentId : Uuid
  threadId : Option Uuid := none
  deriving DecidableEq, Repr

/-- What a chat table holds of an accepted INSERT: the row and the id it got. -/
structure ChatRow where
  id : Uuid
  row : ChatInsert
  deriving DecidableEq, Repr

structure Work where
  agentId : String
  workToken : Option String
  threadId : Uuid
  messageId : Uuid
  prompt : String
  model : String
  callbackUrl : String := "http://api:3000/internal/chat/callback"
  deriving DecidableEq, Repr

structure Store where
  workflows : Table Workflow.id := Table.empty
  agents : Table Agent.id := Table.empty
  runs : List Run := []
  chat : List ChatRow := []
  bindings : List Binding := []
  userLinks : List (String × String) := []
  /-- The work agents have accepted. -/
  dispatched : List Work := []
  /-- The chat rows and the bindings at the BEGIN of a transaction. -/
  saved : Option (List ChatRow × List Binding) := none
  /-- No column: the schedule that the `next_run_at` of a workflow was computed from. -/
  computedFrom : Uuid → Option String := fun _ => none
  nextId : Uuid := 0
  now : ℕ := 0

end Hill90.Workflows
