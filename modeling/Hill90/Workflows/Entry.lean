import Hill90.Foundation.Play
import Hill90.Workflows.Scheduler

/-! # The other writers of chat rows

`POST /workflows/:id/run`, `POST /webhook/:token` and `POST /internal/discord/message`,
beside the scheduler the writers that fill the chat tables without the chat routes.
-/

namespace Hill90.Workflows

open Chat (Uuid Failure)

structure Response where
  status : ℕ := 200
  error : Option String := none
  deriving DecidableEq, Repr

/-- `void dispatchChatWork(…).catch(…)`: nothing waits for it, and a failure is recorded. -/
def dispatchUnawaited (workflowId runId : Uuid) (work : Work) : Handler Unit :=
  tryCatch (do
    let _ ← ask (.dispatch workflowId work)
    pure ()) fun e => quietly (ask (.failRun runId (orElse (failureText e) "Dispatch failed")))

/-- The rows of a run, its dispatch and `last_run_at`: what the two routes share, given the
title and the creator of the thread, the human, the prompt and the model of the agent. -/
def startRun (wf : DueRow) (runId : Uuid) (title createdBy human prompt : String)
    (models : Handler (List String)) : Handler Response := do
  let threadId ← ask (.chat (.thread title createdBy))
  ask (.setRunThread runId threadId)
  let _ ← ask (.chat (.participant threadId (toString wf.agentId) "agent"))
  let _ ← ask (.chat (.participant threadId human "human"))
  let messageId ← ask (.chat (.message threadId human "human" none prompt "delivered"))
  let models ← models
  dispatchUnawaited wf.id runId
    { agentId := wf.agentSlug, workToken := wf.workToken, threadId, messageId, prompt
      model := orElse (models.headD "") "default" }
  ask (.touchLastRun wf.id)
  pure {}

/-- Once the run has a row, a failure marks it before the answer. -/
def orMarked (runId : Uuid) (setup error : String) (p : Handler Response) : Handler Response :=
  tryCatch p fun e => do
    quietly (ask (.failRunningRun runId (orElse (failureText e) setup)))
    pure { status := 500, error := some error }

def orFailed (error : String) (p : Handler Response) : Handler Response :=
  tryCatch p fun _ => pure { status := 500, error := some error }

def runNow (id : Uuid) (user : String) (admin : Bool) : Handler Response :=
  orFailed "Failed to run workflow" do
    match ← ask (.selectForRun id user admin) with
    | [] => pure { status := 404, error := some "Workflow not found" }
    | wf :: _ =>
      if wf.agentStatus ≠ "running" then
        pure { status := 409, error := some ("Agent " ++ wf.agentSlug ++
          " is not running (status: " ++ wf.agentStatus ++ ")") }
      else do
        let runId ← ask (.insertRun wf.id)
        orMarked runId "Run setup failed" "Failed to run workflow"
          (startRun wf runId ("Workflow: " ++ wf.name) user user wf.prompt
            (ask (.selectModels wf.agentId)))

/-- `POST /webhook/:token`; `payload` is the body as JSON, `none` when it has no keys. -/
def webhook (tokenHash : String) (payload : Option String) : Handler Response :=
  orFailed "Webhook trigger failed" do
    match ← ask (.selectByToken tokenHash) with
    | [] => pure { status := 404, error := some "Webhook not found or workflow disabled" }
    | wf :: _ =>
      if wf.agentStatus ≠ "running" then
        pure { status := 409, error := some ("Agent " ++ wf.agentSlug ++ " is not running") }
      else do
        let prompt := match payload with
          | some json => wf.prompt ++ "\n\nWebhook payload:\n```json\n" ++ json ++ "\n```"
          | none => wf.prompt
        let runId ← ask (.insertRun wf.id)
        orMarked runId "Webhook trigger failed" "Webhook trigger failed"
          (startRun wf runId ("Webhook: " ++ wf.name) "webhook" wf.createdBy prompt
            (pure wf.allowedModels))

/-- The user of the chat rows: the linked one, or the Discord user. -/
def discordUser (discordUserId : Option String) : Handler String :=
  match discordUserId with
  | none => pure "discord-user"
  | some discordUserId =>
    if discordUserId.isEmpty then pure "discord-user"
    else do
      let links ← ask (.selectUserLink discordUserId)
      pure (links.headD discordUserId)

def discordThread (binding : Binding) (userId : String) : Handler Uuid :=
  match binding.threadId with
  | some threadId => pure threadId
  | none => do
    let threadId ← ask (.chat (.thread ("Discord: " ++ binding.channelId) userId))
    ask (.bindThread binding.channelId threadId)
    ask (.chatRows [.participant threadId userId "user",
      .participant threadId (toString binding.agentId) "agent"])
    pure threadId

/-- `POST /internal/discord/message`, behind the service token. -/
def relayMessage (channelId : String) (discordUserId : Option String) (content : String) :
    Handler Response :=
  if channelId.isEmpty || content.isEmpty then
    pure { status := 400, error := some "channel_id and content are required" }
  else
    orFailed "Failed to relay message" do
      match ← ask (.selectBinding channelId) with
      | [] => pure { status := 404, error := some "Channel not bound to an agent" }
      | binding :: _ => do
        let userId ← discordUser discordUserId
        tryCatch (do
          ask .begin
          let threadId ← discordThread binding userId
          let _ ← ask (.chat (.message threadId userId "user" none content "delivered"))
          let _ ← ask (.chat
            (.message threadId (toString binding.agentId) "agent" none "" "pending"))
          ask (.touchThread threadId)
          ask .commit) fun e => do
            quietly (ask .rollback)
            throw e
        pure {}

end Hill90.Workflows
