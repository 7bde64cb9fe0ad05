import Hill90.Workflows.Entry

/-! # The workflow routes

`POST /`, `PUT /:id` and `DELETE /:id` of `routes/workflows.ts`.
-/

namespace Hill90.Workflows

open Chat (Uuid Failure)

structure NewWorkflow where
  name : String
  agentId : Option Uuid
  scheduleCron : Option String
  prompt : String
  enabled : Option Bool := none
  triggerType : Option String := none
  deriving DecidableEq, Repr

def requiredNonEmptyError (value label : String) : Option String :=
  if value.isEmpty then some (label ++ " is required") else none

def badRequest (error : String) : Handler Response := pure { status := 400, error := some error }

def notFound (error : String) : Handler Response := pure { status := 404, error := some error }

/-- `computeNextRun` in a route: it throws on a schedule that does not parse. -/
def computeNextRun (cron : Cron) (schedule : Option String) : Handler (Option String) :=
  match parseSchedule cron schedule with
  | .ok parsed => pure parsed
  | .error e => throw (.error e)

variable (cron : Cron)

def NewWorkflow.trigger (body : NewWorkflow) : String := orElse (body.triggerType.getD "") "cron"

/-- The row of a new workflow; a webhook gets a token and no schedule. -/
def NewWorkflow.row (body : NewWorkflow) (agentId : Uuid) (schedule user tokenHash : String) :
    Workflow where
  id := 0
  name := body.name
  agentId := agentId
  scheduleCron := if body.trigger = "webhook" then none else some schedule
  prompt := body.prompt
  enabled := body.enabled.getD true
  createdBy := user
  triggerType := body.trigger
  webhookTokenHash := if body.trigger = "webhook" then some tokenHash else none

def firstSchedule (trigger schedule : String) : Handler (Option String) :=
  if trigger = "webhook" then pure none else computeNextRun cron (some schedule)

/-- `POST /`; `tokenHash` is the digest of a fresh random token. -/
def createWorkflow (user tokenHash : String) (body : NewWorkflow) : Handler Response :=
  orFailed "Failed to create workflow" do
    match body.agentId, body.scheduleCron with
    | some agentId, some schedule =>
      if schedule.isEmpty then badRequest "name, agent_id, schedule_cron, and prompt are required"
      else if let some error := requiredNonEmptyError body.name "name" then badRequest error
      else if let some error := requiredNonEmptyError body.prompt "prompt" then badRequest error
      else if !isValidCronExpression cron schedule then badRequest "Invalid cron expression"
      else do
        let exists? ← ask (.agentExists agentId)
        if !exists? then notFound "Agent not found"
        else do
          let next ← firstSchedule cron body.trigger schedule
          let _ ← ask (.insertWorkflow (body.row agentId schedule user tokenHash) next)
          pure { status := 201 }
    | _, _ => badRequest "name, agent_id, schedule_cron, and prompt are required"

def providedError (value : Option String) (label : String) : Option String :=
  value.bind fun value => requiredNonEmptyError value label

def reEnabled (existing : Bool) (enabled : Option Bool) : Bool := !existing && enabled.getD existing

/-- The schedule a PUT computes `next_run_at` from: only when the schedule changes or the
workflow is enabled again, and never for a webhook. -/
def rescheduled (changes : Changes) (existing : Bool × Option String × String) :
    Handler (Option String) :=
  let (enabled, stored, triggerType) := existing
  if triggerType ≠ "webhook" ∧ ((changes.scheduleCron.isSome ∧ changes.scheduleCron ≠ stored) ∨
      reEnabled enabled changes.enabled = true) then
    computeNextRun cron (changes.scheduleCron <|> stored)
  else pure none

def agentKnown (agentId : Option Uuid) : Handler Bool :=
  match agentId with
  | some agentId => ask (.agentExists agentId)
  | none => pure true

def updateWorkflow (id : Uuid) (user : String) (admin : Bool) (changes : Changes) :
    Handler Response :=
  orFailed "Failed to update workflow" do
    if let some error := providedError changes.name "name" then badRequest error
    else if let some error := providedError changes.prompt "prompt" then badRequest error
    else if changes.scheduleCron.any (!isValidCronExpression cron ·) then
      badRequest "Invalid cron expression"
    else do
      let known ← agentKnown changes.agentId
      if !known then notFound "Agent not found"
      else
        match ← ask (.selectForUpdate id user admin) with
        | [] => notFound "Workflow not found"
        | existing :: _ => do
          let schedule ← rescheduled cron changes existing
          let count ← ask (.updateWorkflow id user admin changes schedule)
          if count = 0 then notFound "Workflow not found" else pure {}

def deleteWorkflow (id : Uuid) (user : String) (admin : Bool) : Handler Response :=
  orFailed "Failed to delete workflow" do
    let count ← ask (.deleteWorkflow id user admin)
    if count = 0 then notFound "Workflow not found" else pure {}

inductive Request where
  | boot
  | tick
  | create (user tokenHash : String) (body : NewWorkflow)
  | update (id : Uuid) (user : String) (admin : Bool) (changes : Changes)
  | delete (id : Uuid) (user : String) (admin : Bool)
  deriving DecidableEq, Repr

/-- What the scheduler runs and what the routes answer. -/
def handle : Request → Handler Response
  | .boot => do
    initializeNextRuns cron
    pure {}
  | .tick => do
    tick cron
    pure {}
  | .create user tokenHash body => createWorkflow cron user tokenHash body
  | .update id user admin changes => updateWorkflow cron id user admin changes
  | .delete id user admin => deleteWorkflow id user admin

end Hill90.Workflows
