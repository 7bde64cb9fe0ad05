import Hill90.Workflows.Statement

/-! # The workflow scheduler

`workflow-scheduler.ts`: the sweep at boot, the tick and the execution of one workflow.
-/

namespace Hill90.Workflows

open Chat (Uuid Failure)

def failureText : Failure → String
  | .error message => message
  | .uniqueViolation constraint => "duplicate key value violates unique constraint " ++ constraint
  | .foreignKeyViolation => "insert or update violates foreign key constraint"

def orElse (text fallback : String) : String := if text.isEmpty then fallback else text

def quietly (p : Handler Unit) : Handler Unit := tryCatch p fun _ => pure ()

def withFinally {α : Type} (p : Handler α) (cleanup : Handler Unit) : Handler α := do
  let a ← tryCatch p fun e => do
    cleanup
    throw e
  cleanup
  pure a

variable (cron : Cron)

def isValidCronExpression (expr : String) : Bool := !expr.isEmpty && cron.valid expr

/-- What `computeNextRun` works on: no schedule, or one that parses; it throws otherwise. -/
def parseSchedule : Option String → Except String (Option String)
  | none => pure none
  | some expr =>
    if expr.isEmpty then pure none
    else if cron.valid expr then pure (some expr)
    else throw (cron.error expr)

def recordCronFailure (workflowId : Uuid) (cronExpr error : String) : Handler Unit :=
  quietly (ask (.insertFailedRun workflowId
    ("Cannot schedule next run: cron expression \"" ++ cronExpr ++ "\" is invalid — " ++ error)))

def recordUnexpectedFailure (workflowId : Uuid) (e : Failure) : Handler Unit :=
  quietly (ask (.insertFailedRun workflowId
    ("Scheduler tick failed for this workflow: " ++ failureText e)))

/-- The schedule to compute the next time from, after a failure has been recorded: none. -/
def scheduleOf (workflowId : Uuid) (schedule : Option String) : Handler (Option String) :=
  match parseSchedule cron schedule with
  | .ok parsed => pure parsed
  | .error e => do
    recordCronFailure workflowId (schedule.getD "") e
    pure none

def initializeOne (row : Uuid × Option String) : Handler Unit :=
  match parseSchedule cron row.2 with
  | .ok none => pure ()
  | .ok (some expr) => ask (.initNextRun row.1 expr)
  | .error e => recordCronFailure row.1 (row.2.getD "") e

def initializeNextRuns : Handler Unit :=
  quietly do
    let rows ← ask .selectUnscheduled
    rows.forM (initializeOne cron)

/-- The chat thread of a run, its participants and its message, and the dispatch. -/
def runWorkflow (wf : DueRow) (runId : Uuid) : Handler Unit := do
  let threadId ← ask (.chat (.thread ("Workflow: " ++ wf.name) "system"))
  let _ ← ask (.chat (.participant threadId (toString wf.agentId) "agent"))
  let _ ← ask (.chat (.participant threadId wf.createdBy "human"))
  let messageId ← ask (.chat (.message threadId wf.createdBy "human" none wf.prompt "delivered"))
  let result ← ask (.dispatch wf.id
    { agentId := wf.agentSlug, workToken := wf.workToken, threadId, messageId
      prompt := wf.prompt, model := orElse (wf.allowedModels.headD "") "default" })
  ask (.setRunThread runId threadId)
  if !result.accepted then
    throw (.error (orElse (result.error.getD "") "Agent rejected work"))

def executeWorkflow (wf : DueRow) : Handler Unit :=
  if wf.agentStatus ≠ "running" then do
    let next ← scheduleOf cron wf.id wf.scheduleCron
    ask (.advance wf.id next false)
  else do
    let runId ← ask (.insertRun wf.id)
    tryCatch (runWorkflow wf runId) fun e =>
      quietly (ask (.failRun runId (orElse (failureText e) "Unknown error")))
    let next ← scheduleOf cron wf.id wf.scheduleCron
    ask (.advance wf.id next true)

/-- One workflow of the batch; what it throws ends here. -/
def executeContained (wf : DueRow) : Handler Unit :=
  tryCatch (executeWorkflow cron wf) (recordUnexpectedFailure wf.id)

def executeDue : Handler Unit := do
  let due ← ask .selectDue
  due.forM (executeContained cron)

/-- The flag `running` keeps two ticks of one instance apart. -/
def tick : Handler Unit :=
  quietly do
    let acquired ← ask .tryAdvisoryLock
    if acquired then withFinally (executeDue cron) (ask .advisoryUnlock)

section Only

open Program (Only only_bind only_query only_ite only_tryCatch only_pure only_throw)

def Concerns (workflowId : Uuid) : Statement → Prop
  | .insertRun id | .dispatch id _ | .advance id _ _ => id = workflowId
  | .insertFailedRun .. | .chat _ | .setRunThread .. | .failRun .. => True
  | _ => False

variable {cron}

theorem concerns_insertRun (id : Uuid) : Concerns id (.insertRun id) := rfl

theorem concerns_dispatch (id : Uuid) (work : Work) : Concerns id (.dispatch id work) := rfl

theorem concerns_advance (id : Uuid) (next : Option String) (ran : Bool) :
    Concerns id (.advance id next ran) := rfl

theorem only_scheduleOf {id : Uuid} {schedule : Option String} :
    Only (fun st => match st with | .insertFailedRun .. => True | _ => False)
      (scheduleOf cron id schedule) := by
  unfold scheduleOf
  split
  · exact only_pure _
  · exact only_bind (only_tryCatch (only_query trivial) fun _ => only_pure _) fun _ => only_pure _

theorem only_runWorkflow {wf : DueRow} {runId : Uuid} :
    Only (Concerns wf.id) (runWorkflow wf runId) := by
  unfold runWorkflow
  apply only_bind (only_query trivial)
  intro threadId
  apply only_bind (only_query trivial)
  intro _
  apply only_bind (only_query trivial)
  intro _
  apply only_bind (only_query trivial)
  intro messageId
  apply only_bind (only_query (concerns_dispatch _ _))
  intro result
  apply only_bind (only_query trivial)
  intro _
  exact only_ite (fun _ => only_throw _) fun _ => only_pure _

theorem only_executeContained (wf : DueRow) : Only (Concerns wf.id) (executeContained cron wf) := by
  have hschedule : Only (Concerns wf.id) (scheduleOf cron wf.id wf.scheduleCron) := by
    apply only_scheduleOf.mono
    intro st hst
    cases st <;> first | exact hst.elim | trivial
  apply only_tryCatch
  · unfold executeWorkflow
    apply only_ite <;> intro _
    · exact only_bind hschedule fun _ => only_query (concerns_advance _ _ _)
    · apply only_bind (only_query (concerns_insertRun _))
      intro runId
      apply only_bind
      · exact only_tryCatch only_runWorkflow fun _ =>
          only_tryCatch (only_query trivial) fun _ => only_pure _
      · exact fun _ => only_bind hschedule fun _ => only_query (concerns_advance _ _ _)
  · exact fun _ => only_tryCatch (only_query trivial) fun _ => only_pure _

end Only

end Hill90.Workflows
