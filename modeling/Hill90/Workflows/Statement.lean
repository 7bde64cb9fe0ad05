import Hill90.Foundation.Program
import Hill90.Chat.Statement
import Hill90.Workflows.Record

/-! # The statements of workflows

The SQL of the scheduler, of the workflow routes and of the Discord relay, and the
dispatch to an agent.  A time that a statement writes is computed from a schedule when
the statement is sent: the statement carries the schedule and the choice shows the clock.
-/

namespace Hill90.Workflows

open Chat (Uuid Agent Failure)

structure DueRow where
  id : Uuid
  name : String
  agentId : Uuid
  scheduleCron : Option String
  prompt : String
  createdBy : String
  agentSlug : String
  agentStatus : String
  workToken : Option String
  allowedModels : List String
  deriving DecidableEq, Repr

structure Changes where
  name : Option String := none
  agentId : Option Uuid := none
  scheduleCron : Option String := none
  prompt : Option String := none
  enabled : Option Bool := none
  deriving DecidableEq, Repr

structure DispatchResult where
  accepted : Bool
  error : Option String := none
  deriving DecidableEq, Repr

inductive Statement where
  | tryAdvisoryLock
  | advisoryUnlock
  | selectDue
  | selectUnscheduled
  | selectForRun (id : Uuid) (user : String) (admin : Bool)
  | selectByToken (tokenHash : String)
  | selectForUpdate (id : Uuid) (user : String) (admin : Bool)
  | selectBinding (channelId : String)
  | selectUserLink (discordUserId : String)
  | agentExists (agentId : Uuid)
  | insertRun (workflowId : Uuid)
  /-- A run that is over with an error when it is written. -/
  | insertFailedRun (workflowId : Uuid) (error : String)
  | setRunThread (runId threadId : Uuid)
  | failRun (runId : Uuid) (error : String)
  /-- `AND status = 'running'`. -/
  | failRunningRun (runId : Uuid) (error : String)
  | begin
  | commit
  | rollback
  | selectModels (agentId : Uuid)
  | chat (insert : ChatInsert)
  /-- One INSERT of several rows, `ON CONFLICT DO NOTHING`. -/
  | chatRows (inserts : List ChatInsert)
  | touchThread (threadId : Uuid)
  | bindThread (channelId : String) (threadId : Uuid)
  /-- `workflowId` says on whose behalf; the payload does not carry it. -/
  | dispatch (workflowId : Uuid) (work : Work)
  | touchLastRun (workflowId : Uuid)
  /-- The scheduler's own UPDATE of `next_run_at`, after a run or after a skip. -/
  | advance (workflowId : Uuid) (schedule : Option String) (ran : Bool)
  /-- The UPDATE of the boot sweep. -/
  | initNextRun (workflowId : Uuid) (schedule : String)
  | insertWorkflow (row : Workflow) (schedule : Option String)
  | updateWorkflow (id : Uuid) (user : String) (admin : Bool) (changes : Changes)
      (schedule : Option String)
  | deleteWorkflow (id : Uuid) (user : String) (admin : Bool)
  deriving DecidableEq, Repr

namespace Statement

abbrev Rows : Statement → Type
  | tryAdvisoryLock => Bool
  | selectDue | selectForRun .. | selectByToken _ => List DueRow
  | selectUnscheduled => List (Uuid × Option String)
  | selectForUpdate .. => List (Bool × Option String × String)
  | selectBinding _ => List Binding
  | selectUserLink _ | selectModels _ => List String
  | agentExists _ => Bool
  | insertRun _ | chat _ | insertWorkflow .. => Uuid
  | dispatch .. => DispatchResult
  | updateWorkflow .. | deleteWorkflow .. => ℕ
  | advisoryUnlock | insertFailedRun .. | setRunThread .. | failRun .. | failRunningRun .. |
    begin | commit | rollback | chatRows _ | touchThread _ | bindThread .. | touchLastRun _ |
    advance .. | initNextRun .. => Unit

end Statement

abbrev Handler (α : Type) := Program Statement Statement.Rows Failure α

def ask (s : Statement) : Handler s.Rows := Program.query s

/-- What the outside adds to an answer: the process clock, whether the lock was free, and
the answer of the agent. -/
structure Choice where
  clock : ℕ := 0
  acquired : Bool := true
  reply : DispatchResult := ⟨true, none⟩
  deriving DecidableEq, Repr

namespace Store

variable (s : Store)

def agent? (id : Uuid) : Option Agent := s.agents.get? id

/-- The join with `agents` and with the policy the agent's models come from. -/
def joined (w : Workflow) : Option DueRow :=
  (s.agent? w.agentId).map fun a =>
    { id := w.id, name := w.name, agentId := w.agentId, scheduleCron := w.scheduleCron
      prompt := w.prompt, createdBy := w.createdBy, agentSlug := a.agentId
      agentStatus := a.status, workToken := a.workToken, allowedModels := a.models }

def isDue (w : Workflow) : Bool := w.enabled && w.nextRunAt.any (· ≤ s.now)

/-- `AND created_by = $2`, for those who are no admins. -/
def visible (user : String) (admin : Bool) (w : Workflow) : Bool := admin || w.createdBy = user

/-- From now on the `next_run_at` of the workflows of `p` comes from this schedule. -/
def compute (p : Uuid → Bool) (schedule : Option String) : Store :=
  { s with computedFrom := fun id => if p id then schedule else s.computedFrom id }

def patchWorkflow (p : Workflow → Bool) (f : Workflow → Workflow)
    (hf : ∀ w, (f w).id = w.id) : Store :=
  { s with workflows := s.workflows.patch p (fun _ => f) 0 fun _ w => hf w }

end Store

def Workflow.apply (changes : Changes) (next : Option ℕ) (w : Workflow) : Workflow :=
  { w with
    name := changes.name.getD w.name, agentId := changes.agentId.getD w.agentId
    scheduleCron := changes.scheduleCron <|> w.scheduleCron
    prompt := changes.prompt.getD w.prompt, enabled := changes.enabled.getD w.enabled
    nextRunAt := next <|> w.nextRunAt }

def notNullViolation : Failure := .error "the row violates a constraint of its table"

def Statement.run (cron : Cron) (admits : ChatInsert → Bool) (s : Store) (c : Choice) :
    (st : Statement) → Except Failure (st.Rows × Store)
  | tryAdvisoryLock => .ok (c.acquired, s)
  | advisoryUnlock => .ok ((), s)
  | selectDue => .ok ((s.workflows.rows.filter s.isDue).filterMap s.joined, s)
  | selectUnscheduled =>
    .ok ((s.workflows.rows.filter fun w => w.enabled && w.nextRunAt.isNone).map
      fun w => (w.id, w.scheduleCron), s)
  | selectForRun id user admin =>
    .ok ((s.workflows.rows.filter fun w => w.id = id && Store.visible user admin w).filterMap
      s.joined, s)
  | selectByToken tokenHash =>
    .ok ((s.workflows.rows.filter fun w =>
      w.webhookTokenHash = some tokenHash && w.enabled).filterMap s.joined, s)
  | selectForUpdate id user admin =>
    .ok ((s.workflows.rows.filter fun w => w.id = id && Store.visible user admin w).map
      fun w => (w.enabled, w.scheduleCron, w.triggerType), s)
  | selectBinding channelId => .ok (s.bindings.filter fun b => b.channelId = channelId, s)
  | selectUserLink discordUserId =>
    .ok ((s.userLinks.filter fun l => l.1 = discordUserId).map Prod.snd, s)
  | agentExists agentId => .ok ((s.agent? agentId).isSome, s)
  | insertRun workflowId =>
    .ok (s.nextId, { s with
      runs := s.runs ++ [{ id := s.nextId, workflowId, status := "running" }]
      nextId := s.nextId + 1 })
  | insertFailedRun workflowId error =>
    .ok ((), { s with
      runs := s.runs ++ [{ id := s.nextId, workflowId, status := "error", error := some error }]
      nextId := s.nextId + 1 })
  | setRunThread runId threadId =>
    .ok ((), { s with
      runs := s.runs.map fun r => if r.id = runId then { r with threadId := some threadId } else r })
  | failRun runId error =>
    .ok ((), { s with
      runs := s.runs.map fun r =>
        if r.id = runId then { r with status := "error", error := some error } else r })
  | failRunningRun runId error =>
    .ok ((), { s with
      runs := s.runs.map fun r =>
        if r.id = runId ∧ r.status = "running" then { r with status := "error", error := some error }
        else r })
  | begin => .ok ((), { s with saved := some (s.chat, s.bindings) })
  | commit => .ok ((), { s with saved := none })
  | rollback =>
    .ok ((), match s.saved with
      | some (rows, bindings) => { s with chat := rows, bindings, saved := none }
      | none => s)
  | selectModels agentId =>
    .ok ((s.agent? agentId).elim [] (fun a => a.models), s)
  | chatRows inserts =>
    if inserts.all admits then
      .ok ((), { s with
        chat := s.chat ++ (inserts.filter fun i => !(s.chat.map ChatRow.row).contains i).map
          fun i => ⟨s.nextId, i⟩
        nextId := s.nextId + 1 })
    else .error notNullViolation
  | touchThread _ => .ok ((), s)
  | chat insert =>
    if admits insert then
      .ok (s.nextId, { s with chat := s.chat ++ [⟨s.nextId, insert⟩], nextId := s.nextId + 1 })
    else .error notNullViolation
  | bindThread channelId threadId =>
    .ok ((), { s with
      bindings := s.bindings.map fun b =>
        if b.channelId = channelId then { b with threadId := some threadId } else b })
  | dispatch _ work =>
    .ok (c.reply, if c.reply.accepted then { s with dispatched := s.dispatched ++ [work] } else s)
  | touchLastRun workflowId =>
    .ok ((), s.patchWorkflow (fun w => w.id = workflowId)
      (fun w => { w with lastRunAt := some s.now }) fun _ => rfl)
  | advance workflowId schedule ran =>
    .ok ((), (s.compute (· = workflowId) schedule).patchWorkflow (fun w => w.id = workflowId)
      (fun w => { w with
        nextRunAt := schedule.map fun expr => cron.next expr c.clock
        lastRunAt := if ran then some s.now else w.lastRunAt }) fun _ => rfl)
  | initNextRun workflowId schedule =>
    .ok ((), (s.compute (· = workflowId) (some schedule)).patchWorkflow
      (fun w => w.id = workflowId) (fun w => { w with nextRunAt := some (cron.next schedule c.clock) }) fun _ => rfl)
  | insertWorkflow row schedule =>
    match s.workflows.insert { row with
      id := s.nextId, nextRunAt := schedule.map fun expr => cron.next expr c.clock } with
    | some workflows =>
      .ok (s.nextId, { s.compute (· = s.nextId) schedule with workflows, nextId := s.nextId + 1 })
    | none => .error (.uniqueViolation "workflows_pkey")
  | updateWorkflow id user admin changes schedule =>
    let selects := fun w : Workflow => w.id = id && Store.visible user admin w
    .ok (s.workflows.count selects, (s.compute
      (fun i => schedule.isSome && s.workflows.rows.any fun w => w.id = i && selects w)
      schedule).patchWorkflow selects (Workflow.apply changes (schedule.map fun expr => cron.next expr c.clock)) fun _ => rfl)
  | deleteWorkflow id user admin =>
    let selects := fun w : Workflow => w.id = id && Store.visible user admin w
    .ok (s.workflows.count selects, { s with workflows := s.workflows.delete selects })

end Hill90.Workflows
