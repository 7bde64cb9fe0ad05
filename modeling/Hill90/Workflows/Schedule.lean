import Hill90.Foundation.Interleaving
import Hill90.Workflows.Routes

/-! # The stored schedule and the next run

Ticks, the sweep at boot and the routes interleave at their statements.  As long as no
statement writes a `next_run_at` or a schedule behind the other's back, every `next_run_at`
comes from the stored schedule, and the scheduler never takes up a webhook workflow.
-/

namespace Hill90.Workflows

open Chat (Uuid Agent Failure)
open Program (Meets Only meets_ask meets_then)

def Workflow.stored (cron : Cron) (w : Workflow) : Option String :=
  w.scheduleCron.filter (isValidCronExpression cron)

structure Scheduled (cron : Cron) (s : Store) (w : Workflow) : Prop where
  follows : w.isWebhook = false → ∀ e ∈ w.stored cron,
    s.computedFrom w.id = some e ∧ ∃ clock, w.nextRunAt = some (cron.next e clock)
  webhook : w.isWebhook = true → w.nextRunAt = none

structure Store.Kept (cron : Cron) (s : Store) : Prop where
  issued : ∀ w ∈ s.workflows.rows, w.id < s.nextId
  scheduled : ∀ w ∈ s.workflows.rows, Scheduled cron s w

structure Change where
  agents : Table Agent.id
  now : ℕ

def workflowService (cron : Cron) :
    Service Statement Statement.Rows Failure Request Response Store Choice Change where
  fresh s := s.Kept cron
  handler := handle cron
  run := Statement.run cron chatSchema
  environment s x := some { s with agents := x.agents, now := x.now }

/-- A statement that writes a schedule, or a next run, when it takes effect: the stored
schedule is still the one its next run was computed from, and the sweep at boot meets no
webhook. -/
def Fits (cron : Cron) (s : Store) : Statement → Prop
  | .advance id schedule _ => ∀ w ∈ s.workflows.rows, w.id = id → schedule = w.stored cron
  | .initNextRun id schedule =>
    ∀ w ∈ s.workflows.rows, w.id = id → w.isWebhook = false ∧ w.scheduleCron = some schedule
  | .updateWorkflow id user admin changes schedule =>
    ∀ w ∈ s.workflows.rows, w.id = id → Store.visible user admin w = true → w.isWebhook = false →
      (changes.scheduleCron <|> w.scheduleCron) = (schedule <|> w.scheduleCron)
  | _ => True

abbrev WorkflowSystem := System Statement Statement.Rows Failure Request Response Store

def InStep (cron : Cron) (S : WorkflowSystem) (a : Move Failure Request Choice Change) : Prop :=
  ∀ st c, S.taking a = some (st, c) → Fits cron S.store st

def Store.NoWebhook (s : Store) (id : Uuid) : Prop :=
  id < s.nextId ∧ ∀ w ∈ s.workflows.rows, w.id = id → w.isWebhook = false

/-- A handler knows some workflows to be no webhooks, from the rows it has read. -/
def schedules : Discipline Statement Statement.Rows Failure (List Uuid) where
  may known
    | .insertRun id | .dispatch id _ | .advance id _ _ => id ∈ known
    | .insertWorkflow row schedule => schedule = if row.isWebhook then none else row.scheduleCron
    | .updateWorkflow id _ _ _ schedule => schedule.isSome = true → id ∈ known
    | _ => True
  returns _ _ := True
  returned known st rows :=
    match st, rows with
    | .selectDue, (rows : List DueRow) => rows.map DueRow.id ++ known
    | .selectForUpdate id _ _, (rows : List (Bool × Option String × String)) =>
      if rows.any fun row => row.2.2 ≠ "webhook" then id :: known else known
    | _, _ => known
  rejected known _ _ := known

def Plain (st : Statement) : Prop :=
  ∀ known, schedules.may known st ∧ ∀ rows, schedules.returned known st rows = known

variable {cron : Cron} {known : List Uuid}

theorem Only.meets_plain {α : Type} {p : Handler α} {Q : α → List Uuid → Prop}
    (h : Only Plain p) (hQ : ∀ a, Q a known) : Meets schedules p Q (fun _ _ => True) known :=
  h.meets (fun _ hst => ⟨(hst known).1, (hst known).2, fun _ => rfl⟩) hQ fun _ => trivial

theorem meets_executeContained {wf : DueRow} (h : wf.id ∈ known) :
    Meets schedules (executeContained cron wf) (fun _ m => m = known) (fun _ m => m = known)
      known := by
  have hmay : ∀ st, Concerns wf.id st → schedules.may known st ∧
      (∀ rows, schedules.returned known st rows = known) ∧
      ∀ e, schedules.rejected known st e = known := by
    intro st hst
    cases st <;> first
      | exact hst.elim
      | exact ⟨trivial, fun _ => rfl, fun _ => rfl⟩
      | exact ⟨(show _ = wf.id from hst) ▸ h, fun _ => rfl, fun _ => rfl⟩
  exact (only_executeContained wf).meets hmay (fun _ => rfl) fun _ => rfl

/-- The workflows of the batch are those of the rows that were due. -/
theorem meets_executeDue :
    Meets schedules (executeDue cron) (fun _ _ => True) (fun _ _ => True) known := by
  apply meets_ask
  · trivial
  · intro due _
    change Meets schedules (due.forM (executeContained cron)) _ _ (due.map DueRow.id ++ known)
    have hloop : Meets schedules (due.forM (executeContained cron))
        (fun _ m => m = due.map DueRow.id ++ known) (fun _ _ => True) (due.map DueRow.id ++ known) := by
      apply Program.meets_forM (I := fun m => m = due.map DueRow.id ++ known) rfl
      rintro wf hwf m rfl
      have hid : wf.id ∈ due.map DueRow.id ++ known :=
        List.mem_append_left _ (List.mem_map_of_mem hwf)
      exact (meets_executeContained hid).mono (fun _ _ h => h) fun _ _ _ => trivial
    exact hloop.mono (fun _ _ _ => trivial) fun _ _ _ => trivial
  · exact fun _ => trivial

theorem meets_tick : Meets schedules (tick cron) (fun _ _ => True) (fun _ _ => True) known := by
  have hunlock : ∀ {known}, Meets schedules (ask .advisoryUnlock) (fun _ _ => True)
      (fun _ _ => True) known := ⟨trivial, fun _ _ => trivial, fun _ => trivial⟩
  apply (Program.meets_tryCatch _ _).mpr
  have hbody : Meets schedules (do
      let acquired ← ask .tryAdvisoryLock
      if acquired then withFinally (executeDue cron) (ask .advisoryUnlock))
      (fun _ _ => True) (fun _ _ => True) known := by
    apply meets_ask trivial _ fun _ => trivial
    intro acquired _
    apply Program.meets_ite <;> intro _
    · apply meets_then fun _ _ => True
      · apply (Program.meets_tryCatch _ _).mpr
        apply meets_executeDue.mono (fun _ _ h => h)
        exact fun e m _ => meets_then (fun _ _ => True) hunlock fun _ _ _ => trivial
      · exact fun _ m _ => meets_then (fun _ _ => True) hunlock fun _ _ _ => trivial
    · trivial
  exact hbody.mono (fun _ _ h => h) fun _ _ _ => trivial

theorem plain_selectUnscheduled : Plain .selectUnscheduled := fun _ => ⟨trivial, fun _ => rfl⟩

theorem plain_initNextRun (id : Uuid) (schedule : String) : Plain (.initNextRun id schedule) :=
  fun _ => ⟨trivial, fun _ => rfl⟩

theorem plain_insertFailedRun (id : Uuid) (error : String) : Plain (.insertFailedRun id error) :=
  fun _ => ⟨trivial, fun _ => rfl⟩

theorem plain_initializeNextRuns : Only Plain (initializeNextRuns cron) := by
  apply Program.only_tryCatch _ fun _ => Program.only_pure _
  apply Program.only_bind (Program.only_query plain_selectUnscheduled)
  intro rows
  apply Program.only_forM
  intro row _
  unfold initializeOne
  split
  · exact Program.only_pure _
  · exact Program.only_query (plain_initNextRun _ _)
  · exact Program.only_tryCatch (Program.only_query (plain_insertFailedRun _ _))
      fun _ => Program.only_pure _

theorem parseSchedule_eq_some {e : String} {parsed : Option String}
    (h : parseSchedule cron (some e) = .ok parsed) (he : e.isEmpty = false) : parsed = some e := by
  simp only [parseSchedule, he, Bool.false_eq_true, if_false] at h
  split at h <;> cases h
  rfl

theorem meets_orFailed {error : String} {p : Handler Response}
    (h : Meets schedules p (fun _ _ => True) (fun _ _ => True) known) :
    Meets schedules (orFailed error p) (fun _ _ => True) (fun _ _ => True) known :=
  (Program.meets_tryCatch _ _).mpr (h.mono (fun _ _ h => h) fun _ _ _ => trivial)

theorem meets_createWorkflow {user tokenHash : String} {body : NewWorkflow} :
    Meets schedules (createWorkflow cron user tokenHash body) (fun _ _ => True) (fun _ _ => True)
      known := by
  apply meets_orFailed
  split
  · rename_i agentId schedule _ _
    split
    · trivial
    · rename_i hnonempty
      split
      · trivial
      · split
        · trivial
        · apply Program.meets_ite <;> intro _
          · trivial
          · apply meets_ask trivial _ fun _ => trivial
            intro known? _
            apply Program.meets_ite <;> intro _
            · trivial
            · apply meets_then fun next _ =>
                next = if body.trigger = "webhook" then none else some schedule
              · apply Program.meets_ite <;> intro htrigger
                · rw [Program.meets_pure, if_pos htrigger]
                · unfold computeNextRun
                  split
                  · rename_i parsed hparsed
                    rw [Program.meets_pure, if_neg htrigger]
                    exact parseSchedule_eq_some hparsed (by simpa using hnonempty)
                  · trivial
              · rintro _ m rfl
                apply meets_ask
                · by_cases htrigger : body.trigger = "webhook" <;>
                    simp [schedules, Workflow.isWebhook, NewWorkflow.row, htrigger]
                · exact fun _ _ => trivial
                · exact fun _ => trivial
  · trivial

theorem meets_updateWorkflow {id : Uuid} {user : String} {admin : Bool} {changes : Changes} :
    Meets schedules (updateWorkflow cron id user admin changes) (fun _ _ => True)
      (fun _ _ => True) known := by
  apply meets_orFailed
  split
  · trivial
  split
  · trivial
  apply Program.meets_ite <;> intro _
  · trivial
  apply meets_then fun _ _ => True
  · unfold agentKnown
    split
    · exact ⟨trivial, fun _ _ => trivial, fun _ => trivial⟩
    · trivial
  intro found m _
  apply Program.meets_ite <;> intro _
  · trivial
  apply meets_ask trivial _ fun _ => trivial
  rintro (_ | ⟨⟨enabled, stored, triggerType⟩, rest⟩) _
  · trivial
  · apply meets_then fun schedule m' =>
      schedule.isSome = true → id ∈ m'
    · unfold rescheduled
      apply Program.meets_ite <;> intro hwhen
      · have hid : id ∈ schedules.returned m (.selectForUpdate id user admin)
            ((enabled, stored, triggerType) :: rest) := by
          simp [schedules, hwhen.1]
        unfold computeNextRun
        split
        · exact fun _ => hid
        · trivial
      · simp
    · intro schedule m' hknown
      apply meets_ask hknown _ fun _ => trivial
      intro count _
      apply Program.meets_ite <;> intro _ <;> trivial

theorem meets_handle (request : Request) :
    Meets schedules (handle cron request) (fun _ _ => True) (fun _ _ => True) [] := by
  cases request with
  | boot =>
    exact meets_then (fun _ _ => True) (Only.meets_plain plain_initializeNextRuns fun _ => trivial)
      fun _ _ _ => trivial
  | tick => exact meets_then (fun _ _ => True) meets_tick fun _ _ _ => trivial
  | create user tokenHash body => exact meets_createWorkflow
  | update id user admin changes => exact meets_updateWorkflow
  | delete id user admin =>
    apply meets_orFailed
    apply meets_ask trivial _ fun _ => trivial
    intro count _
    apply Program.meets_ite <;> intro _ <;> trivial

section Effect

variable {s s' : Store} {st : Statement} {c : Choice} {rows : st.Rows}

/-- The statements that leave the workflows alone. -/
def Statement.Foreign : Statement → Prop
  | .touchLastRun _ | .advance .. | .initNextRun .. | .insertWorkflow .. | .updateWorkflow .. |
    .deleteWorkflow .. => False
  | _ => True

theorem foreign_of_run (h : st.run cron chatSchema s c = .ok (rows, s')) (hst : st.Foreign) :
    s'.workflows = s.workflows ∧ s'.computedFrom = s.computedFrom ∧ s.nextId ≤ s'.nextId := by
  cases st with
  | chat insert =>
    simp only [Statement.run] at h
    split at h <;> cases h
    exact ⟨rfl, rfl, Nat.le_succ _⟩
  | chatRows inserts =>
    simp only [Statement.run] at h
    split at h <;> cases h
    exact ⟨rfl, rfl, Nat.le_succ _⟩
  | dispatch id work =>
    simp only [Statement.run] at h
    cases h
    split <;> exact ⟨rfl, rfl, Nat.le_refl _⟩
  | rollback =>
    simp only [Statement.run] at h
    cases h
    split <;> exact ⟨rfl, rfl, Nat.le_refl _⟩
  | touchLastRun | advance | initNextRun | insertWorkflow | updateWorkflow | deleteWorkflow =>
    exact hst.elim
  | insertRun | insertFailedRun =>
    cases h
    exact ⟨rfl, rfl, Nat.le_succ _⟩
  | _ =>
    cases h
    exact ⟨rfl, rfl, Nat.le_refl _⟩

theorem mem_patchWorkflow {p : Workflow → Bool} {f : Workflow → Workflow}
    {hf : ∀ w, (f w).id = w.id} {w' : Workflow}
    (h : w' ∈ (s.patchWorkflow p f hf).workflows.rows) :
    ∃ w ∈ s.workflows.rows, (p w = false ∧ w' = w) ∨ (p w = true ∧ w' = f w) := by
  have hmem : w' ∈ (s.workflows.patch p (fun _ => f) 0 fun _ => hf).rows := h
  obtain ⟨w, hw, hsame | ⟨hp, _, _, _, heq⟩⟩ := Table.mem_patch hmem
  · exact ⟨w, hw, .inl hsame⟩
  · exact ⟨w, hw, .inr ⟨hp, heq⟩⟩

/-- Where the rows come from: the trigger of a workflow never changes, and a new one has the
next id. -/
def Descends (s s' : Store) : Prop :=
  s.nextId ≤ s'.nextId ∧ ∀ w' ∈ s'.workflows.rows,
    (∃ w ∈ s.workflows.rows, w'.id = w.id ∧ w'.isWebhook = w.isWebhook) ∨
      (w'.id = s.nextId ∧ s.nextId < s'.nextId)

theorem descends_of_patch {s₁ : Store} {p : Workflow → Bool} {f : Workflow → Workflow}
    {hf : ∀ w, (f w).id = w.id} (hrows : s₁.workflows = s.workflows) (hnext : s₁.nextId = s.nextId)
    (htrigger : ∀ w, (f w).isWebhook = w.isWebhook) : Descends s (s₁.patchWorkflow p f hf) := by
  refine ⟨Nat.le_of_eq hnext.symm, fun w' hw' => ?_⟩
  obtain ⟨w, hw, ⟨_, rfl⟩ | ⟨_, rfl⟩⟩ := mem_patchWorkflow hw'
  · exact .inl ⟨w', hrows ▸ hw, rfl, rfl⟩
  · exact .inl ⟨w, hrows ▸ hw, hf w, htrigger w⟩

theorem descends_of_run (h : st.run cron chatSchema s c = .ok (rows, s')) : Descends s s' := by
  have hforeign : st.Foreign → Descends s s' := fun hst => by
    obtain ⟨hrows, _, hnext⟩ := foreign_of_run h hst
    refine ⟨hnext, fun w' hw' => .inl ⟨w', ?_, rfl, rfl⟩⟩
    rwa [← hrows]
  cases st with
  | touchLastRun id | advance id schedule ran | initNextRun id schedule
  | updateWorkflow id user admin changes schedule =>
    cases h
    exact descends_of_patch rfl rfl fun _ => rfl
  | deleteWorkflow id user admin =>
    cases h
    exact ⟨Nat.le_refl _, fun w hw => .inl ⟨w, (Table.mem_delete.mp hw).1, rfl, rfl⟩⟩
  | insertWorkflow row schedule =>
    simp only [Statement.run] at h
    split at h <;> cases h
    rename_i workflows hinsert
    refine ⟨Nat.le_succ _, fun w' hw' => ?_⟩
    obtain hold | hnew := (Table.mem_of_insert hinsert).mp hw'
    · exact .inl ⟨w', hold, rfl, rfl⟩
    · subst hnew
      exact .inr ⟨rfl, Nat.lt_succ_self _⟩
  | _ => exact hforeign trivial

theorem Store.NoWebhook.run {id : Uuid} (hid : s.NoWebhook id)
    (h : st.run cron chatSchema s c = .ok (rows, s')) : s'.NoWebhook id := by
  obtain ⟨hlt, hnone⟩ := hid
  obtain ⟨hnext, hrows⟩ := descends_of_run h
  refine ⟨Nat.lt_of_lt_of_le hlt hnext, fun w' hw' hw'id => ?_⟩
  obtain ⟨w, hw, heq, htrigger⟩ | ⟨heq, _⟩ := hrows w' hw'
  · rw [htrigger]
    exact hnone w hw (heq ▸ hw'id)
  · exact absurd (heq.symm.trans hw'id) (Nat.ne_of_gt hlt)

theorem Scheduled.of_eq {w w' : Workflow} (h : Scheduled cron s w) (hid : w'.id = w.id)
    (htrigger : w'.isWebhook = w.isWebhook) (hcron : w'.scheduleCron = w.scheduleCron)
    (hnext : w'.nextRunAt = w.nextRunAt) (hfrom : s'.computedFrom w.id = s.computedFrom w.id) :
    Scheduled cron s' w' := by
  constructor
  · intro hw' e he
    rw [hid, hfrom, hnext]
    rw [Workflow.stored, hcron] at he
    exact h.follows (htrigger ▸ hw') e he
  · intro hw'
    rw [hnext]
    exact h.webhook (htrigger ▸ hw')

/-- A next run that has just been computed from the schedule that is stored. -/
theorem scheduled_of_computed {w : Workflow} (schedule : Option String) (clock : ℕ)
    (hw : w.isWebhook = false) (hfrom : s.computedFrom w.id = schedule)
    (hstored : ∀ e ∈ w.stored cron, schedule = some e)
    (hnext : w.nextRunAt = schedule.map fun e => cron.next e clock) : Scheduled cron s w := by
  constructor
  · intro _ e he
    have hschedule : schedule = some e := hstored e he
    subst hschedule
    exact ⟨hfrom, clock, hnext⟩
  · intro hwebhook
    rw [hw] at hwebhook
    cases hwebhook

theorem mem_of_stored {w : Workflow} {e : String} (h : e ∈ w.stored cron) :
    w.scheduleCron = some e := (Option.filter_eq_some_iff.mp h).1

theorem Store.Kept.issued_run (hs : s.Kept cron) (h : st.run cron chatSchema s c = .ok (rows, s')) :
    ∀ w ∈ s'.workflows.rows, w.id < s'.nextId := by
  obtain ⟨hnext, hrows⟩ := descends_of_run h
  intro w' hw'
  obtain ⟨w, hw, hid, _⟩ | ⟨hid, hlt⟩ := hrows w' hw'
  · rw [hid]
    exact Nat.lt_of_lt_of_le (hs.issued w hw) hnext
  · rw [hid]
    exact hlt

theorem Store.Kept.advance (hs : s.Kept cron) {id : Uuid} {schedule : Option String} {ran : Bool}
    (hfits : Fits cron s (.advance id schedule ran)) (hid : s.NoWebhook id)
    (h : (Statement.advance id schedule ran).run cron chatSchema s c = .ok ((), s')) :
    ∀ w ∈ s'.workflows.rows, Scheduled cron s' w := by
  cases h
  intro w' hw'
  obtain ⟨w, hw, ⟨hp, rfl⟩ | ⟨hp, rfl⟩⟩ := mem_patchWorkflow hw'
  · apply (hs.scheduled w' hw).of_eq rfl rfl rfl rfl
    simp_all [Store.compute, Store.patchWorkflow]
  · have hwid : w.id = id := of_decide_eq_true hp
    apply scheduled_of_computed schedule c.clock
    · exact hid.2 w hw hwid
    · simp [Store.compute, Store.patchWorkflow, hwid]
    · exact fun e he => (hfits w hw hwid).trans he
    · rfl

theorem Store.Kept.initNextRun (hs : s.Kept cron) {id : Uuid} {schedule : String}
    (hfits : Fits cron s (.initNextRun id schedule))
    (h : (Statement.initNextRun id schedule).run cron chatSchema s c = .ok ((), s')) :
    ∀ w ∈ s'.workflows.rows, Scheduled cron s' w := by
  cases h
  intro w' hw'
  obtain ⟨w, hw, ⟨hp, rfl⟩ | ⟨hp, rfl⟩⟩ := mem_patchWorkflow hw'
  · apply (hs.scheduled w' hw).of_eq rfl rfl rfl rfl
    simp_all [Store.compute, Store.patchWorkflow]
  · have hwid : w.id = id := of_decide_eq_true hp
    obtain ⟨htrigger, hstored⟩ := hfits w hw hwid
    apply scheduled_of_computed (some schedule) c.clock
    · exact htrigger
    · simp [Store.compute, Store.patchWorkflow, hwid]
    · exact fun e he => hstored.symm.trans (mem_of_stored he)
    · rfl

theorem Store.Kept.insertWorkflow (hs : s.Kept cron) {row : Workflow} {schedule : Option String}
    (hschedule : schedule = if row.isWebhook then none else row.scheduleCron) {id : Uuid}
    (h : (Statement.insertWorkflow row schedule).run cron chatSchema s c = .ok (id, s')) :
    ∀ w ∈ s'.workflows.rows, Scheduled cron s' w := by
  simp only [Statement.run] at h
  split at h <;> cases h
  rename_i workflows hinsert
  intro w' hw'
  obtain hold | rfl := (Table.mem_of_insert hinsert).mp hw'
  · have hlt := hs.issued w' hold
    apply (hs.scheduled w' hold).of_eq rfl rfl rfl rfl
    simp [Store.compute, Nat.ne_of_lt hlt]
  · cases htrigger : row.isWebhook with
    | true =>
      rw [htrigger] at hschedule
      subst hschedule
      constructor
      · intro hw'
        cases htrigger.symm.trans hw'
      · exact fun _ => rfl
    | false =>
      rw [htrigger] at hschedule
      subst hschedule
      apply scheduled_of_computed row.scheduleCron c.clock
      · exact htrigger
      · simp [Store.compute]
      · exact fun e he => mem_of_stored he
      · rfl

theorem Store.Kept.updateWorkflow (hs : s.Kept cron) {id : Uuid} {user : String} {admin : Bool}
    {changes : Changes} {schedule : Option String}
    (hfits : Fits cron s (.updateWorkflow id user admin changes schedule))
    (hknown : schedule.isSome = true → s.NoWebhook id) {count : ℕ}
    (h : (Statement.updateWorkflow id user admin changes schedule).run cron chatSchema s c =
      .ok (count, s')) : ∀ w ∈ s'.workflows.rows, Scheduled cron s' w := by
  cases h
  intro w' hw'
  obtain ⟨w, hw, ⟨hp, rfl⟩ | ⟨hp, rfl⟩⟩ := mem_patchWorkflow hw'
  · apply (hs.scheduled w' hw).of_eq rfl rfl rfl rfl
    have hnone : (s.workflows.rows.any fun w => w.id = w'.id &&
        (w.id = id && Store.visible user admin w)) = false := by
      rw [List.any_eq_false]
      intro w₁ hw₁ hboth
      simp only [Bool.and_eq_true, decide_eq_true_eq] at hboth
      have hsame : w₁ = w' := s.workflows.eq_of_key_eq hw₁ hw hboth.1
      subst hsame
      simp [hboth.2.1, hboth.2.2] at hp
    simp only [Store.patchWorkflow, Store.compute]
    rw [if_neg]
    simp [hnone]
  · simp only [Bool.and_eq_true, decide_eq_true_eq] at hp
    obtain ⟨hwid, hvisible⟩ := hp
    cases htrigger : w.isWebhook with
    | true =>
      cases schedule with
      | none =>
        constructor
        · intro hw'
          cases htrigger.symm.trans hw'
        · exact fun _ => (hs.scheduled w hw).webhook htrigger
      | some e => cases ((hknown rfl).2 w hw hwid).symm.trans htrigger
    | false =>
      have hcron := hfits w hw hwid hvisible htrigger
      cases schedule with
      | none =>
        refine (hs.scheduled w hw).of_eq rfl rfl hcron rfl ?_
        simp [Store.patchWorkflow, Store.compute]
      | some e =>
        apply scheduled_of_computed (some e) c.clock
        · exact htrigger
        · have hany : (s.workflows.rows.any fun w₁ => w₁.id = w.id &&
              (w₁.id = id && Store.visible user admin w₁)) = true :=
            List.any_eq_true.mpr ⟨w, hw, by simp [hwid, hvisible]⟩
          simp only [Store.patchWorkflow, Store.compute, Workflow.apply]
          rw [if_pos]
          simpa using hany
        · intro e' he'
          have hstored := mem_of_stored he'
          exact hcron.symm.trans hstored
        · rfl

theorem Store.Kept.run (hs : s.Kept cron) (hfits : Fits cron s st) (hmay : schedules.may known st)
    (hknown : ∀ id ∈ known, s.NoWebhook id) (h : st.run cron chatSchema s c = .ok (rows, s')) :
    s'.Kept cron := by
  refine ⟨hs.issued_run h, ?_⟩
  cases st with
  | advance id schedule ran => exact hs.advance hfits (hknown id hmay) h
  | initNextRun id schedule => exact hs.initNextRun hfits h
  | insertWorkflow row schedule => exact hs.insertWorkflow hmay h
  | updateWorkflow id user admin changes schedule =>
    exact hs.updateWorkflow hfits (fun hsome => hknown id (hmay hsome)) h
  | deleteWorkflow id user admin =>
    cases h
    intro w hw
    exact (hs.scheduled w (Table.mem_delete.mp hw).1).of_eq rfl rfl rfl rfl rfl
  | touchLastRun id =>
    cases h
    intro w' hw'
    obtain ⟨w, hw, ⟨_, rfl⟩ | ⟨_, rfl⟩⟩ := mem_patchWorkflow hw'
    · exact (hs.scheduled w' hw).of_eq rfl rfl rfl rfl rfl
    · exact (hs.scheduled w hw).of_eq rfl rfl rfl rfl rfl
  | _ =>
    obtain ⟨hrows, hfrom, _⟩ := foreign_of_run h trivial
    intro w hw
    rw [hrows] at hw
    exact (hs.scheduled w hw).of_eq rfl rfl rfl rfl (by rw [hfrom])

/-- The due rows are rows with a next run, so no webhook is among them. -/
theorem Store.Kept.due (hs : s.Kept cron) {row : DueRow}
    (h : row ∈ (s.workflows.rows.filter s.isDue).filterMap s.joined) : s.NoWebhook row.id := by
  obtain ⟨w, hw, hjoined⟩ := List.mem_filterMap.mp h
  obtain ⟨hw, hdue⟩ := List.mem_filter.mp hw
  obtain ⟨a, _, rfl⟩ := Option.map_eq_some_iff.mp hjoined
  refine ⟨hs.issued w hw, fun w' hw' hid => ?_⟩
  have hsame : w' = w := s.workflows.eq_of_key_eq hw' hw hid
  subst hsame
  cases htrigger : w'.isWebhook with
  | false => rfl
  | true =>
    rw [Store.isDue, (hs.scheduled w' hw).webhook htrigger] at hdue
    simp at hdue

end Effect

theorem knows_of_run {s s' : Store} {st : Statement} {c : Choice} {rows : st.Rows}
    (hs : s.Kept cron) (hknown : ∀ id ∈ known, s.NoWebhook id)
    (h : st.run cron chatSchema s c = .ok (rows, s')) :
    ∀ id ∈ schedules.returned known st rows, s'.NoWebhook id := by
  have hold : ∀ id ∈ known, s'.NoWebhook id := fun id hid => (hknown id hid).run h
  cases st with
  | selectDue =>
    cases h
    intro id hid
    obtain hdue | hid := List.mem_append.mp hid
    · obtain ⟨row, hrow, rfl⟩ := List.mem_map.mp hdue
      exact hs.due hrow
    · exact hknown id hid
  | selectForUpdate id user admin =>
    cases h
    intro id' hid'
    simp only [schedules] at hid'
    split at hid'
    · rename_i hany
      obtain rfl | hid' := List.mem_cons.mp hid'
      · obtain ⟨row, hrow, htrigger⟩ := List.any_eq_true.mp hany
        obtain ⟨w, hw, rfl⟩ := List.mem_map.mp hrow
        obtain ⟨hw, hp⟩ := List.mem_filter.mp hw
        simp only [Bool.and_eq_true, decide_eq_true_eq] at hp
        refine ⟨hp.1 ▸ hs.issued w hw, fun w' hw' hid => ?_⟩
        have hsame : w' = w := s.workflows.eq_of_key_eq hw' hw (hid.trans hp.1.symm)
        subst hsame
        simpa [Workflow.isWebhook] using htrigger
      · exact hknown id' hid'
    · exact hknown id' hid'
  | _ => exact hold

theorem guards_schedules (cron : Cron) :
    (workflowService cron).Guards schedules (InStep cron) (fun _ => []) (fun _ _ _ => True)
      (fun _ _ => True) (Store.Kept cron) fun s known => ∀ id ∈ known, s.NoWebhook id where
  handler := meets_handle
  fresh _ h := h
  arrive _ _ _ := by simp
  fail _ _ _ _ _ h := h
  effect S a st c rows s' known _ hok htaking hmay hs hknown h :=
    ⟨hs.run (hok st c htaking) hmay hknown h, fun _ _ _ _ _ _ hn id hid => (hn id hid).run h,
      trivial, knows_of_run hs hknown h⟩
  around s x s' hs h := by
    cases h
    exact ⟨⟨hs.issued, fun w hw => (hs.scheduled w hw).of_eq rfl rfl rfl rfl rfl⟩, fun _ hn => hn⟩

/-- A statement by which the scheduler takes a workflow up. -/
def Statement.executes : Statement → Option Uuid
  | .insertRun id | .dispatch id _ => some id
  | _ => none

/-- In every run whose statements are in step, every `next_run_at` follows the stored
schedule, and no workflow that is about to be executed is a webhook. -/
theorem next_run_follows_schedule (cron : Cron) {S : WorkflowSystem}
    (h : (workflowService cron).machine.ReachableIf (InStep cron) S) :
    (∀ w ∈ S.store.workflows.rows, Scheduled cron S.store w) ∧
      ∀ i q st k r, S.requests i = some (q, .await st k r) → ∀ id ∈ st.executes,
        ∀ w ∈ S.store.workflows.rows, w.id = id → w.isWebhook = false := by
  have hS := (guards_schedules cron).reachable h
  refine ⟨hS.1.scheduled, fun i q st k r hwait id hid => ?_⟩
  obtain ⟨known, hknown, hmay⟩ := hS.waiting hwait
  cases st with
  | insertRun | dispatch =>
    cases hid
    exact (hknown _ hmay).2
  | _ => cases hid

instance (cron : Cron) (s : Store) : (st : Statement) → Decidable (Fits cron s st)
  | .advance id schedule _ =>
    inferInstanceAs (Decidable (∀ w ∈ s.workflows.rows, w.id = id → schedule = w.stored cron))
  | .initNextRun id schedule =>
    inferInstanceAs (Decidable (∀ w ∈ s.workflows.rows, w.id = id →
      w.isWebhook = false ∧ w.scheduleCron = some schedule))
  | .updateWorkflow id user admin changes schedule =>
    inferInstanceAs (Decidable (∀ w ∈ s.workflows.rows, w.id = id →
      Store.visible user admin w = true → w.isWebhook = false →
        (changes.scheduleCron <|> w.scheduleCron) = (schedule <|> w.scheduleCron)))
  | .tryAdvisoryLock | .advisoryUnlock | .selectDue | .selectUnscheduled | .selectForRun ..
  | .selectByToken _ | .selectForUpdate .. | .selectBinding _ | .selectUserLink _
  | .agentExists _ | .insertRun _ | .insertFailedRun .. | .setRunThread .. | .failRun ..
  | .failRunningRun .. | .begin | .commit | .rollback | .selectModels _ | .chat _ | .chatRows _
  | .touchThread _ | .bindThread .. | .dispatch .. | .touchLastRun _ | .insertWorkflow ..
  | .deleteWorkflow .. => inferInstanceAs (Decidable True)

def inStep (cron : Cron) (S : WorkflowSystem) (a : Move Failure Request Choice Change) : Bool :=
  match S.taking a with
  | some (st, _) => Fits cron S.store st
  | none => true

theorem inStep_spec {S : WorkflowSystem} {a : Move Failure Request Choice Change}
    (h : inStep cron S a = true) : InStep cron S a := by
  intro st c htaking
  rw [inStep, htaking] at h
  exact of_decide_eq_true h

def sampleAgents : Store where
  agents := ⟨[{ id := 1, agentId := "scout", createdBy := 0, status := "running" }], by decide⟩
  nextId := 2

def sampleSystem : WorkflowSystem := ⟨sampleAgents, fun _ => none, 0⟩

/-- Two schedules, with different next runs. -/
def twoSchedules : Cron where
  valid e := e = "0 * * * *" || e = "* * * * *"
  error _ := "unreadable"
  next e t := if e = "* * * * *" then t + 60 else t + 3600

/-- A workflow is created, given another schedule and taken up by a tick. -/
def inOrder : List (Move Failure Request Choice Change) :=
  [.arrive (.create "ada" "" ⟨"report", some 1, some "0 * * * *", "report", none, none⟩),
    .resume 0 {}, .resume 0 {},
    .arrive (.update 2 "ada" false { scheduleCron := some "* * * * *" }), .resume 1 {}, .resume 1 {},
    .environment ⟨sampleAgents.agents, 60⟩, .arrive .tick] ++
    List.replicate 9 (.resume 2 { clock := 60 })

theorem next_run_follows_schedule_sample :
    let S := (workflowService twoSchedules).machine.after sampleSystem inOrder
    (∀ w ∈ S.store.workflows.rows, Scheduled twoSchedules S.store w) ∧
      ∀ i q st k r, S.requests i = some (q, .await st k r) → ∀ id ∈ st.executes,
        ∀ w ∈ S.store.workflows.rows, w.id = id → w.isWebhook = false :=
  next_run_follows_schedule twoSchedules
    ⟨sampleSystem, inOrder, ⟨⟨by simp [sampleSystem, sampleAgents, Table.empty],
      by simp [sampleSystem, sampleAgents, Table.empty]⟩, rfl, rfl⟩,
      Machine.runIf_of_accepts (I := fun _ => True) (fun _ _ _ h => inStep_spec h)
        (fun _ _ _ _ _ _ => trivial) trivial (by decide +kernel)⟩

/-- A webhook is created, a PUT stores a schedule on it, and the next boot sweeps it. -/
def sweepWebhook : List (Move Failure Request Choice Change) :=
  [.arrive (.create "ada" "hash" ⟨"hook", some 1, some "0 * * * *", "report", none, some "webhook"⟩),
    .resume 0 {}, .resume 0 {},
    .arrive (.update 2 "ada" false { scheduleCron := some "* * * * *" }), .resume 1 {}, .resume 1 {},
    .arrive .boot, .resume 2 {}, .resume 2 {}]

theorem sweep_schedules_webhook :
    ∃ S, (workflowService twoSchedules).machine.Reachable S ∧ S.Idle ∧
      ∃ w ∈ S.store.workflows.rows, w.isWebhook = true ∧ w.nextRunAt ≠ none := by
  have hreach : (workflowService twoSchedules).machine.Reachable
      ((workflowService twoSchedules).machine.after sampleSystem sweepWebhook) :=
    ⟨sampleSystem, sweepWebhook, ⟨⟨by simp [sampleSystem, sampleAgents, Table.empty],
      by simp [sampleSystem, sampleAgents, Table.empty]⟩, rfl, rfl⟩,
      Machine.run_after (by decide +kernel)⟩
  exact ⟨_, hreach, Service.idle_of_ended hreach (by decide +kernel), by decide +kernel⟩

end Hill90.Workflows
