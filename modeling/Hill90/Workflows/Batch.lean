import Hill90.Foundation.Machine
import Hill90.Foundation.Play
import Hill90.Workflows.Scheduler

/-! # The batch of a tick

A tick plays against any pattern of answers, failures and lost answers.  Every due
workflow is executed all the same, and no workflow is dispatched twice for one due time:
as the schema is, since none is dispatched at all, and under a schema that takes the
messages, since each is given a later time before its next tick.
-/

namespace Hill90.Workflows

open Chat (Uuid Failure)
open Log (event_of_step handed_of_step handed_steady)
open Program (Always Ended always_query always_then always_ite always_tryCatch)

abbrev Trace := List (Event Statement Statement.Rows)

abbrev TickLog := Log Statement Statement.Rows Store

/-- `executeWorkflow` went through: past the row of the run to the new `next_run_at`, or,
for an agent that is not running, straight to it. -/
def Executed (wf : DueRow) (trace : Trace) : Prop :=
  if wf.agentStatus = "running" then
    Statement.insertRun wf.id ∈ trace.map Event.statement ∧
      (Event.failed (.insertRun wf.id) ∈ trace ∨ Event.lost (.insertRun wf.id) ∈ trace ∨
        ∃ next, Statement.advance wf.id next true ∈ trace.map Event.statement)
  else ∃ next, Statement.advance wf.id next false ∈ trace.map Event.statement

/-- The workflow whose work an agent has taken, or may have. -/
def dispatchOf : Event Statement Statement.Rows → Option Uuid
  | .answered (.dispatch id _) (result : DispatchResult) => if result.accepted then some id else none
  | .lost (.dispatch id _) => some id
  | _ => none

structure World where
  store : Store
  /-- The dispatches so far, each with the time its workflow was due. -/
  dispatches : List (Uuid × Option ℕ) := []

inductive Act where
  | tick (rest : Choice) (pattern : List (Outcome Choice Failure))
  /-- Whatever else happens to the tables between two ticks. -/
  | elsewhere (store : Store)

def dueTime (s : Store) (id : Uuid) : Option ℕ := (s.workflows.get? id).bind Workflow.nextRunAt

variable (cron : Cron) (admits : ChatInsert → Bool)

def playTick (s : Store) (rest : Choice) (pattern : List (Outcome Choice Failure)) : TickLog :=
  ((tick cron).play (Statement.run cron admits) rest ⟨[], s⟩ pattern).1

def World.step (W : World) : Act → Option World
  | .tick rest pattern =>
    let log := playTick cron admits W.store rest pattern
    some ⟨log.store, W.dispatches ++
      (log.trace.filterMap dispatchOf).map fun id => (id, dueTime W.store id)⟩
  | .elsewhere store => some { W with store }

variable {cron admits}

abbrev Ticking (cron : Cron) (admits : ChatInsert → Bool) :
    TickLog → (st : Statement) → Option st.Rows → TickLog → Prop :=
  Log.Step (Statement.run cron admits) (fun _ => True) True

variable {t t' : TickLog} {st : Statement} {answer : Option st.Rows}

theorem Executed.steady {wf : DueRow} (h : Ticking cron admits t st answer t')
    (hwf : Executed wf t.trace) : Executed wf t'.trace := by
  have hhanded : ∀ {s}, s ∈ t.trace.map Event.statement → s ∈ t'.trace.map Event.statement := handed_steady h
  obtain ⟨e, htrace, _, _⟩ := event_of_step h
  have hmem : ∀ e', e' ∈ t.trace → e' ∈ t'.trace := by
    intro e' he'
    rw [htrace]
    exact List.mem_append_left _ he'
  unfold Executed at hwf ⊢
  split
  · rw [if_pos ‹_›] at hwf
    obtain ⟨hbegun, hfailed | hlost | ⟨next, hnext⟩⟩ := hwf
    · exact ⟨hhanded hbegun, .inl (hmem _ hfailed)⟩
    · exact ⟨hhanded hbegun, .inr (.inl (hmem _ hlost))⟩
    · exact ⟨hhanded hbegun, .inr (.inr ⟨next, hhanded hnext⟩)⟩
  · rw [if_neg ‹_›] at hwf
    obtain ⟨next, hnext⟩ := hwf
    exact ⟨next, hhanded hnext⟩

section Contained

variable {R : TickLog → (st : Statement) → Option st.Rows → TickLog → Prop} {P : TickLog → Prop}
  {E : Failure → TickLog → Prop}

/-- What is caught leaves the invariant and never raises. -/
theorem quietly_always {p : Handler Unit} (hp : Program.Keeps R P p) (ht : P t) :
    Always R (quietly p) (fun _ => P) E t :=
  (always_tryCatch _ _).mpr ((hp t ht).mono (fun _ _ h => h) fun _ _ h => h)

theorem scheduleOf_always {id : Uuid} {schedule : Option String}
    (hP : ∀ id error, Program.Keeps R P (ask (.insertFailedRun id error))) (ht : P t) :
    Always R (scheduleOf cron id schedule) (fun _ => P) E t := by
  unfold scheduleOf
  split
  · exact ht
  · exact always_then (fun _ => P) (quietly_always (hP _ _) ht) fun _ _ h => h

end Contained

/-- The batch of a tick is this one. -/
def Selected (due : List DueRow) (t : TickLog) : Prop :=
  ∀ due', .answered .selectDue due' ∈ t.trace → due' = due

def Unselected (t : TickLog) : Prop := ∀ due, .answered .selectDue due ∉ t.trace

def Contained (t : TickLog) : Prop :=
  ∀ due, .answered .selectDue due ∈ t.trace → ∀ wf ∈ due, Executed wf t.trace

theorem Unselected.contained (h : Unselected t) : Contained t := fun due hdue => (h due hdue).elim

theorem selectDue_of_step (h : Ticking cron admits t st answer t') {due : List DueRow}
    (hdue : .answered .selectDue due ∈ t'.trace) :
    .answered .selectDue due ∈ t.trace ∨ (st = .selectDue ∧ answer.isSome) := by
  obtain ⟨e, htrace, rfl, hnone⟩ := event_of_step h
  rw [htrace, List.mem_append, List.mem_singleton] at hdue
  obtain hold | rfl := hdue
  · exact .inl hold
  · right
    constructor
    · rfl
    · cases answer with
      | none => obtain h | h := hnone rfl <;> cases h
      | some _ => rfl

theorem Unselected.steady (h : Unselected t) (hstep : Ticking cron admits t st answer t')
    (hst : st ≠ .selectDue ∨ answer = none) : Unselected t' := by
  intro due hdue
  obtain hold | ⟨hsel, hsome⟩ := selectDue_of_step hstep hdue
  · exact h due hold
  · obtain hne | rfl := hst
    · exact hne hsel
    · cases hsome

theorem Selected.steady {due : List DueRow} (h : Selected due t)
    (hstep : Ticking cron admits t st answer t') (hst : st ≠ .selectDue) : Selected due t' := by
  intro due' hdue
  obtain hold | ⟨hsel, _⟩ := selectDue_of_step hstep hdue
  · exact h due' hold
  · exact (hst hsel).elim

theorem Contained.steady (h : Contained t) (hstep : Ticking cron admits t st answer t')
    (hst : st ≠ .selectDue) : Contained t' := by
  intro due hdue wf hwf
  obtain hold | ⟨hsel, _⟩ := selectDue_of_step hstep hdue
  · exact (h due hold wf hwf).steady hstep
  · exact (hst hsel).elim

def Undispatched (t : TickLog) : Prop := ∀ e ∈ t.trace, dispatchOf e = none

theorem Undispatched.steady (h : Undispatched t) (hstep : Ticking cron admits t st answer t')
    (hst : ∀ id work, st ≠ .dispatch id work) : Undispatched t' := by
  obtain ⟨e, htrace, rfl, _⟩ := event_of_step hstep
  intro e' he'
  rw [htrace, List.mem_append, List.mem_singleton] at he'
  obtain hold | rfl := he'
  · exact h e' hold
  · unfold dispatchOf
    split
    · exact (hst _ _ rfl).elim
    · exact (hst _ _ rfl).elim
    · rfl

section Timely

/-- The steps of a tick whose process clock is not behind the clock of the database. -/
abbrev Timing (cron : Cron) (admits : ChatInsert → Bool) (now : ℕ) :
    TickLog → (st : Statement) → Option st.Rows → TickLog → Prop :=
  Log.Step (Statement.run cron admits) (fun c => now ≤ c.clock) True

def dispatched (t : TickLog) : List Uuid := t.trace.filterMap dispatchOf

def advanceFailed : Event Statement Statement.Rows → Bool
  | .failed (.advance ..) => true
  | _ => false

def Advanced (t : TickLog) : Prop := ∀ e ∈ t.trace, advanceFailed e = false

instance (t : TickLog) : Decidable (Advanced t) :=
  inferInstanceAs (Decidable (∀ e ∈ t.trace, advanceFailed e = false))

/-- Nothing but the UPDATE of a tick concerns the times the workflows are due. -/
def Statement.Ticks : Statement → Prop
  | initNextRun .. | insertWorkflow .. | updateWorkflow .. | deleteWorkflow .. => False
  | _ => True

def Later (now : ℕ) (s : Store) (id : Uuid) : Prop := ∀ d, dueTime s id = some d → now < d

/-- The workflow is in the batch of a tick from here. -/
def Due (s : Store) (id : Uuid) : Prop := ∃ d, dueTime s id = some d ∧ d ≤ s.now

variable {s s' : Store} {c : Choice} {id wid : Uuid}

theorem dueTime_patch (p : Workflow → Bool) {f : Workflow → Workflow} (hf : ∀ w, (f w).id = w.id) :
    dueTime (s.patchWorkflow p f hf) id =
      (s.workflows.get? id).bind fun w => if p w then (f w).nextRunAt else w.nextRunAt := by
  rw [dueTime, Store.patchWorkflow, Table.get?_patch_eq, Option.bind_map]
  congr 1
  funext w
  simp only [Function.comp_apply]
  split <;> rfl

theorem later_advance {next : Option String} {ran : Bool} {rows : Unit}
    (hnext : ∀ expr t, t < cron.next expr t) {now : ℕ} (hclock : now ≤ c.clock)
    (h : Statement.run cron admits s c (.advance id next ran) = .ok (rows, s')) :
    Later now s' id := by
  cases h
  intro d hd
  rw [dueTime_patch] at hd
  obtain ⟨w, hw, hd⟩ := Option.bind_eq_some_iff.mp hd
  rw [if_pos (decide_eq_true (Table.key_of_get? hw))] at hd
  obtain ⟨expr, -, rfl⟩ := Option.map_eq_some_iff.mp hd
  exact Nat.lt_of_le_of_lt hclock (hnext expr c.clock)

theorem dueTime_run {rows : st.Rows} (hst : st.Ticks)
    (h : Statement.run cron admits s c st = .ok (rows, s')) :
    s'.now = s.now ∧ ∀ id, (∀ next ran, st ≠ .advance id next ran) → dueTime s' id = dueTime s id := by
  cases st with
  | advance wid next ran =>
    cases h
    refine ⟨rfl, fun id hne => ?_⟩
    rw [dueTime_patch]
    refine Option.bind_congr fun w hw => if_neg fun hid => hne next ran ?_
    rw [← Table.key_of_get? hw, of_decide_eq_true hid]
  | touchLastRun wid =>
    cases h
    refine ⟨rfl, fun id _ => ?_⟩
    rw [dueTime_patch]
    exact Option.bind_congr fun w _ => ite_self _
  | initNextRun | insertWorkflow | updateWorkflow | deleteWorkflow => cases hst
  | chat | chatRows =>
    simp only [Statement.run] at h
    split at h
    · cases h
      exact ⟨rfl, fun _ _ => rfl⟩
    · cases h
  | dispatch =>
    cases h
    constructor
    · split <;> rfl
    · intro _ _
      split <;> rfl
  | rollback =>
    cases h
    constructor
    · split <;> rfl
    · intro _ _
      split <;> rfl
  | _ =>
    cases h
    exact ⟨rfl, fun _ _ => rfl⟩

/-- The workflows a tick that began with `s` has dispatched were due, each of them once, and but for
`open?` they are due later now unless an UPDATE has failed. -/
structure Timely (s : Store) (open? : Option Uuid) (t : TickLog) : Prop where
  now : t.store.now = s.now
  forward : ∀ id d, dueTime t.store id = some d → dueTime s id = some d ∨ Due s id ∧ s.now < d
  due : ∀ id ∈ dispatched t, Due s id
  once : (dispatched t).Nodup
  later : Advanced t → ∀ id ∈ dispatched t, open? ≠ some id → Later s.now t.store id

theorem advanced_of_step {now : ℕ} (h : Timing cron admits now t st answer t') (hadvanced : Advanced t') :
    Advanced t := by
  obtain ⟨e, htrace, -, -⟩ := event_of_step h
  intro e' hmem
  apply hadvanced e'
  rw [htrace]
  exact List.mem_append_left _ hmem

/-- The store is as it was, or the statement has taken effect. -/
theorem store_of_step {now : ℕ} (h : Timing cron admits now t st answer t') :
    (t'.store = t.store ∧ t'.trace = t.trace ++ [.failed st]) ∨
      ∃ c rows, now ≤ c.clock ∧ Statement.run cron admits t.store c st = .ok (rows, t'.store) := by
  cases h with
  | answered hmay heff => exact .inr ⟨_, _, hmay, heff⟩
  | refused => exact .inl ⟨rfl, rfl⟩
  | failed => exact .inl ⟨rfl, rfl⟩
  | lost hmay _ heff => exact .inr ⟨_, _, hmay, heff⟩

theorem dispatched_of_step {now : ℕ} (h : Timing cron admits now t st answer t') :
    dispatched t' = dispatched t ∨ ∃ id work, st = .dispatch id work ∧ dispatched t' = dispatched t ++ [id] := by
  obtain ⟨e, htrace, rfl, -⟩ := event_of_step h
  unfold dispatched
  rw [htrace, List.filterMap_append]
  cases he : dispatchOf e with
  | none => exact .inl (by simp [he])
  | some id =>
    right
    unfold dispatchOf at he
    split at he
    · split at he
      · cases he
        exact ⟨_, _, rfl, by simp [dispatchOf, *]⟩
      · cases he
    · cases he
      exact ⟨_, _, rfl, by simp [dispatchOf]⟩
    · cases he

/-- A statement that neither dispatches nor moves a due time. -/
def Statement.Idle : Statement → Prop
  | dispatch .. | advance .. => False
  | st => st.Ticks

section Steps

variable {open? : Option Uuid}

theorem Timely.idle (h : Timely s open? t) (hst : st.Idle)
    (hstep : Timing cron admits s.now t st answer t') : Timely s open? t' ∧ dispatched t' = dispatched t := by
  have hsame : dispatched t' = dispatched t := by
    obtain hsame | ⟨id, work, rfl, -⟩ := dispatched_of_step hstep
    · exact hsame
    · exact hst.elim
  have hstore : t'.store.now = t.store.now ∧ ∀ id, dueTime t'.store id = dueTime t.store id := by
    obtain ⟨heq, -⟩ | ⟨c, rows, -, hrun⟩ := store_of_step hstep
    · rw [heq]
      exact ⟨rfl, fun _ => rfl⟩
    · have hticks : st.Ticks := by
        cases st <;> first | exact hst | trivial
      refine ⟨(dueTime_run hticks hrun).1, fun id => (dueTime_run hticks hrun).2 id ?_⟩
      rintro next ran rfl
      exact hst
  refine ⟨⟨hstore.1.trans h.now, fun id d hd => ?_, ?_, ?_, fun hadvanced id hid hne d hd => ?_⟩, hsame⟩
  · rw [hstore.2] at hd
    exact h.forward id d hd
  · rw [hsame]
    exact h.due
  · rw [hsame]
    exact h.once
  · rw [hsame] at hid
    rw [hstore.2] at hd
    exact h.later (advanced_of_step hstep hadvanced) id hid hne d hd

/-- A workflow that has not been dispatched yet is dispatched, and has to be advanced from then on. -/
theorem Timely.dispatch (h : Timely s none t) {work : Work} (hdue : Due s wid)
    (hfresh : wid ∉ dispatched t) {answer : Option DispatchResult}
    (hstep : Timing cron admits s.now t (.dispatch wid work) answer t') : Timely s (some wid) t' := by
  have hstore : t'.store.now = t.store.now ∧ ∀ id, dueTime t'.store id = dueTime t.store id := by
    obtain ⟨heq, -⟩ | ⟨c, rows, -, hrun⟩ := store_of_step hstep
    · rw [heq]
      exact ⟨rfl, fun _ => rfl⟩
    · have hsame := dueTime_run (show (Statement.dispatch wid work).Ticks from trivial) hrun
      exact ⟨hsame.1, fun id => hsame.2 id (by simp)⟩
  have hmem : ∀ id ∈ dispatched t', id ∈ dispatched t ∨ id = wid := by
    intro id hid
    obtain hsame | ⟨_, _, heq, happ⟩ := dispatched_of_step hstep
    · rw [hsame] at hid
      exact .inl hid
    · cases heq
      rw [happ, List.mem_append, List.mem_singleton] at hid
      exact hid
  refine ⟨hstore.1.trans h.now, fun id d hd => ?_, fun id hid => ?_, ?_, fun hadvanced id hid hne d hd => ?_⟩
  · rw [hstore.2] at hd
    exact h.forward id d hd
  · obtain hid | rfl := hmem id hid
    · exact h.due id hid
    · exact hdue
  · obtain hsame | ⟨_, _, heq, happ⟩ := dispatched_of_step hstep
    · rw [hsame]
      exact h.once
    · cases heq
      rw [happ]
      exact h.once.append (List.nodup_singleton _) (by simpa using hfresh)
  · rw [hstore.2] at hd
    obtain hid | rfl := hmem id hid
    · exact h.later (advanced_of_step hstep hadvanced) id hid (by simp) d hd
    · exact (hne rfl).elim

/-- The workflow is advanced, or its UPDATE has failed. -/
theorem Timely.advance (hnext : ∀ expr t, t < cron.next expr t) (h : Timely s open? t)
    (hdue : Due s wid) (hopen : open? = none ∨ open? = some wid) {next : Option String} {ran : Bool}
    {answer : Option Unit} (hstep : Timing cron admits s.now t (.advance wid next ran) answer t') :
    Timely s none t' ∧ dispatched t' = dispatched t := by
  have hsame : dispatched t' = dispatched t := by
    obtain hsame | ⟨id, work, heq, -⟩ := dispatched_of_step hstep
    · exact hsame
    · cases heq
  have hticks : (Statement.advance wid next ran).Ticks := trivial
  have hother : ∀ id, id ≠ wid → ∀ next' ran', Statement.advance wid next ran ≠ .advance id next' ran' := by
    rintro id hne next' ran' heq
    exact hne (Statement.advance.inj heq).1.symm
  refine ⟨⟨?_, ?_, by rw [hsame]; exact h.due, by rw [hsame]; exact h.once, ?_⟩, hsame⟩
  · obtain ⟨heq, -⟩ | ⟨c, rows, -, hrun⟩ := store_of_step hstep
    · rw [heq]
      exact h.now
    · exact (dueTime_run hticks hrun).1.trans h.now
  · intro id d hd
    obtain ⟨heq, -⟩ | ⟨c, rows, hclock, hrun⟩ := store_of_step hstep
    · rw [heq] at hd
      exact h.forward id d hd
    · by_cases hid : id = wid
      · subst hid
        exact .inr ⟨hdue, later_advance hnext hclock hrun d hd⟩
      · rw [(dueTime_run hticks hrun).2 id (hother id hid)] at hd
        exact h.forward id d hd
  · intro hadvanced id hid _ d hd
    rw [hsame] at hid
    obtain ⟨-, htrace⟩ | ⟨c, rows, hclock, hrun⟩ := store_of_step hstep
    · have hfailed : advanceFailed (.failed (.advance wid next ran)) = false := by
        apply hadvanced
        rw [htrace]
        exact List.mem_append_right _ (List.mem_singleton_self _)
      cases hfailed
    · by_cases hne : id = wid
      · subst hne
        exact later_advance hnext hclock hrun d hd
      · rw [(dueTime_run hticks hrun).2 id (hother id hne)] at hd
        refine h.later (advanced_of_step hstep hadvanced) id hid ?_ d hd
        obtain rfl | rfl := hopen
        · simp
        · exact fun heq => hne (Option.some.inj heq).symm

end Steps

section Batch

variable {before : List Uuid} {wf : DueRow}

/-- Before the work of the workflow may have gone out. -/
def Unsent (s : Store) (before : List Uuid) (t : TickLog) : Prop := Timely s none t ∧ dispatched t = before

def Sent (s : Store) (before : List Uuid) (id : Uuid) (t : TickLog) : Prop :=
  Timely s (some id) t ∧ dispatched t ⊆ before ++ [id]

def Settled (s : Store) (before : List Uuid) (id : Uuid) (t : TickLog) : Prop :=
  Timely s none t ∧ dispatched t ⊆ before ++ [id]

theorem Timely.weaken (h : Timely s none t) : Timely s (some id) t :=
  { h with later := fun hadvanced id' hid' _ => h.later hadvanced id' hid' (by simp) }

theorem Unsent.settled (h : Unsent s before t) : Settled s before id t := by
  obtain ⟨htimely, rfl⟩ := h
  exact ⟨htimely, List.subset_append_left _ _⟩

theorem Settled.sent (h : Settled s before id t) : Sent s before id t := ⟨h.1.weaken, h.2⟩

theorem Unsent.idle (h : Unsent s before t) (hst : st.Idle)
    (hstep : Timing cron admits s.now t st answer t') : Unsent s before t' := by
  obtain ⟨htimely, hsame⟩ := h.1.idle hst hstep
  exact ⟨htimely, hsame.trans h.2⟩

theorem Sent.idle (h : Sent s before id t) (hst : st.Idle)
    (hstep : Timing cron admits s.now t st answer t') : Sent s before id t' := by
  obtain ⟨htimely, hsame⟩ := h.1.idle hst hstep
  exact ⟨htimely, hsame ▸ h.2⟩

theorem Settled.idle (h : Settled s before id t) (hst : st.Idle)
    (hstep : Timing cron admits s.now t st answer t') : Settled s before id t' := by
  obtain ⟨htimely, hsame⟩ := h.1.idle hst hstep
  exact ⟨htimely, hsame ▸ h.2⟩

theorem Sent.advance (hnext : ∀ expr t, t < cron.next expr t) (h : Sent s before id t) (hdue : Due s id)
    {next : Option String} {ran : Bool} {answer : Option Unit}
    (hstep : Timing cron admits s.now t (.advance id next ran) answer t') : Settled s before id t' := by
  obtain ⟨htimely, hsame⟩ := h.1.advance hnext hdue (.inr rfl) hstep
  exact ⟨htimely, hsame ▸ h.2⟩

/-- A statement that is no dispatch and no UPDATE, between the two. -/
theorem sent_ask (st : Statement) (hst : st.Idle) :
    Program.Keeps (Timing cron admits s.now) (Sent s before id) (ask st) :=
  Program.keeps_query fun _ _ _ h hstep => h.idle hst hstep

theorem runWorkflow_sent (hdue : Due s wf.id) (hfresh : wf.id ∉ before) (runId : Uuid)
    (ht : Unsent s before t) :
    Always (Timing cron admits s.now) (runWorkflow wf runId) (fun _ => Sent s before wf.id)
      (fun _ => Sent s before wf.id) t := by
  have hchat : ∀ insert t, Unsent s before t →
      Always (Timing cron admits s.now) (ask (.chat insert)) (fun _ => Unsent s before)
        (fun _ => Sent s before wf.id) t := fun insert t ht =>
    have hidle : (Statement.chat insert).Idle := trivial
    always_query _ (fun _ _ hstep => ht.idle hidle hstep)
      fun _ _ hstep => (ht.idle hidle hstep).settled.sent
  unfold runWorkflow
  apply always_then _ (hchat _ t ht)
  intro threadId t ht
  apply always_then _ (hchat _ t ht)
  intro _ t ht
  apply always_then _ (hchat _ t ht)
  intro _ t ht
  apply always_then _ (hchat _ t ht)
  intro messageId t ht
  have hdispatch : ∀ {work answer t'}, Timing cron admits s.now t (.dispatch wf.id work) answer t' →
      Sent s before wf.id t' := by
    intro work answer t' hstep
    obtain ⟨htimely, rfl⟩ := ht
    refine ⟨htimely.dispatch hdue hfresh hstep, ?_⟩
    obtain hsame | ⟨_, _, heq, happ⟩ := dispatched_of_step hstep
    · rw [hsame]
      exact List.subset_append_left _ _
    · cases heq
      rw [happ]
      exact List.Subset.refl _
  apply always_then fun _ => Sent s before wf.id
  · exact always_query _ (fun _ _ hstep => hdispatch hstep) fun _ _ hstep => hdispatch hstep
  intro result t ht
  apply Program.keeps_bind (sent_ask (.setRunThread _ _) trivial) _ t ht
  intro _
  exact Program.keeps_ite (fun _ => Program.keeps_throw _) fun _ => Program.keeps_pure _

theorem executeContained_settled (hnext : ∀ expr t, t < cron.next expr t) (hdue : Due s wf.id)
    (hfresh : wf.id ∉ before) (ht : Unsent s before t) {E : Failure → TickLog → Prop} :
    Always (Timing cron admits s.now) (executeContained cron wf) (fun _ => Settled s before wf.id) E t := by
  have hrecord : ∀ error, Program.Keeps (Timing cron admits s.now) (Settled s before wf.id)
      (ask (.insertFailedRun wf.id error)) := fun error =>
    have hidle : (Statement.insertFailedRun wf.id error).Idle := trivial
    Program.keeps_query fun _ _ _ h hstep => h.idle hidle hstep
  have hadvance : ∀ next ran t, Sent s before wf.id t →
      Always (Timing cron admits s.now) (ask (.advance wf.id next ran))
        (fun _ => Settled s before wf.id) (fun _ => Settled s before wf.id) t := fun next ran t ht =>
    always_query _ (fun _ _ hstep => ht.advance hnext hdue hstep) fun _ _ hstep => ht.advance hnext hdue hstep
  have hschedule : ∀ t, Sent s before wf.id t →
      Always (Timing cron admits s.now) (scheduleOf cron wf.id wf.scheduleCron)
        (fun _ => Sent s before wf.id) (fun _ => Settled s before wf.id) t := fun t ht =>
    scheduleOf_always (fun id error => sent_ask (.insertFailedRun id error) trivial) ht
  have hbody : Always (Timing cron admits s.now) (executeWorkflow cron wf)
      (fun _ => Settled s before wf.id) (fun _ => Settled s before wf.id) t := by
    unfold executeWorkflow
    apply always_ite <;> intro _
    · exact always_then _ (hschedule t ht.settled.sent) fun next => hadvance next false
    · apply always_then fun _ => Unsent s before
      · have hidle : (Statement.insertRun wf.id).Idle := trivial
        exact always_query _ (fun _ _ hstep => ht.idle hidle hstep)
          fun _ _ hstep => (ht.idle hidle hstep).settled
      intro runId t ht
      apply always_then fun _ => Sent s before wf.id
      · refine (always_tryCatch _ _).mpr ((runWorkflow_sent hdue hfresh runId ht).mono (fun _ _ h => h) ?_)
        exact fun e t ht => quietly_always (sent_ask (.failRun _ _) trivial) ht
      intro _ t ht
      exact always_then _ (hschedule t ht) fun next => hadvance next true
  exact (always_tryCatch _ _).mpr (hbody.mono (fun _ _ h => h) fun _ _ ht =>
    quietly_always (hrecord _) ht)

theorem due_of_selected {due : List DueRow}
    (h : due = (s.workflows.rows.filter s.isDue).filterMap s.joined) :
    (due.map DueRow.id).Nodup ∧ ∀ wf ∈ due, Due s wf.id := by
  subst h
  constructor
  · have hsub : (((s.workflows.rows.filter s.isDue).filterMap s.joined).map DueRow.id).Sublist
        (s.workflows.rows.map Workflow.id) := by
      induction s.workflows.rows with
      | nil => exact .slnil
      | cons w rows ih =>
        rw [List.filter_cons]
        split
        · rw [List.filterMap_cons]
          cases hjoined : s.joined w with
          | none => exact ih.cons _
          | some wf =>
            obtain ⟨a, -, rfl⟩ := Option.map_eq_some_iff.mp hjoined
            exact ih.cons_cons _
        · exact ih.cons _
    exact s.workflows.keys.sublist hsub
  · intro wf hwf
    obtain ⟨w, hw, hjoined⟩ := List.mem_filterMap.mp hwf
    obtain ⟨hw, hdue⟩ := List.mem_filter.mp hw
    obtain ⟨a, -, rfl⟩ := Option.map_eq_some_iff.mp hjoined
    obtain ⟨-, hat⟩ := Bool.and_eq_true_iff.mp hdue
    cases hd : w.nextRunAt with
    | none =>
      rw [hd] at hat
      cases hat
    | some d =>
      rw [hd] at hat
      refine ⟨d, ?_, of_decide_eq_true hat⟩
      rw [dueTime, Table.mem_iff_get?.mp hw]
      exact hd

/-- Nothing has been dispatched, and nothing has happened to the store. -/
def Untouched (s : Store) (t : TickLog) : Prop := t.store = s ∧ dispatched t = []

theorem Untouched.timely (h : Untouched s t) : Timely s none t where
  now := by rw [h.1]
  forward id d hd := .inl (h.1 ▸ hd)
  due := by simp [h.2]
  once := by simp [h.2]
  later := by simp [h.2]

theorem Untouched.steady (h : Untouched s t) (hst : ∀ id work, st ≠ .dispatch id work)
    (hrun : ∀ c rows s', Statement.run cron admits s c st = .ok (rows, s') → s' = s)
    (hstep : Timing cron admits s.now t st answer t') : Untouched s t' := by
  obtain ⟨hstore, hnone⟩ := h
  constructor
  · obtain ⟨hsame, -⟩ | ⟨c, rows, -, heff⟩ := store_of_step hstep
    · exact hsame.trans hstore
    · rw [hstore] at heff
      exact hrun c rows _ heff
  · obtain hsame | ⟨id, work, heq, -⟩ := dispatched_of_step hstep
    · exact hsame.trans hnone
    · exact (hst id work heq).elim

theorem executeDue_timely (hnext : ∀ expr t, t < cron.next expr t) (ht : Untouched s t) :
    Always (Timing cron admits s.now) (executeDue cron) (fun _ => Timely s none)
      (fun _ => Timely s none) t := by
  have hselect : ∀ c due s', Statement.run cron admits s c .selectDue = .ok (due, s') →
      due = (s.workflows.rows.filter s.isDue).filterMap s.joined ∧ s' = s := by
    intro c due s' hrun
    cases hrun
    exact ⟨rfl, rfl⟩
  have hkeep : ∀ {answer t'}, Timing cron admits s.now t .selectDue answer t' → Untouched s t' :=
    fun hstep => ht.steady (by simp) (fun c rows s' hrun => (hselect c rows s' hrun).2) hstep
  unfold executeDue
  apply always_then fun due t => Untouched s t ∧ due = (s.workflows.rows.filter s.isDue).filterMap s.joined
  · apply always_query
    · intro due t' hstep
      refine ⟨hkeep hstep, ?_⟩
      cases hstep with
      | answered _ heff =>
        rw [ht.1] at heff
        exact (hselect _ _ _ heff).1
    · exact fun _ _ hstep => (hkeep hstep).timely
  rintro due t ⟨ht, hdue⟩
  obtain ⟨hnodup, hall⟩ := due_of_selected hdue
  have hloop : Always (Timing cron admits s.now) (due.forM (executeContained cron))
      (fun _ t => Timely s none t ∧ dispatched t ⊆ due.map DueRow.id) (fun _ => Timely s none) t := by
    apply Program.always_forM (I := fun done t => Timely s none t ∧ dispatched t ⊆ done.map DueRow.id)
    · exact ⟨ht.timely, by simp [ht.2]⟩
    intro done wf rest hsplit t ⟨htimely, hsub⟩
    have hfresh : wf.id ∉ dispatched t := by
      intro hmem
      rw [hsplit, List.map_append, List.map_cons] at hnodup
      exact List.disjoint_of_nodup_append hnodup (hsub hmem) (List.mem_cons_self ..)
    apply (executeContained_settled hnext (hall wf (by simp [hsplit])) hfresh ⟨htimely, rfl⟩).mono
    · rintro _ t' ⟨htimely', hsub'⟩
      refine ⟨htimely', fun id hid => ?_⟩
      obtain hold | hnew := List.mem_append.mp (hsub' hid)
      · exact List.map_subset _ (List.subset_append_left _ _) (hsub hold)
      · rw [List.mem_singleton.mp hnew]
        exact List.mem_map_of_mem (by simp)
    · exact fun _ _ h => h
  exact hloop.mono (fun _ _ h => h.1) fun _ _ h => h

theorem tick_timely (hnext : ∀ expr t, t < cron.next expr t) (ht : Untouched s t) :
    Always (Timing cron admits s.now) (tick cron) (fun _ => Timely s none) (fun _ => Timely s none) t := by
  have hunlock : Program.Keeps (Timing cron admits s.now) (Timely s none) (ask .advisoryUnlock) :=
    have hidle : Statement.advisoryUnlock.Idle := trivial
    Program.keeps_query fun _ _ _ h hstep => (h.idle hidle hstep).1
  have hbody : Always (Timing cron admits s.now) (do
      let acquired ← ask .tryAdvisoryLock
      if acquired then withFinally (executeDue cron) (ask .advisoryUnlock))
      (fun _ => Timely s none) (fun _ => Timely s none) t := by
    apply always_then fun _ => Untouched s
    · have hkeep : ∀ {answer t'}, Timing cron admits s.now t .tryAdvisoryLock answer t' → Untouched s t' :=
        fun hstep => ht.steady (by simp) (fun c rows s' hrun => by cases hrun; rfl) hstep
      exact always_query _ (fun _ _ hstep => hkeep hstep) fun _ _ hstep => (hkeep hstep).timely
    intro acquired t ht
    apply always_ite <;> intro _
    · apply always_then fun _ => Timely s none
      · apply (always_tryCatch _ _).mpr
        apply (executeDue_timely hnext ht).mono
        · exact fun _ _ h => h
        · exact fun e t h => Program.keeps_bind hunlock (fun _ => Program.keeps_throw e) t h
      · exact fun a t => Program.keeps_bind hunlock (fun _ => Program.keeps_pure a) t
    · exact ht.timely
  exact (always_tryCatch _ _).mpr (hbody.mono (fun _ _ h => h) fun _ _ h => h)

end Batch

end Timely

section Punctual

/-- A tick finds no UPDATE of `next_run_at` failing, nor its own clock behind the database's; and
nobody else sets a workflow back to a time that it was already dispatched for. -/
def Punctual (cron : Cron) (admits : ChatInsert → Bool) (W : World) : Act → Prop
  | .tick rest pattern =>
    W.store.now ≤ rest.clock ∧ (∀ o ∈ pattern, o.Allowed (fun c => W.store.now ≤ c.clock) True) ∧
      Advanced (playTick cron admits W.store rest pattern)
  | .elsewhere store => ∀ id d d', (id, some d) ∈ W.dispatches → dueTime store id = some d' → d < d'

/-- Each workflow was dispatched once for each time, and is due later than for any of them. -/
structure World.Ahead (W : World) : Prop where
  once : W.dispatches.Nodup
  due : ∀ id at?, (id, at?) ∈ W.dispatches → at? ≠ none
  later : ∀ id d d', (id, some d) ∈ W.dispatches → dueTime W.store id = some d' → d < d'

theorem playTick_timely (hnext : ∀ expr t, t < cron.next expr t) {s : Store} {rest : Choice}
    {pattern : List (Outcome Choice Failure)} (hrest : s.now ≤ rest.clock)
    (hpattern : ∀ o ∈ pattern, o.Allowed (fun c => s.now ≤ c.clock) True) :
    Timely s none (playTick cron admits s rest pattern) := by
  have hnew : Untouched s ⟨[], s⟩ := ⟨rfl, rfl⟩
  have halways : Always (Timing cron admits s.now) (tick cron) (fun _ => Timely s none)
      (fun _ => Timely s none) ⟨[], s⟩ := tick_timely hnext hnew
  have hended := halways.play (Statement.run cron admits) rest hrest pattern hpattern
  unfold playTick
  generalize (tick cron).play (Statement.run cron admits) rest ⟨[], s⟩ pattern = ended at hended
  obtain ⟨t, _ | _⟩ := ended <;> exact hended

theorem World.Ahead.step (hnext : ∀ expr t, t < cron.next expr t) {W W' : World} {a : Act} (h : W.Ahead)
    (hok : Punctual cron admits W a) (hstep : W.step cron admits a = some W') : W'.Ahead := by
  cases a with
  | elsewhere store =>
    cases hstep
    exact ⟨h.once, h.due, hok⟩
  | tick rest pattern =>
    cases hstep
    obtain ⟨hrest, hpattern, hadvanced⟩ := hok
    have htimely : Timely W.store none (playTick cron admits W.store rest pattern) :=
      playTick_timely hnext hrest hpattern
    generalize playTick cron admits W.store rest pattern = t at htimely hadvanced
    have hnew : ∀ entry, entry ∈ (dispatched t).map (fun id => (id, dueTime W.store id)) →
        entry.1 ∈ dispatched t ∧ ∃ d, entry.2 = some d ∧ dueTime W.store entry.1 = some d ∧ d ≤ W.store.now := by
      intro entry hentry
      obtain ⟨id, hid, rfl⟩ := List.mem_map.mp hentry
      obtain ⟨d, hd, hle⟩ := htimely.due id hid
      exact ⟨hid, d, hd, hd, hle⟩
    refine ⟨?_, fun id at? hmem => ?_, fun id d d' hmem hd' => ?_⟩
    · refine h.once.append (htimely.once.map fun _ _ heq => (Prod.mk.inj heq).1) ?_
      rintro ⟨id, at?⟩ hold hentry
      obtain ⟨-, d, rfl, hd, -⟩ := hnew _ hentry
      exact lt_irrefl d (h.later id d d hold hd)
    · obtain hold | hentry := List.mem_append.mp hmem
      · exact h.due id at? hold
      · obtain ⟨-, d, rfl, -⟩ := hnew _ hentry
        simp
    · obtain hold | hentry := List.mem_append.mp hmem
      · obtain hsame | ⟨⟨d₀, hd₀, hle⟩, hlt⟩ := htimely.forward id d' hd'
        · exact h.later id d d' hold hsame
        · exact (h.later id d d₀ hold hd₀).trans (Nat.lt_of_le_of_lt hle hlt)
      · obtain ⟨hid, d₁, heq, -, hle⟩ := hnew _ hentry
        cases heq
        exact Nat.lt_of_le_of_lt hle (htimely.later hadvanced id hid (by simp) d' hd')

end Punctual

/-- Two workflows that are due, the agent of one of them stopped. -/
def sampleStore : Store where
  agents := ⟨[{ id := 1, agentId := "scout", createdBy := 0, status := "running" },
    { id := 2, agentId := "clerk", createdBy := 0, status := "stopped" }], by decide⟩
  workflows := ⟨[{ id := 3, name := "report", agentId := 1, scheduleCron := some "* * * * *"
                   prompt := "report", createdBy := "ada", nextRunAt := some 5 },
    { id := 4, name := "digest", agentId := 2, scheduleCron := some "* * * * *"
      prompt := "digest", createdBy := "ada", nextRunAt := some 5 }], by decide⟩
  nextId := 5
  now := 7

def sampleCron : Cron := ⟨(· = "* * * * *"), fun _ => "unreadable", fun _ t => t + 60⟩

end Hill90.Workflows
