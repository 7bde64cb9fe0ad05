import Hill90.Workflows.Batch
import Hill90.Workflows.Entry

/-! # What the other writers leave behind

Each of the four writers hands the chat tables a row that their constraints refuse, and
none of them leaves an open agent message that has been dispatched.
-/

namespace Hill90.Workflows

open Chat (Uuid Failure)
open Log (handed_of_step handed_steady)
open Program (Always always_query always_then always_tryCatch)

inductive Writer where
  | scheduler (wf : DueRow)
  | run (id : Uuid) (user : String) (admin : Bool)
  | webhook (tokenHash : String) (payload : Option String)
  | discord (channelId : String) (discordUserId : Option String) (content : String)
  deriving DecidableEq

def unanswered (p : Handler Response) : Handler Unit := do
  let _ ← p
  pure ()

def Writer.program (cron : Cron) : Writer → Handler Unit
  | .scheduler wf => executeWorkflow cron wf
  | .run id user admin => unanswered (runNow id user admin)
  | .webhook tokenHash payload => unanswered (Workflows.webhook tokenHash payload)
  | .discord channelId discordUserId content =>
    unanswered (relayMessage channelId discordUserId content)

namespace Store

variable (s : Store)

def due : List DueRow := (s.workflows.rows.filter s.isDue).filterMap s.joined

def forRun (id : Uuid) (user : String) (admin : Bool) : List DueRow :=
  (s.workflows.rows.filter fun w => w.id = id && visible user admin w).filterMap s.joined

def byToken (tokenHash : String) : List DueRow :=
  (s.workflows.rows.filter fun w =>
    w.webhookTokenHash = some tokenHash && w.enabled).filterMap s.joined

def boundTo (channelId : String) : List Binding := s.bindings.filter fun b => b.channelId = channelId

end Store

def Runs (rows : List DueRow) : Prop := ∃ wf ∈ rows.head?, wf.agentStatus = "running"

def Writer.Ready (s : Store) : Writer → Prop
  | .scheduler wf => wf ∈ s.due ∧ wf.agentStatus = "running"
  | .run id user admin => Runs (s.forRun id user admin)
  | .webhook tokenHash _ => Runs (s.byToken tokenHash)
  | .discord channelId _ content =>
    channelId.isEmpty = false ∧ content.isEmpty = false ∧
      ∃ b ∈ (s.boundTo channelId).head?, ∃ a, s.agent? b.agentId = some a ∧ a.status = "running"

def Statement.admissible : Statement → Bool
  | .chat insert => chatSchema insert
  | .chatRows inserts => inserts.all chatSchema
  | _ => true

/-- The row the chat callback will finish: an agent's message that is open. -/
def ChatInsert.isOpenReply : ChatInsert → Bool
  | .message _ _ authorType _ _ status => authorType = "agent" && status ∈ ["pending", "thinking"]
  | _ => false

/-- Only statements that satisfy the schema, and at the end an open agent message that
was dispatched exactly once under its id. -/
structure WellFormed (s : Store) (log : TickLog) : Prop where
  admissible : ∀ st ∈ log.trace.map Event.statement, st.admissible = true
  dispatched : ∃ m ∈ log.store.chat, m ∉ s.chat ∧ m.row.isOpenReply = true ∧
    (log.store.dispatched.filter fun work => work.messageId = m.id).length = 1

/-- The writer with the database and the agent up: every statement is answered. -/
def Writer.play (w : Writer) (cron : Cron) (s : Store) (up : Choice) : TickLog :=
  ((w.program cron).play (Statement.run cron chatSchema) up ⟨[], s⟩ []).1

abbrev Answering (cron : Cron) :
    TickLog → (st : Statement) → Option st.Rows → TickLog → Prop :=
  Log.Step (Statement.run cron chatSchema) (fun _ => True) False

def Offends (t : TickLog) : Prop := ∃ st ∈ t.trace.map Event.statement, st.admissible = false

variable {cron : Cron} {t t' : TickLog} {E : Failure → TickLog → Prop}

theorem offends_of_step {st : Statement} {answer : Option st.Rows}
    (h : Answering cron t st answer t') (hst : st.admissible = false) : Offends t' :=
  ⟨st, handed_of_step h, hst⟩

theorem Offends.keeps {α : Type} (p : Handler α) : Program.Keeps (Answering cron) Offends p :=
  Program.keeps_of_steady (fun _ _ _ _ ⟨st, hst, hbad⟩ hstep => ⟨st, handed_steady hstep hst, hbad⟩) p

/-- A statement that is never refused is answered. -/
theorem answered_always {st : Statement} {Q : st.Rows → TickLog → Prop}
    (hrun : ∀ s c e, st.run cron chatSchema s c ≠ .error e)
    (hQ : ∀ rows t', Answering cron t st (some rows) t' → Q rows t') :
    Always (Answering cron) (ask st) Q E t := by
  apply always_query st hQ
  intro e t' hstep
  cases hstep with
  | refused _ heff => exact (hrun _ _ _ heff).elim
  | failed hfails => exact hfails.elim
  | lost _ hfails _ => exact hfails.elim

theorem offends_ask {st : Statement} (hst : st.admissible = false) :
    Always (Answering cron) (ask st) (fun _ => Offends) (fun _ => Offends) t :=
  always_query st (fun _ _ hstep => offends_of_step hstep hst) fun _ _ hstep => offends_of_step hstep hst

theorem offends_quietly {p : Handler Unit} (h : Offends t) :
    Always (Answering cron) (quietly p) (fun _ => Offends) E t :=
  (always_tryCatch _ _).mpr ((Offends.keeps p t h).mono (fun _ _ h => h) fun _ _ h => h)

/-- The message names no role. -/
theorem offends_runWorkflow (wf : DueRow) (runId : Uuid) :
    Always (Answering cron) (runWorkflow wf runId) (fun _ => Offends) (fun _ => Offends) t := by
  unfold runWorkflow
  apply always_then (fun _ _ => True) (answered_always (by simp [Statement.run, chatSchema]) (by simp))
  intro threadId _ _
  apply always_then (fun _ _ => True) (answered_always (by simp [Statement.run, chatSchema]) (by simp))
  intro _ _ _
  apply always_then (fun _ _ => True) (answered_always (by simp [Statement.run, chatSchema]) (by simp))
  intro _ _ _
  exact always_then (fun _ => Offends) (offends_ask (by simp [Statement.admissible, chatSchema]))
    fun _ t' => Offends.keeps _ t'

theorem offends_startRun (wf : DueRow) (runId : Uuid) (title createdBy human prompt : String)
    (models : Handler (List String)) :
    Always (Answering cron) (startRun wf runId title createdBy human prompt models)
      (fun _ => Offends) (fun _ => Offends) t := by
  unfold startRun
  apply always_then (fun _ _ => True) (answered_always (by simp [Statement.run, chatSchema]) (by simp))
  intro threadId _ _
  apply always_then (fun _ _ => True) (answered_always (by simp [Statement.run]) (by simp))
  intro _ _ _
  apply always_then (fun _ _ => True) (answered_always (by simp [Statement.run, chatSchema]) (by simp))
  intro _ _ _
  apply always_then (fun _ _ => True) (answered_always (by simp [Statement.run, chatSchema]) (by simp))
  intro _ _ _
  exact always_then (fun _ => Offends) (offends_ask (by simp [Statement.admissible, chatSchema]))
    fun _ t' => Offends.keeps _ t'

theorem offends_executeWorkflow {wf : DueRow} (h : wf.agentStatus = "running") :
    Always (Answering cron) (executeWorkflow cron wf) (fun _ => Offends) (fun _ => Offends) t := by
  unfold executeWorkflow
  rw [if_neg (not_not.mpr h)]
  apply always_then (fun _ _ => True) (answered_always (by simp [Statement.run]) (by simp))
  intro runId _ _
  apply always_then fun _ => Offends
  · apply (always_tryCatch _ _).mpr
    exact (offends_runWorkflow wf runId).mono (fun _ _ h => h) fun _ _ h => offends_quietly h
  · exact fun _ t' => Offends.keeps _ t'

theorem offends_orFailed {error : String} {p : Handler Response}
    (h : Always (Answering cron) p (fun _ => Offends) (fun _ => Offends) t) :
    Always (Answering cron) (orFailed error p) (fun _ => Offends) (fun _ => Offends) t :=
  (always_tryCatch _ _).mpr (h.mono (fun _ _ h => h) fun _ _ h => h)

theorem offends_orMarked {runId : Uuid} {setup error : String} {p : Handler Response}
    (h : Always (Answering cron) p (fun _ => Offends) (fun _ => Offends) t) :
    Always (Answering cron) (orMarked runId setup error p) (fun _ => Offends) (fun _ => Offends) t :=
  (always_tryCatch _ _).mpr (h.mono (fun _ _ h => h) fun _ t' => Offends.keeps _ t')

theorem select_always {st : Statement} {s : Store} (rows : st.Rows) {Q : st.Rows → TickLog → Prop}
    (hrun : ∀ c, st.run cron chatSchema s c = .ok (rows, s)) (hs : t.store = s)
    (hQ : ∀ t', Q rows t') : Always (Answering cron) (ask st) Q E t := by
  subst hs
  apply always_query st
  · intro rows' t' hstep
    cases hstep with
    | answered _ heff =>
      cases (hrun _).symm.trans heff
      exact hQ _
  · intro e t' hstep
    cases hstep with
    | refused _ heff => cases (hrun _).symm.trans heff
    | failed hfails => exact hfails.elim
    | lost _ hfails _ => exact hfails.elim

theorem offends_found {wf : DueRow} {setup error title createdBy human prompt : String}
    {models : Handler (List String)} :
    Always (Answering cron) (do
      let runId ← ask (.insertRun wf.id)
      orMarked runId setup error (startRun wf runId title createdBy human prompt models))
      (fun _ => Offends) (fun _ => Offends) t := by
  apply always_then (fun _ _ => True) (answered_always (by simp [Statement.run]) (by simp))
  intro runId _ _
  exact offends_orMarked (offends_startRun wf runId _ _ _ _ _)

theorem offends_runNow {id : Uuid} {user : String} {admin : Bool} {s : Store}
    (h : Runs (s.forRun id user admin)) (hs : t.store = s) :
    Always (Answering cron) (runNow id user admin) (fun _ => Offends) (fun _ => Offends) t := by
  obtain ⟨wf, hwf, hrunning⟩ := h
  obtain ⟨rest, hrows⟩ := List.head?_eq_some_iff.mp hwf
  apply offends_orFailed
  apply always_then fun rows _ => rows = wf :: rest
  · exact select_always (s := s) (s.forRun id user admin) (fun _ => rfl) hs fun _ => hrows
  · rintro _ t' rfl
    dsimp only
    rw [if_neg (not_not.mpr hrunning)]
    exact offends_found

theorem offends_webhook {tokenHash : String} {payload : Option String} {s : Store}
    (h : Runs (s.byToken tokenHash)) (hs : t.store = s) :
    Always (Answering cron) (webhook tokenHash payload) (fun _ => Offends) (fun _ => Offends) t := by
  obtain ⟨wf, hwf, hrunning⟩ := h
  obtain ⟨rest, hrows⟩ := List.head?_eq_some_iff.mp hwf
  apply offends_orFailed
  apply always_then fun rows _ => rows = wf :: rest
  · exact select_always (s := s) (s.byToken tokenHash) (fun _ => rfl) hs fun _ => hrows
  · rintro _ t' rfl
    dsimp only
    rw [if_neg (not_not.mpr hrunning)]
    exact offends_found

/-- A Discord user is written down as a participant and as an author of type `user`. -/
theorem offends_relayMessage {channelId : String} {discordUserId : Option String} {content : String}
    {s : Store} {b : Binding} (hchannel : channelId.isEmpty = false)
    (hcontent : content.isEmpty = false) (h : b ∈ (s.boundTo channelId).head?) (hs : t.store = s) :
    Always (Answering cron) (relayMessage channelId discordUserId content)
      (fun _ => Offends) (fun _ => Offends) t := by
  obtain ⟨rest, hrows⟩ := List.head?_eq_some_iff.mp h
  unfold relayMessage
  rw [hchannel, hcontent]
  apply offends_orFailed
  apply always_then fun rows _ => rows = b :: rest
  · exact select_always (s := s) (s.boundTo channelId) (fun _ => rfl) hs fun _ => hrows
  rintro _ t' rfl
  dsimp only
  apply always_then fun _ _ => True
  · unfold discordUser
    split
    · trivial
    · split
      · trivial
      · exact always_then (fun _ _ => True) (answered_always (by simp [Statement.run]) (by simp))
          fun _ _ _ => trivial
  intro userId t₁ _
  apply always_then fun _ => Offends
  · apply (always_tryCatch _ _).mpr
    have hbody : Always (Answering cron) (do
        ask .begin
        let threadId ← discordThread b userId
        let _ ← ask (.chat (.message threadId userId "user" none content "delivered"))
        let _ ← ask (.chat (.message threadId (toString b.agentId) "agent" none "" "pending"))
        ask (.touchThread threadId)
        ask .commit) (fun _ => Offends) (fun _ => Offends) t₁ := by
      apply always_then (fun _ _ => True) (answered_always (by simp [Statement.run]) (by simp))
      intro _ t₂ _
      apply always_then fun _ _ => True
      · unfold discordThread
        split
        · trivial
        · apply always_then (fun _ _ => True)
            (answered_always (by simp [Statement.run, chatSchema]) (by simp))
          intro threadId _ _
          apply always_then (fun _ _ => True) (answered_always (by simp [Statement.run]) (by simp))
          intro _ _ _
          apply always_then fun _ _ => True
          · exact (offends_ask (by simp [Statement.admissible, chatSchema])).mono
              (fun _ _ _ => trivial) fun _ _ h => h
          · exact fun _ _ _ => trivial
      intro threadId t₃ _
      exact always_then (fun _ => Offends) (offends_ask (by simp [Statement.admissible, chatSchema]))
        fun _ t' => Offends.keeps _ t'
    exact hbody.mono (fun _ _ h => h) fun _ t' => Offends.keeps _ t'
  · exact fun _ _ h => h

theorem offends_unanswered {p : Handler Response}
    (h : Always (Answering cron) p (fun _ => Offends) (fun _ => Offends) t) :
    Always (Answering cron) (unanswered p) (fun _ => Offends) (fun _ => Offends) t :=
  always_then (fun _ => Offends) h fun _ _ h => h

theorem offends_writer {s : Store} {w : Writer} (h : w.Ready s) (hs : t.store = s) :
    Always (Answering cron) (w.program cron) (fun _ => Offends) (fun _ => Offends) t := by
  cases w with
  | scheduler wf => exact offends_executeWorkflow h.2
  | run id user admin => exact offends_unanswered (offends_runNow h hs)
  | webhook tokenHash payload => exact offends_unanswered (offends_webhook h hs)
  | discord channelId discordUserId content =>
    obtain ⟨hchannel, hcontent, b, hb, _⟩ := h
    exact offends_unanswered (offends_relayMessage hchannel hcontent hb hs)

/-- Whichever of the four writers runs, and over whatever store, its chat rows are not
well formed. -/
theorem writers_malformed (cron : Cron) (s : Store) (w : Writer) (up : Choice) (h : w.Ready s) :
    ¬WellFormed s (w.play cron s up) := by
  intro hwell
  have hended := (offends_writer (t := ⟨[], s⟩) h rfl).play (Statement.run cron chatSchema) up
    trivial [] (by simp)
  have hoffends : Offends (w.play cron s up) := by
    unfold Writer.play
    generalize (w.program cron).play (Statement.run cron chatSchema) up ⟨[], s⟩ [] = ended at hended
    obtain ⟨t, _ | _⟩ := ended <;> exact hended
  obtain ⟨st, hst, hbad⟩ := hoffends
  rw [hwell.admissible st hst] at hbad
  cases hbad

def sampleDue : DueRow :=
  ⟨3, "report", 1, some "* * * * *", "report", "ada", "scout", "running", none, []⟩

theorem writers_malformed_sample :
    ¬WellFormed sampleStore ((Writer.run 3 "ada" false).play sampleCron sampleStore {}) :=
  writers_malformed sampleCron sampleStore (.run 3 "ada" false) {}
    ⟨sampleDue, by decide, rfl⟩

/-- The scheduler's message row: an author, no role, and a status no constraint lists. -/
theorem scheduled_message_refused :
    (Writer.scheduler sampleDue).Ready sampleStore ∧
      ¬WellFormed sampleStore ((Writer.scheduler sampleDue).play sampleCron sampleStore {}) := by
  constructor
  · exact ⟨by decide, rfl⟩
  · intro h
    have hmessage := h.admissible (.chat (.message 6 "ada" "human" none "report" "delivered"))
      (by decide +kernel)
    simp [Statement.admissible, chatSchema] at hmessage

end Hill90.Workflows
