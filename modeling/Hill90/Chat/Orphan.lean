import Hill90.Foundation.Aftermath
import Hill90.Chat.Conduct
import Hill90.Chat.Effect
import Hill90.Chat.Server

/-! # Messages of failed sends

A send that is answered with an error has posted no message exactly if no statement came back with
an error once the message was in, and the message was not inserted for a lead that cannot answer.
-/

namespace Hill90.Chat

open Program

/-- What comes back of a statement: the database may fail with a message of its own. -/
def External : Outcome Choice Failure → Prop
  | .answered _ => True
  | .failed e | .lost _ e => ∃ message, e = .error message

def fromOutside : Outcome Choice String → Outcome Choice Failure
  | .answered c => .answered c
  | .failed message => .failed (.error message)
  | .lost c message => .lost c (.error message)

def playSend (cfg : Config) (req : SendRequest) (s : Store) (rest : Choice)
    (pattern : List (Outcome Choice String)) :
    Log Statement Statement.Rows Store × Except Failure Response :=
  (sendMessage cfg req).play Statement.run rest ⟨[], s⟩ (pattern.map fromOutside)

/-- The thread has a message that it did not have. -/
def Posted (threadId : Uuid) (s t : Store) : Prop :=
  ∃ m ∈ t.messages.rows, m.threadId = threadId ∧ ∀ m₀ ∈ s.messages.rows, m₀.id ≠ m.id

def duplicateMessage : Response :=
  ⟨409, .error "Duplicate message (idempotency key already used)"⟩

/-- A status other than 2xx that is not the refusal of a duplicate. -/
def Response.failed (r : Response) : Prop := ¬(200 ≤ r.status ∧ r.status < 300) ∧ r ≠ duplicateMessage

/-- A failed send has posted nothing, and no key is taken that was not. -/
structure NothingPosted (req : SendRequest) (s : Store)
    (ending : Log Statement Statement.Rows Store × Except Failure Response) : Prop where
  answered : ∀ r, ending.2 = .ok r → r.failed → ¬Posted req.threadId s ending.1.store ∧
    ∀ key, ending.1.store.hasKey req.threadId req.user.sub key = s.hasKey req.threadId req.user.sub key
  raised : ∀ e, ending.2 ≠ .error e

section Lead

variable (s : Store) (req : SendRequest)

def Store.ready (threadId : Uuid) (a : Agent) : Bool :=
  a.isDispatchable && !s.messages.rows.any fun m =>
    m.threadId = threadId && m.authorId = a.id && m.authorType = .agent && m.status = .pending

def Store.targetUuids (threadId : Uuid) (text : String) : List Uuid :=
  let slugs := parseMentions text
  if slugs.isEmpty then s.activeAgents threadId
  else (toMap ((s.activeAgents threadId).filterMap fun id => (s.agent? id).bind fun a =>
    if a.agentId ∈ slugs then some (a.agentId, id) else none)).map (·.2)

def LeadReady : Prop :=
  ∀ text t lead, messageText req.message = some text → s.thread? req.threadId = some t →
    t.leadAgentId = some lead →
    ∃ a ∈ (s.targetUuids req.threadId text).filterMap s.agent?,
      a.id = lead ∧ s.ready req.threadId a = true

end Lead

def Statement.isInsert : Statement → Bool
  | createUserMessage .. => true
  | _ => false

def Statement.isClose : Statement → Bool
  | closeMessages _ => true
  | _ => false

/-- A statement that closes no placeholder comes back with an error while the message is in, or the
message is inserted for a lead that is not ready. -/
def orphaning (req : SendRequest) (s : Store) (st : Statement) (answer : Except Failure st.Rows)
    (t : Store) : Prop :=
  ((∃ e, answer = .error e) ∧ st.isClose = false ∧ Posted req.threadId s t) ∨
    ((∃ rows, answer = .ok rows) ∧ st.isInsert = true ∧ ¬LeadReady s req)

def Orphaned (cfg : Config) (req : SendRequest) (s : Store) (rest : Choice)
    (pattern : List (Outcome Choice String)) : Prop :=
  Hurt Statement.run rest (orphaning req s) (sendMessage cfg req) s (pattern.map fromOutside)

section Statements

variable {s t : Store}

theorem not_posted (threadId : Uuid) (s : Store) : ¬Posted threadId s s := by
  rintro ⟨m, hm, -, hnew⟩
  exact hnew m hm rfl

theorem Posted.run {threadId : Uuid} {u : Store} {c : Choice} {st : Statement} {rows : st.Rows}
    (h : Posted threadId s t) (hst : ∀ id, st ≠ .deleteThread id)
    (hrun : st.run t c = .ok (rows, u)) : Posted threadId s u := by
  obtain ⟨m, hm, hthread, hnew⟩ := h
  have heffect := effect_of_run hrun
  cases heffect with
  | quiet messages => exact ⟨m, by rw [messages]; exact hm, hthread, hnew⟩
  | patched p f n hf messages rewrites =>
    obtain ⟨i, hi⟩ : ∃ i, (if p m then f i m else m) ∈ (t.messages.patch p f n hf).rows :=
      Table.mem_patch_of_mem hf hm
    rw [← messages] at hi
    cases hp : p m with
    | false =>
      rw [hp] at hi
      exact ⟨m, hi, hthread, hnew⟩
    | true =>
      rw [hp] at hi
      have hrewritten := rewrites i m hp
      exact ⟨f i m, hi, hrewritten.threadId_eq.trans hthread,
        fun m₀ hm₀ => hrewritten.id_eq ▸ hnew m₀ hm₀⟩
  | created m' messages row issued =>
    exact ⟨m, (Table.mem_of_insert messages).mpr (.inl hm), hthread, hnew⟩
  | dropped id statement _ => exact absurd statement (hst id)

/-- The INSERT, where it takes effect, posts the message. -/
theorem posted_of_insert {req : SendRequest} {content : String} {key : Option String}
    {targets : Option (List Uuid)} {c : Choice} {row : Uuid × ℕ}
    (h : Statement.run s c (.createUserMessage req.threadId req.user.sub content key targets) =
      .ok (row, t)) : Posted req.threadId s t := by
  simp only [Statement.run] at h
  cases hadd : s.addUserMessage req.threadId req.user.sub content key targets with
  | error e =>
    rw [hadd] at h
    cases h
  | ok result =>
    obtain ⟨row', s'⟩ := result
    rw [hadd] at h
    cases h
    obtain ⟨-, -, hmessage⟩ := addUserMessage_ok hadd
    obtain ⟨hinsert, -⟩ := addMessage_ok hmessage
    refine ⟨s.userMessage req.threadId req.user.sub content key targets,
      (Table.mem_of_insert hinsert).mpr (.inr rfl), rfl, ?_⟩
    exact Table.get?_eq_none_iff.mp (Table.fresh_of_insert hinsert)

theorem run_error_ne {c : Choice} {st : Statement} {e : Failure}
    (hst : st.isInsert = false ∧ ∀ a b d f g h i, st ≠ .createThread a b d f g h i)
    (h : st.run t c = .error e) : e ≠ .uniqueViolation idempotencyIndex := by
  have hadd : ∀ m e, t.addMessage m = .error e → e ≠ .uniqueViolation idempotencyIndex := by
    intro m e he
    unfold Store.addMessage at he
    split at he
    · cases he
    · cases he
      decide
  cases st with
  | createUserMessage => cases hst.1
  | createThread => exact (hst.2 _ _ _ _ _ _ _ rfl).elim
  | createPlaceholder p =>
    simp only [Statement.run, Store.addPlaceholder] at h
    split at h
    · cases h
      decide
    · cases hmessage : t.addMessage (t.placeholder p) with
      | ok s' =>
        rw [hmessage] at h
        cases h
      | error e' =>
        rw [hmessage] at h
        cases h
        exact hadd _ _ hmessage
  | addParticipant threadId agentUuid =>
    simp only [Statement.run, Store.addParticipant] at h
    split at h
    · cases h
      decide
    · split at h <;> cases h
  | _ => cases h

end Statements

section Sending

variable {cfg : Config} {req : SendRequest} {s : Store} {α β : Type} {t u : Attempt Store}

abbrev Sends (req : SendRequest) (s : Store) :
    Attempt Store → (st : Statement) → Except Failure st.Rows → Attempt Store → Prop :=
  Tries Statement.run External (orphaning req s)

/-- Nothing has been written. -/
structure Untouched (s : Store) (t : Attempt Store) : Prop where
  store : t.store = s
  hurt : ¬t.hurt

structure Inside (req : SendRequest) (s : Store) (H : Prop) (t : Attempt Store) : Prop where
  posted : Posted req.threadId s t.store
  hurt : t.hurt ↔ H

/-- The handler has failed, with nothing written or with the message in. -/
def SendFails (req : SendRequest) (s : Store) (e : Failure) (t : Attempt Store) : Prop :=
  Untouched s t ∨ Inside req s True t ∧ e ≠ .uniqueViolation idempotencyIndex

/-- The send ends: it is no failure and no harm, or a failure with as much harm as it has left. -/
def Concludes (req : SendRequest) (s : Store) (r : Response) (t : Attempt Store) : Prop :=
  (¬r.failed ∧ ¬t.hurt) ∨ Untouched s t ∨ (r.failed ∧ Inside req s True t)

/-- A read of the store as it was comes back with what is there. -/
theorem ensures_read {st : Statement} {v : st.Rows} (hst : st.isInsert = false)
    (hrun : ∀ c, st.run s c = .ok (v, s)) (ht : Untouched s t) :
    Ensures (Sends req s) (query st) (fun rows t => Untouched s t ∧ rows = v)
      (fun _ => Untouched s) t := by
  have hsame : ∀ answer u, Sends req s t st answer u → Untouched s u ∧ ∀ rows,
      answer = .ok rows → rows = v := by
    rintro answer u ⟨⟨o, -, ho⟩, hhurt⟩
    rw [ht.store] at ho
    have hsettle : u.store = s ∧ ∀ rows, answer = .ok rows → rows = v := by
      cases o with
      | answered c =>
        simp only [Outcome.settle, hrun] at ho
        cases ho
        exact ⟨rfl, fun rows h => (Except.ok.inj h).symm⟩
      | failed e =>
        cases ho
        exact ⟨rfl, fun rows h => by cases h⟩
      | lost c e =>
        simp only [Outcome.settle, hrun] at ho
        cases ho
        exact ⟨rfl, fun rows h => by cases h⟩
    refine ⟨⟨hsettle.1, ?_⟩, hsettle.2⟩
    rw [hhurt, hsettle.1]
    rintro (h | ⟨-, -, h⟩ | ⟨-, h, -⟩)
    · exact ht.hurt h
    · exact not_posted _ _ h
    · rw [hst] at h
      cases h
  exact ⟨fun rows u hu => ⟨(hsame _ u hu).1, (hsame _ u hu).2 rows rfl⟩,
    fun e u hu => (hsame _ u hu).1⟩

/-- The same, where what is there does not matter. -/
abbrev Glances (req : SendRequest) (s : Store) (p : Handler α) (v : α) : Prop :=
  ∀ t, Untouched s t →
    Ensures (Sends req s) p (fun a t => Untouched s t ∧ a = v) (fun _ => Untouched s) t

theorem glances_query {st : Statement} {v : st.Rows} (hst : st.isInsert = false)
    (hrun : ∀ c, st.run s c = .ok (v, s)) : Glances req s (query st) v :=
  fun _ ht => ensures_read hst hrun ht

theorem glances_pure (a : α) : Glances req s (pure a) a := fun _ ht => ⟨ht, rfl⟩

theorem glances_bind {p : Handler α} {f : α → Handler β} {v : α} {w : β} (hp : Glances req s p v)
    (hf : Glances req s (f v) w) : Glances req s (p >>= f) w := by
  intro t ht
  refine ensures_then _ (hp t ht) ?_
  rintro _ t ⟨ht, rfl⟩
  exact hf t ht

theorem glances_loadKnownAgents (uuids : List Uuid) :
    Glances req s (loadKnownAgents uuids) (uuids.filterMap s.agent?) := by
  induction uuids with
  | nil => exact glances_pure _
  | cons uuid uuids ih =>
    refine glances_bind (glances_query rfl fun _ => rfl) (glances_bind ih ?_)
    have hcons : (s.agent? uuid).toList ++ uuids.filterMap s.agent? =
        (uuid :: uuids).filterMap s.agent? := by
      cases hagent : s.agent? uuid <;> simp [hagent]
    rw [← hcons]
    exact glances_pure _

theorem glances_deniedAgent (admin : Bool) (agents : List Agent) :
    ∃ v, Glances req s (deniedAgent admin agents) v := by
  induction agents with
  | nil => exact ⟨none, glances_pure _⟩
  | cons agent agents ih =>
    obtain ⟨v, ih⟩ := ih
    cases hscope : (s.agent? agent.id).bind (·.elevatedScope) with
    | none => exact ⟨v, glances_bind (glances_query rfl fun _ => rfl) (by rw [hscope]; exact ih)⟩
    | some scope =>
      cases admin with
      | true => exact ⟨v, glances_bind (glances_query rfl fun _ => rfl) (by rw [hscope]; exact ih)⟩
      | false =>
        exact ⟨some (agent, scope), glances_bind (glances_query rfl fun _ => rfl) (by
          rw [hscope]
          exact glances_pure _)⟩

/-- The agents that a send may dispatch are those that are ready. -/
theorem glances_classifyAgents (threadId : Uuid) (agents : List Agent) :
    ∃ skipped, Glances req s (classifyAgents threadId agents)
      (agents.filter (s.ready threadId), skipped) := by
  induction agents with
  | nil => exact ⟨[], glances_pure _⟩
  | cons agent agents ih =>
    obtain ⟨skipped, ih⟩ := ih
    cases hdispatch : agent.isDispatchable with
    | false =>
      refine ⟨(agent.id, "not_running") :: skipped, ?_⟩
      simp only [classifyAgents, hdispatch, Bool.false_eq_true, if_false]
      refine glances_bind ih ?_
      simpa [Store.ready, hdispatch] using glances_pure _
    | true =>
      cases hpending : s.messages.rows.any fun m => m.threadId = threadId && m.authorId = agent.id &&
          m.authorType = .agent && m.status = .pending with
      | true =>
        refine ⟨(agent.id, "has_pending") :: skipped, ?_⟩
        simp only [classifyAgents, hdispatch, if_true]
        refine glances_bind (glances_query rfl fun _ => rfl) (glances_bind ih ?_)
        simpa [Store.ready, hdispatch, hpending] using glances_pure _
      | false =>
        refine ⟨skipped, ?_⟩
        simp only [classifyAgents, hdispatch, if_true]
        refine glances_bind (glances_query rfl fun _ => rfl) (glances_bind ih ?_)
        simpa [Store.ready, hdispatch, hpending] using glances_pure _

/-- A program that follows the INSERT leaves the message in; it harms if it fails. -/
abbrev Keeps (req : SendRequest) (s : Store) (p : Handler α) : Prop :=
  ∀ H t, Inside req s H t → Ensures (Sends req s) p (fun _ => Inside req s H)
    (fun e t => Inside req s True t ∧ e ≠ .uniqueViolation idempotencyIndex) t

theorem keeps_pure (a : α) : Keeps req s (pure a) := fun _ _ ht => ht

theorem keeps_bind {p : Handler α} {f : α → Handler β} (hp : Keeps req s p)
    (hf : ∀ a, Keeps req s (f a)) : Keeps req s (p >>= f) :=
  fun H t ht => ensures_then _ (hp H t ht) fun a u hu => hf a H u hu

/-- A statement leaves the message where it is. -/
theorem posted_of_tries {st : Statement} {answer : Except Failure st.Rows} {H : Prop}
    (hst : ∀ id, st ≠ .deleteThread id) (h : Sends req s t st answer u) (ht : Inside req s H t) :
    Posted req.threadId s u.store := by
  obtain ⟨⟨o, -, ho⟩, -⟩ := h
  have hsettle : u.store = (o.settle Statement.run t.store st).2 := by rw [ho]
  rw [hsettle]
  cases o with
  | failed e => exact ht.posted
  | answered c =>
    cases hrun : st.run t.store c with
    | ok result => simpa [Outcome.settle, hrun] using ht.posted.run hst hrun
    | error e => simpa [Outcome.settle, hrun] using ht.posted
  | lost c e =>
    cases hrun : st.run t.store c with
    | ok result => simpa [Outcome.settle, hrun] using ht.posted.run hst hrun
    | error e => simpa [Outcome.settle, hrun] using ht.posted

/-- An error of a statement that inserts no message is not about its key. -/
theorem error_ne_of_tries {st : Statement} {e : Failure}
    (hst : st.isInsert = false ∧ ∀ a b d f g h i, st ≠ .createThread a b d f g h i)
    (h : Sends req s t st (.error e) u) : e ≠ .uniqueViolation idempotencyIndex := by
  obtain ⟨⟨o, hallowed, ho⟩, -⟩ := h
  have hsettle : Except.error e = (o.settle Statement.run t.store st).1 := by rw [ho]
  cases o with
  | failed e' =>
    cases hsettle
    obtain ⟨message, rfl⟩ := hallowed
    nofun
  | answered c =>
    cases hrun : st.run t.store c with
    | ok result =>
      simp only [Outcome.settle, hrun] at hsettle
      cases hsettle
    | error e' =>
      simp only [Outcome.settle, hrun] at hsettle
      cases hsettle
      exact run_error_ne hst hrun
  | lost c e' =>
    cases hrun : st.run t.store c with
    | ok result =>
      simp only [Outcome.settle, hrun] at hsettle
      cases hsettle
      obtain ⟨message, rfl⟩ := hallowed
      nofun
    | error e'' =>
      simp only [Outcome.settle, hrun] at hsettle
      cases hsettle
      exact run_error_ne hst hrun

/-- What the handler still hands over with the message in, and does not swallow the error of. -/
def Statement.follows : Statement → Bool
  | selectHistory _ | getAgentForDispatch _ | createPlaceholder _ | dispatchChatWork _ => true
  | _ => false

theorem keeps_query {st : Statement} (hst : st.follows = true) : Keeps req s (query st) := by
  have hkind : (∀ id, st ≠ .deleteThread id) ∧ (st.isInsert = false ∧
      ∀ a b d f g h i, st ≠ .createThread a b d f g h i) ∧ st.isClose = false := by
    cases st <;> first | (cases hst; done) | exact ⟨nofun, ⟨rfl, nofun⟩, rfl⟩
  intro H t ht
  refine ⟨fun rows u hu => ?_, fun e u hu => ?_⟩
  · refine ⟨posted_of_tries hkind.1 hu ht, ?_⟩
    rw [hu.2, ← ht.hurt]
    simp [orphaning, hkind.2.1.1]
  · have hposted := posted_of_tries hkind.1 hu ht
    refine ⟨⟨hposted, ?_⟩, error_ne_of_tries hkind.2.1 hu⟩
    rw [hu.2]
    simp [orphaning, hkind.2.2, hposted]

/-- The failure to mark a placeholder is swallowed. -/
theorem keeps_mark (c : Closer) :
    Keeps req s (quietly (do let _ ← closeMessages c)) := by
  intro H t ht
  have hmark : ∀ answer u, Sends req s t (.closeMessages c) answer u → Inside req s H u := by
    intro answer u hu
    refine ⟨posted_of_tries (by rintro _ ⟨⟩) hu ht, ?_⟩
    rw [hu.2, ← ht.hurt]
    simp [orphaning, Statement.isClose, Statement.isInsert]
  exact ⟨fun rows u hu => hmark _ u hu, fun e u hu => hmark _ u hu⟩

theorem keeps_createPlaceholders (opts : DispatchOpts) (agents : List Agent) :
    Keeps req s (createPlaceholders opts agents) := by
  induction agents with
  | nil => exact keeps_pure _
  | cons agent agents ih =>
    exact keeps_bind (keeps_query rfl) fun id => keeps_bind ih fun _ => keeps_pure _

theorem keeps_refuseAll (placeholders : List (Agent × Uuid)) :
    Keeps req s (refuseAll placeholders) := by
  induction placeholders with
  | nil => exact keeps_pure _
  | cons placeholder placeholders ih =>
    exact keeps_bind (keeps_mark _) fun _ => keeps_bind ih fun _ => keeps_pure _

theorem keeps_settle (placeholders : List (Agent × Uuid)) (results : List DispatchOutcome) :
    Keeps req s (settle placeholders results) := by
  induction placeholders generalizing results with
  | nil => cases results <;> exact keeps_pure _
  | cons placeholder placeholders ih =>
    cases results with
    | nil => exact keeps_pure _
    | cons result results =>
      rw [settle]
      split
      · exact keeps_bind (ih results) fun _ => keeps_pure _
      · exact keeps_bind (keeps_mark _) fun _ => keeps_bind (ih results) fun _ => keeps_pure _

theorem keeps_dispatchToAgents (cfg : Config) (opts : DispatchOpts) :
    Keeps req s (dispatchToAgents cfg opts) := by
  refine keeps_bind (keeps_createPlaceholders opts opts.agents) fun placeholders => ?_
  split
  · exact keeps_bind (keeps_refuseAll _) fun _ => keeps_pure _
  · exact keeps_bind (keeps_query rfl) fun results => keeps_settle placeholders results

theorem keeps_peersOf (threadType : ThreadType) (uuids : List Uuid) :
    Keeps req s (peersOf threadType uuids) := by
  have hload : Keeps req s (loadKnownAgents uuids) := by
    induction uuids with
    | nil => exact keeps_pure _
    | cons uuid uuids ih =>
      exact keeps_bind (keeps_query rfl) fun _ => keeps_bind ih fun _ => keeps_pure _
  unfold peersOf
  split
  · exact keeps_bind hload fun _ => keeps_pure _
  · exact keeps_pure _

theorem ensures_insert {content : String} {key : Option String} {targets : Option (List Uuid)}
    (ht : Untouched s t) :
    Ensures (Sends req s) (query (.createUserMessage req.threadId req.user.sub content key targets))
      (fun _ => Inside req s (¬LeadReady s req)) (SendFails req s) t := by
  have hquiet : ∀ e u, u.store = s → Sends req s t
      (.createUserMessage req.threadId req.user.sub content key targets) (.error e) u →
      Untouched s u := by
    intro e u hstore hu
    refine ⟨hstore, ?_⟩
    rw [hu.2, hstore]
    rintro (h | ⟨-, -, h⟩ | ⟨⟨rows, h⟩, -, -⟩)
    · exact ht.hurt h
    · exact not_posted _ _ h
    · cases h
  refine ⟨fun rows u hu => ?_, fun e u hu => ?_⟩
  · obtain ⟨o, -, ho⟩ := hu.1
    rw [ht.store] at ho
    refine ⟨?_, ?_⟩
    · cases o with
      | answered c =>
        simp only [Outcome.settle] at ho
        split at ho
        · rename_i hrun
          cases ho
          exact posted_of_insert hrun
        · cases ho
      | failed e => cases ho
      | lost c e =>
        simp only [Outcome.settle] at ho
        split at ho <;> cases ho
    · rw [hu.2]
      simp [orphaning, Statement.isInsert, ht.hurt]
  · obtain ⟨o, hallowed, ho⟩ := hu.1
    rw [ht.store] at ho
    cases o with
    | failed e' =>
      cases ho
      exact .inl (hquiet _ _ rfl hu)
    | answered c =>
      simp only [Outcome.settle] at ho
      split at ho
      · cases ho
      · cases ho
        exact .inl (hquiet _ _ rfl hu)
    | lost c e' =>
      obtain ⟨message, rfl⟩ := hallowed
      simp only [Outcome.settle] at ho
      split at ho
      · rename_i hrun
        cases ho
        have hposted := posted_of_insert hrun
        refine .inr ⟨⟨hposted, ?_⟩, fun h => by cases h⟩
        rw [hu.2]
        simp [orphaning, Statement.isClose, hposted]
      · cases ho
        exact .inl (hquiet _ _ rfl hu)

theorem concludes_deliver {text : String} {threadType : ThreadType} {lead : Option Uuid}
    {all : List Uuid} {targets : Option (List Uuid)} {dispatchable : List Agent}
    {skipped : List (Uuid × String)}
    (hlead : (onlyLead lead dispatchable).isEmpty = true ↔ ¬LeadReady s req)
    (ht : Untouched s t) :
    Ensures (Sends req s) (deliver cfg req text threadType lead all targets dispatchable skipped)
      (Concludes req s) (SendFails req s) t := by
  refine ensures_then _ (ensures_insert ht) fun userMsg t ht => ?_
  have herror : ∀ (e : Failure) (t : Attempt Store), (Inside req s True t ∧
      e ≠ .uniqueViolation idempotencyIndex) → SendFails req s e t := fun _ _ h => .inr h
  refine ensures_then _ ((keeps_query rfl _ _ ht).mono (fun _ _ h => h) herror)
    fun history t ht => ?_
  refine ensures_then _ ((keeps_peersOf threadType all _ _ ht).mono (fun _ _ h => h) herror)
    fun participants t ht => ?_
  refine ensures_ite (fun hempty => ?_) fun hempty => ?_
  · have hharm : Inside req s True t := ⟨ht.posted, by simpa using ht.hurt.mpr (hlead.mp hempty)⟩
    exact .inr (.inr ⟨⟨by decide, by simp [duplicateMessage]⟩, hharm⟩)
  · refine ensures_then _ ((keeps_dispatchToAgents cfg _ _ _ ht).mono (fun _ _ h => h) herror)
      fun results t ht => ?_
    refine .inl ⟨fun hfailed => hfailed.1 ⟨(by simp), (by simp)⟩, ?_⟩
    rw [ht.hurt]
    exact fun h => hempty (hlead.mpr h)

theorem leadReady_iff {text : String} {thread : Thread}
    (htext : messageText req.message = some text) (hthread : s.thread? req.threadId = some thread)
    (hne : (((s.targetUuids req.threadId text).filterMap s.agent?).filter
      (s.ready req.threadId)).isEmpty = false) :
    (onlyLead thread.leadAgentId (((s.targetUuids req.threadId text).filterMap s.agent?).filter
      (s.ready req.threadId))).isEmpty = true ↔ ¬LeadReady s req := by
  cases hlead : thread.leadAgentId with
  | none =>
    have hready : LeadReady s req := by
      intro text' thread' lead htext' hthread' hlead'
      rw [hthread] at hthread'
      cases hthread'
      rw [hlead] at hlead'
      cases hlead'
    simp only [onlyLead, hne, hready, Bool.false_eq_true, not_true_eq_false]
  | some lead =>
    have hready : LeadReady s req ↔ ∃ a ∈ (s.targetUuids req.threadId text).filterMap s.agent?,
        a.id = lead ∧ s.ready req.threadId a = true := by
      constructor
      · exact fun h => h text thread lead htext hthread hlead
      · intro h text' thread' lead' htext' hthread' hlead'
        rw [htext] at htext'
        cases htext'
        rw [hthread] at hthread'
        cases hthread'
        rw [hlead] at hlead'
        cases hlead'
        exact h
    rw [hready, onlyLead, List.isEmpty_iff, List.filter_eq_nil_iff]
    constructor
    · rintro h ⟨a, ha, hid, hr⟩
      exact h a (List.mem_filter.mpr ⟨ha, hr⟩) (by simpa using hid)
    · intro h a ha hid
      obtain ⟨ha, hr⟩ := List.mem_filter.mp ha
      exact h ⟨a, ha, by simpa using hid, hr⟩

theorem concludes_untouched {r : Response} (ht : Untouched s t) :
    Ensures (Sends req s) (pure r : Handler Response) (Concludes req s) (SendFails req s) t :=
  .inr (.inl ht)

theorem ensures_glance {p : Handler α} {v : α} {f : α → Handler Response} (hp : Glances req s p v)
    (ht : Untouched s t) (hf : ∀ u, Untouched s u →
      Ensures (Sends req s) (f v) (Concludes req s) (SendFails req s) u) :
    Ensures (Sends req s) (p >>= f) (Concludes req s) (SendFails req s) t := by
  refine ensures_then _ ((hp t ht).mono (fun _ _ h => h) fun _ _ h => .inl h) ?_
  rintro _ u ⟨hu, rfl⟩
  exact hf u hu

theorem concludes_sendTo {text : String} {thread : Thread} {all : List Uuid}
    {targets : Option (List Uuid)} (htext : messageText req.message = some text)
    (hthread : s.thread? req.threadId = some thread) (ht : Untouched s t) :
    Ensures (Sends req s) (sendTo cfg req text thread.type thread.leadAgentId all
      (s.targetUuids req.threadId text) targets) (Concludes req s) (SendFails req s) t := by
  refine ensures_glance (glances_loadKnownAgents _) ht fun t ht => ?_
  refine ensures_ite (fun _ => concludes_untouched ht) fun _ => ?_
  obtain ⟨denied, hdenied⟩ : ∃ v, Glances req s (deniedAgent req.user.admin
    ((s.targetUuids req.threadId text).filterMap s.agent?)) v := glances_deniedAgent _ _
  refine ensures_glance hdenied ht fun t ht => ?_
  cases denied with
  | some denial => exact concludes_untouched ht
  | none =>
    obtain ⟨skipped, hclassified⟩ : ∃ skipped, Glances req s (classifyAgents req.threadId
        ((s.targetUuids req.threadId text).filterMap s.agent?))
        (((s.targetUuids req.threadId text).filterMap s.agent?).filter (s.ready req.threadId), skipped) :=
      glances_classifyAgents _ _
    refine ensures_glance hclassified ht fun t ht => ?_
    refine ensures_ite (fun _ => concludes_untouched ht) fun hne => ?_
    exact concludes_deliver (leadReady_iff htext hthread (by simpa using hne)) ht

theorem concludes_sendMessage (ht : Untouched s t) :
    Ensures (Sends req s) (sendMessage cfg req) (Concludes req s) (fun _ _ => False) t := by
  unfold sendMessage orDuplicate
  rw [ensures_tryCatch]
  refine Ensures.mono (Q := Concludes req s) (E := SendFails req s) ?_ (fun _ _ h => h) ?_
  · obtain ⟨allowed, hallowed⟩ : ∃ v, Glances req s (isParticipant req.threadId req.user) v := by
      cases hadmin : req.user.admin with
      | true => exact ⟨true, by rw [isParticipant, hadmin]; exact glances_pure _⟩
      | false => exact ⟨_, by rw [isParticipant, hadmin]; exact glances_query rfl fun _ => rfl⟩
    refine ensures_glance hallowed ht fun t ht => ?_
    refine ensures_ite (fun _ => concludes_untouched ht) fun _ => ?_
    cases htext : messageText req.message with
    | none => exact concludes_untouched ht
    | some text =>
      refine ensures_glance (glances_query rfl fun _ => rfl) ht fun t ht => ?_
      cases hthread : s.thread? req.threadId with
      | none => exact concludes_untouched ht
      | some thread =>
        refine ensures_glance (glances_query rfl fun _ => rfl) ht fun t ht => ?_
        refine ensures_ite (fun _ => concludes_untouched ht) fun _ => ?_
        have htargets : s.targetUuids req.threadId text =
            if (parseMentions text).isEmpty then s.activeAgents req.threadId
            else (toMap ((s.activeAgents req.threadId).filterMap fun id => (s.agent? id).bind fun a =>
              if a.agentId ∈ parseMentions text then some (a.agentId, id) else none)).map (·.2) := rfl
        refine ensures_ite (fun hslugs => ?_) fun hslugs => ?_
        · rw [if_pos hslugs] at htargets
          rw [← htargets]
          exact concludes_sendTo htext hthread ht
        · rw [if_neg hslugs] at htargets
          have hresolve : Glances req s (resolveAgentSlugs req.threadId (parseMentions text))
              (toMap ((s.activeAgents req.threadId).filterMap fun id => (s.agent? id).bind fun a =>
                if a.agentId ∈ parseMentions text then some (a.agentId, id) else none)) := by
            rw [resolveAgentSlugs, if_neg hslugs]
            exact glances_bind (glances_query rfl fun _ => rfl) (glances_pure _)
          refine ensures_glance hresolve ht fun t ht => ?_
          split
          · exact concludes_untouched ht
          · rw [← htargets]
            exact concludes_sendTo htext hthread ht
  · -- The catch tells a taken key from the rest, and only the INSERT finds the key taken.
    intro e t hfails
    have hanswer : ∀ r : Response, (r = duplicateMessage → Untouched s t) →
        (r ≠ duplicateMessage → r.failed) → Concludes req s r t := by
      intro r hdup hfailed
      rcases hfails with ht | ⟨hin, -⟩
      · exact .inr (.inl ht)
      · by_cases hr : r = duplicateMessage
        · exact .inr (.inl (hdup hr))
        · exact .inr (.inr ⟨hfailed hr, hin⟩)
    have hfailure : Concludes req s ⟨500, .error "Failed to send message"⟩ t := by
      refine hanswer _ (fun h => ?_) fun h => ⟨by decide, h⟩
      cases h
    cases e with
    | uniqueViolation constraint =>
      dsimp only
      refine ensures_ite (fun hconstraint => ?_) fun _ => hfailure
      refine hanswer _ (fun _ => ?_) fun h => (h rfl).elim
      rcases hfails with ht | ⟨-, hne⟩
      · exact ht
      · exact (hne (by rw [hconstraint])).elim
    | _ => exact hfailure

/-- A send with failures of its statements leaves no message of a failed request exactly if it was
not orphaned. -/
theorem sendAtomic_iff (cfg : Config) (req : SendRequest) (s : Store) (rest : Choice)
    (pattern : List (Outcome Choice String)) :
    NothingPosted req s (playSend cfg req s rest pattern) ↔ ¬Orphaned cfg req s rest pattern := by
  have hconcludes : Ensures (Sends req s) (sendMessage cfg req) (Concludes req s) (fun _ _ => False)
      ⟨s, False⟩ := concludes_sendMessage ⟨rfl, id⟩
  have hleft := Ensures.left rest (t := ⟨[], s⟩) hconcludes trivial (pattern.map fromOutside) (by
      intro o ho
      obtain ⟨o', -, rfl⟩ := List.mem_map.mp ho
      cases o' with
      | answered c => trivial
      | failed message => exact ⟨message, rfl⟩
      | lost c message => exact ⟨message, rfl⟩)
  rw [false_or] at hleft
  change Left _ _ (Orphaned cfg req s rest pattern) (playSend cfg req s rest pattern) at hleft
  cases hending : playSend cfg req s rest pattern with
  | mk log result =>
    rw [hending] at hleft
    cases result with
    | error e => exact hleft.elim
    | ok r =>
      rcases hleft with ⟨hok, hclean⟩ | ⟨hstore, hclean⟩ | ⟨hfailed, hposted, hhurt⟩
      · refine iff_of_true ⟨?_, nofun⟩ hclean
        rintro r' ⟨⟩ hfailed
        exact (hok hfailed).elim
      · refine iff_of_true ⟨?_, nofun⟩ hclean
        rintro r' ⟨⟩ -
        have hsame : log.store = s := hstore
        exact ⟨by rw [hsame]; exact not_posted _ _, fun key => by rw [hsame]⟩
      · refine iff_of_false (fun h => (h.answered r rfl hfailed).1 hposted) ?_
        exact not_not.mpr (hhurt.mpr trivial)

end Sending

/-- The history is not read for a message that is in already: the sender hears that the send has
failed, and that the key is taken when it tries again. -/
theorem orphan_left :
    ∃ s req pattern, ¬NothingPosted req s (playSend Sample.config req s {} pattern) ∧
      (playSend Sample.config req s {} pattern).2 = .ok ⟨500, .error "Failed to send message"⟩ ∧
      (playSend Sample.config req (playSend Sample.config req s {} pattern).1.store {} []).2 =
        .ok duplicateMessage := by
  let s := (Sample.after (Sample.serve 0 (Sample.openThread [1]) 4 ++
    Sample.serve 1 (.cancel Sample.user 10) 2)).store
  let req : SendRequest :=
    { user := Sample.user, threadId := 10, message := some "and now?", idempotencyKey := some "k" }
  let pattern : List (Outcome Choice String) :=
    List.replicate 7 (.answered {}) ++ [.failed "canceling statement due to statement timeout"]
  have hanswer : (playSend Sample.config req s {} pattern).2 =
      .ok ⟨500, .error "Failed to send message"⟩ := by decide +kernel
  refine ⟨s, req, pattern, fun h => ?_, hanswer, by decide +kernel⟩
  have hkey := (h.answered _ hanswer ⟨by decide, by decide⟩).2 (some "k")
  have hbefore : s.hasKey 10 3 (some "k") = false := by decide +kernel
  have hafter : (playSend Sample.config req s {} pattern).1.store.hasKey 10 3 (some "k") = true := by
    decide +kernel
  exact absurd (hafter.symm.trans (hkey.trans hbefore)) (by decide)

end Hill90.Chat
