import Mathlib.Data.List.Sort
import Hill90.Chat.Record

/-! # The statements of the chat routes

One constructor for each statement a route awaits: the SQL it sends, or the call to
the world outside.  A transaction is one statement, since nothing else sees its inside.
`run` is the effect on the tables; what another service answers and what the
process clock shows comes from a choice.
-/

namespace Hill90.Chat

inductive Failure where
  | uniqueViolation (constraint : String)
  | foreignKeyViolation
  | error (message : String)
  deriving DecidableEq, Repr

def idempotencyIndex : String := "idx_chat_messages_idempotency"

def staleTimeoutMs : ℕ := 2 * 60 * 1000

def noResponseMessage : String := "No response received within 2 minutes"

def messageHistoryLimit : ℕ := 50

structure CallbackBody where
  messageId : Option Uuid
  idempotencyKey : Option String := none
  content : Option String := none
  status : Option String := none
  model : Option String := none
  inputTokens : Option ℕ := none
  outputTokens : Option ℕ := none
  durationMs : Option ℕ := none
  errorMessage : Option String := none
  deriving DecidableEq, Repr

namespace CallbackBody

/-- `status === 'error' ? 'error' : 'complete'`. -/
def finalStatus (b : CallbackBody) : Status :=
  if b.status = some "error" then .error else .complete

def isThinking (b : CallbackBody) : Bool := b.status = some "thinking"

end CallbackBody

/-- `x || null`, for a text and for a number. -/
def orNull : Option String → Option String
  | some text => if text.isEmpty then none else some text
  | none => none

def orNullNumber : Option ℕ → Option ℕ
  | some 0 | none => none
  | some n => some n

namespace CallbackBody

def think (now : ℕ) (b : CallbackBody) (seq : ℕ) (m : Message) : Message :=
  { m with
    content := b.content.getD "", status := .thinking, model := orNull b.model
    inputTokens := orNullNumber b.inputTokens, outputTokens := orNullNumber b.outputTokens
    durationMs := orNullNumber b.durationMs, seq, updatedAt := now }

def finish (now : ℕ) (b : CallbackBody) (seq : ℕ) (m : Message) : Message :=
  { m with
    content := b.content.getD "", status := b.finalStatus, model := orNull b.model
    inputTokens := orNullNumber b.inputTokens, outputTokens := orNullNumber b.outputTokens
    durationMs := orNullNumber b.durationMs, errorMessage := orNull b.errorMessage, seq
    updatedAt := now }

end CallbackBody

/-- The statements that close messages of others:
`SET status = 'error', error_message = …, seq = nextval(…)`. -/
inductive Closer where
  | callbackNotConfigured (id : Uuid)
  | dispatchFailed (id : Uuid) (safeReason : String)
  | cancelled (threadId : Uuid)
  | removed (threadId agentUuid : Uuid)
  | stopped (agentUuid : Uuid)
  | staleOnLoad (ids : List Uuid)
  | swept
  deriving DecidableEq, Repr

namespace Closer

def errorMessage : Closer → String
  | callbackNotConfigured _ => "Chat is not configured on this server (CHAT_CALLBACK_TOKEN missing)"
  | dispatchFailed _ safeReason => "Dispatch failed: " ++ safeReason
  | cancelled _ => "Cancelled by user"
  | removed .. => "Agent removed from thread"
  | stopped _ => "Agent stopped"
  | staleOnLoad _ => noResponseMessage
  | swept => noResponseMessage

/-- The messages a closing statement is about, whatever their status. -/
def scope : Closer → Message → Bool
  | callbackNotConfigured id, m => m.id = id
  | dispatchFailed id _, m => m.id = id
  | cancelled threadId, m => m.threadId = threadId
  | removed threadId agentUuid, m =>
    m.threadId = threadId && m.authorId = agentUuid && m.authorType = .agent
  | stopped agentUuid, m => m.authorId = agentUuid && m.authorType = .agent
  | staleOnLoad ids, m => m.id ∈ ids
  | swept, _ => true

/-- Its WHERE clause at time `now`: the sweeper alone takes `thinking` messages too. -/
def selects (now : ℕ) : Closer → Message → Bool
  | swept, m => m.status.isOpen && m.updatedAt + staleTimeoutMs < now
  | c, m => c.scope m && m.status = .pending

def close (now : ℕ) (c : Closer) (seq : ℕ) (m : Message) : Message :=
  { m with
    status := .error, errorMessage := some c.errorMessage, seq
    updatedAt := match c with
      | swept => now
      | _ => m.updatedAt }

end Closer

/-- The columns of a new assistant message; a chain is its id, its hop and its trigger. -/
structure Placeholder where
  threadId : Uuid
  agentId : Uuid
  replyTo : Uuid
  chain : Option (Uuid × Option ℕ × Option Uuid)
  deriving DecidableEq, Repr

structure ChatLine where
  role : Role
  content : String
  deriving DecidableEq, Repr

structure Peer where
  agentId : String
  name : String
  deriving DecidableEq, Repr

structure ChatWork where
  agentId : String
  workToken : Option String
  threadId : Uuid
  messageId : Uuid
  messages : List ChatLine
  model : String
  callbackUrl : String
  threadType : Option ThreadType
  participants : Option (List Peer)
  isLead : Option Bool
  collaborators : Option (List Peer)
  deriving DecidableEq, Repr

inductive DispatchOutcome where
  | fulfilled (accepted : Bool) (error : Option String)
  | rejected (reason : String)
  deriving DecidableEq, Repr

structure Trigger where
  threadId : Uuid
  authorId : Uuid
  chainId : Option Uuid
  chainHop : Option ℕ
  deriving DecidableEq, Repr

structure JournalRow where
  authorId : Uuid
  agentSlug : String
  ownerSub : Uuid
  deriving DecidableEq, Repr

inductive Statement where
  | isParticipant (threadId userId : Uuid)
  | isThreadOwner (threadId userId : Uuid)
  | getThreadType (threadId : Uuid)
  | getThreadAgents (threadId : Uuid)
  | resolveAgentSlugs (threadId : Uuid) (slugs : List String)
  | getAgentForDispatch (agentUuid : Uuid)
  | getAgentElevatedScope (agentUuid : Uuid)
  | selectPending (threadId agentUuid : Uuid)
  | selectHistory (threadId : Uuid)
  | selectStatus (id : Uuid)
  | selectJournal (id : Uuid)
  | selectBatch (id : Uuid)
  | countSiblings (replyTo : Uuid)
  | selectAuthor (id : Uuid)
  | selectTrigger (id : Uuid)
  | selectChainStart (chainId : Uuid)
  | selectChainAuthors (chainId : Uuid)
  | selectPeers (threadId : Uuid)
  | selectThread (id : Uuid)
  | selectParticipants (threadId : Uuid)
  | selectPage (threadId : Uuid) (limit : ℕ) (beforeSeq : Option ℕ)
  | countMessages (threadId : Uuid)
  | selectAgent (id : Uuid)
  | createThread (type : ThreadType) (title : Option String) (createdBy : Uuid)
      (leadAgentId : Option Uuid) (agentUuids : List Uuid) (content : String)
      (idempotencyKey : Option String)
  | createUserMessage (threadId userId : Uuid) (content : String) (idempotencyKey : Option String)
      (targetAgents : Option (List Uuid))
  | createPlaceholder (row : Placeholder)
  | thinkMessage (id : Uuid) (body : CallbackBody)
  | finishMessage (id : Uuid) (body : CallbackBody)
  | closeMessages (closer : Closer)
  | touchThread (id : Uuid)
  | titleThread (id : Uuid)
  | setBatchComplete (id : Uuid)
  | startChain (chainId id : Uuid)
  | updateThread (id : Uuid) (title : Option (Option String)) (leadAgentId : Option (Option Uuid))
  | deleteThread (id : Uuid)
  | addParticipant (threadId agentUuid : Uuid)
  | promoteThread (threadId : Uuid)
  | leaveThread (threadId agentUuid : Uuid)
  | failAgent (id : Uuid) (detail : String)
  | closeSessions (agentUuid : Uuid)
  | clearAgent (id : Uuid) (keepAkm keepModelRouter : Bool)
  | recordStatus (agentUuid : Uuid)
  | revokeToken (agentId jti : String)
  | stopAndRemoveContainer (agentId : String)
  | dispatchChatWork (works : List ChatWork)
  | appendJournal (agentSlug content : String)
  | dateNow
  | randomUUID
  deriving DecidableEq, Repr

namespace Statement

def Rows : Statement → Type
  | isParticipant .. => Bool
  | isThreadOwner .. => Bool
  | getThreadType _ => Option (ThreadType × Option Uuid)
  | getThreadAgents _ => List Uuid
  | resolveAgentSlugs .. => List (String × Uuid)
  | getAgentForDispatch _ => Option Agent
  | getAgentElevatedScope _ => Option String
  | selectPending .. => Bool
  | selectHistory _ => List ChatLine
  | selectStatus _ => Option Status
  | selectJournal _ => Option JournalRow
  | selectBatch _ => Option (Option Uuid × ThreadType)
  | countSiblings _ => ℕ × ℕ
  | selectAuthor _ => Option Uuid
  | selectTrigger _ => Option Trigger
  | selectChainStart _ => Option ℕ
  | selectChainAuthors _ => List Uuid
  | selectPeers _ => List Peer
  | selectThread _ => Option Thread
  | selectParticipants _ => List Participant
  | selectPage .. => List Message
  | countMessages _ => ℕ
  | selectAgent _ => Option Agent
  | createThread .. => Thread × Uuid × ℕ
  | createUserMessage .. => Uuid × ℕ
  | createPlaceholder _ => Uuid
  | thinkMessage .. => ℕ
  | finishMessage .. => ℕ
  | closeMessages _ => ℕ
  | updateThread .. => Option Thread
  | deleteThread _ => ℕ
  | dispatchChatWork _ => List DispatchOutcome
  | dateNow => ℕ
  | randomUUID => Uuid
  | _ => Unit

end Statement

structure Choice where
  clock : ℕ := 0
  outcome : Uuid → DispatchOutcome := fun _ => .fulfilled true none

namespace Store

variable (s : Store)

def thread? (id : Uuid) : Option Thread := s.threads.get? id

def agent? (id : Uuid) : Option Agent := s.agents.get? id

def threadMessages (threadId : Uuid) : List Message :=
  s.messages.rows.filter fun m => m.threadId = threadId

/-- `ORDER BY seq DESC`. -/
def newestFirst (ms : List Message) : List Message :=
  ms.insertionSort fun a b => b.seq ≤ a.seq

/-- An UPDATE that takes a new `seq` for each row it rewrites, with its row count. -/
def advance (p : Message → Bool) (f : ℕ → Message → Message) (hf : ∀ n m, (f n m).id = m.id) :
    ℕ × Store :=
  (s.messages.count p,
    { s with messages := s.messages.patch p f s.nextSeq hf, nextSeq := s.nextSeq + s.messages.count p })

def think (id : Uuid) (b : CallbackBody) : ℕ × Store :=
  s.advance (fun m => m.id = id && m.status.isOpen) (b.think s.now) fun _ _ => rfl

def finish (id : Uuid) (b : CallbackBody) : ℕ × Store :=
  s.advance (fun m => m.id = id && m.status.isOpen) (b.finish s.now) fun _ _ => rfl

def close (c : Closer) : ℕ × Store :=
  s.advance (c.selects s.now) (c.close s.now) fun _ _ => rfl

def batchDone (id : Uuid) : Store :=
  (s.advance (fun m => m.id = id) (fun seq m => { m with batchComplete := some true, seq })
    fun _ _ => rfl).2

def startChain (chainId id : Uuid) : Store :=
  { s with
    messages := s.messages.patch (fun m => m.id = id && m.chainId.isNone)
      (fun _ m => { m with chainId := some chainId, chainHop := some 0 }) 0 fun _ _ => rfl }

def addMessage (m : Message) : Except Failure Store :=
  match s.messages.insert m with
  | some messages => .ok { s with messages, nextId := s.nextId + 1, nextSeq := s.nextSeq + 1 }
  | none => .error (.uniqueViolation "chat_messages_pkey")

def hasKey (threadId authorId : Uuid) (key : Option String) : Bool :=
  key.isSome && s.messages.rows.any fun m =>
    m.threadId = threadId && m.authorId = authorId && m.idempotencyKey = key

def userMessage (threadId userId : Uuid) (content : String) (key : Option String)
    (targetAgents : Option (List Uuid)) : Message :=
  { id := s.nextId, seq := s.nextSeq, threadId, authorId := userId, authorType := .human
    role := .user, content, status := .complete, idempotencyKey := key, targetAgents
    createdAt := s.now, updatedAt := s.now }

/-- The one INSERT of a human message, with the id and the `seq` it returns. -/
def addUserMessage (threadId userId : Uuid) (content : String) (key : Option String)
    (targetAgents : Option (List Uuid)) : Except Failure ((Uuid × ℕ) × Store) :=
  if s.hasKey threadId userId key then .error (.uniqueViolation idempotencyIndex)
  else if (s.thread? threadId).isNone then .error .foreignKeyViolation
  else (s.addMessage (s.userMessage threadId userId content key targetAgents)).map fun s' =>
    ((s.nextId, s.nextSeq), s')

def placeholder (p : Placeholder) : Message :=
  { id := s.nextId, seq := s.nextSeq, threadId := p.threadId, authorId := p.agentId
    authorType := .agent, role := .assistant, content := "", status := .pending
    replyTo := some p.replyTo, chainId := p.chain.map (·.1), chainHop := p.chain.bind (·.2.1)
    triggeredBy := p.chain.bind (·.2.2), createdAt := s.now, updatedAt := s.now }

def addPlaceholder (p : Placeholder) : Except Failure (Uuid × Store) :=
  if (s.thread? p.threadId).isNone || (s.message? p.replyTo).isNone ||
      (p.chain.bind (·.2.2)).any fun id => (s.message? id).isNone then .error .foreignKeyViolation
  else (s.addMessage (s.placeholder p)).map fun s' => (s.nextId, s')

def addParticipants : List Participant → Table Participant.key → Option (Table Participant.key)
  | [], t => some t
  | p :: ps, t => (t.insert p).bind (addParticipants ps)

def addThread (type : ThreadType) (title : Option String) (createdBy : Uuid)
    (leadAgentId : Option Uuid) (agentUuids : List Uuid) (content : String)
    (key : Option String) : Except Failure ((Thread × Uuid × ℕ) × Store) :=
  let thread : Thread := { id := s.nextId, type, title, createdBy, leadAgentId
                           createdAt := s.now, updatedAt := s.now }
  let owner : Participant := { threadId := s.nextId, participantId := createdBy
                               participantType := .human, role := .owner, joinedAt := s.now }
  let members := agentUuids.map fun id =>
    ({ threadId := s.nextId, participantId := id, participantType := .agent
       joinedAt := s.now } : Participant)
  match s.threads.insert thread, addParticipants (owner :: members) s.participants with
  | some threads, some participants =>
    ({ s with threads, participants, nextId := s.nextId + 1 }.addUserMessage
      thread.id createdBy content key none).map fun (row, s') => ((thread, row), s')
  | _, _ => .error (.uniqueViolation "chat_participants_pkey")

def rewriteThread (id : Uuid) (f : Thread → Thread) (hf : ∀ t, (f t).id = t.id) : Store :=
  { s with threads := s.threads.patch (fun t => t.id = id) (fun _ => f) 0 fun _ => hf }

def rewriteAgent (id : Uuid) (f : Agent → Agent) (hf : ∀ a, (f a).id = a.id) : Store :=
  { s with agents := s.agents.patch (fun a => a.id = id) (fun _ => f) 0 fun _ => hf }

def touch (threadId : Uuid) : Store :=
  s.rewriteThread threadId (fun t => { t with updatedAt := s.now }) fun _ => rfl

/-- `LEFT(content, 50)` of the first human message, for a thread that has no title. -/
def firstWords (threadId : Uuid) : Option String :=
  (((s.threadMessages threadId).filter fun m => m.authorType = .human).insertionSort
    fun a b => a.createdAt ≤ b.createdAt).head?.map fun m => String.ofList (m.content.toList.take 50)

def title (threadId : Uuid) : Store :=
  s.rewriteThread threadId
    (fun t => { t with updatedAt := s.now, title := t.title.or (s.firstWords threadId) })
    fun _ => rfl

def ofMessage (id : Uuid) (f : Uuid → Store) : Store :=
  match s.message? id with
  | some m => f m.threadId
  | none => s

def dropThread (id : Uuid) : ℕ × Store :=
  (s.threads.count fun t => t.id = id,
    { s with
      threads := s.threads.delete fun t => t.id = id
      participants := s.participants.delete fun p => p.threadId = id
      messages := s.messages.delete fun m => m.threadId = id })

/-- `ON CONFLICT … DO UPDATE SET left_at = NULL`. -/
def addParticipant (threadId agentUuid : Uuid) : Except Failure Store :=
  if (s.thread? threadId).isNone then .error .foreignKeyViolation
  else
    match s.participants.insert { threadId, participantId := agentUuid, participantType := .agent
                                  joinedAt := s.now } with
    | some participants => .ok { s with participants }
    | none => .ok { s with
        participants := s.participants.patch
          (fun p => p.key = (threadId, agentUuid, .agent))
          (fun _ p => { p with leftAt := none }) 0 fun _ _ => rfl }

def leave (threadId agentUuid : Uuid) : Store :=
  { s with
    participants := s.participants.patch (fun p => p.key = (threadId, agentUuid, .agent))
      (fun _ p => { p with leftAt := some s.now }) 0 fun _ _ => rfl }

def siblings (replyTo : Uuid) : List Message :=
  s.messages.rows.filter fun m => m.replyTo = some replyTo && m.authorType = .agent

def chainMessages (chainId : Uuid) : List Message :=
  s.messages.rows.filter fun m => m.chainId = some chainId

end Store

open Store in
def Statement.run (s : Store) (c : Choice) : (st : Statement) → Except Failure (st.Rows × Store)
  | .isParticipant threadId userId =>
    .ok (s.participants.rows.any fun p =>
      p.threadId = threadId && p.participantId = userId && p.participantType = .human &&
        p.leftAt.isNone, s)
  | .isThreadOwner threadId userId =>
    .ok (s.participants.rows.any fun p =>
      p.threadId = threadId && p.participantId = userId && p.participantType = .human &&
        p.role = .owner, s)
  | .getThreadType threadId => .ok ((s.thread? threadId).map fun t => (t.type, t.leadAgentId), s)
  | .getThreadAgents threadId => .ok (s.activeAgents threadId, s)
  | .resolveAgentSlugs threadId slugs =>
    .ok ((s.activeAgents threadId).filterMap fun id => (s.agent? id).bind fun a =>
      if a.agentId ∈ slugs then some (a.agentId, id) else none, s)
  | .getAgentForDispatch agentUuid => .ok (s.agent? agentUuid, s)
  | .getAgentElevatedScope agentUuid => .ok ((s.agent? agentUuid).bind (·.elevatedScope), s)
  | .selectPending threadId agentUuid =>
    .ok (s.messages.rows.any fun m =>
      m.threadId = threadId && m.authorId = agentUuid && m.authorType = .agent &&
        m.status = .pending, s)
  | .selectHistory threadId =>
    .ok (((newestFirst ((s.threadMessages threadId).filter fun m => m.status = .complete)).take
      messageHistoryLimit).map fun m => ⟨m.role, m.content⟩, s)
  | .selectStatus id => .ok ((s.message? id).map (·.status), s)
  | .selectJournal id =>
    .ok ((s.message? id).bind fun m => if m.authorType = .agent then
      (s.agent? m.authorId).map fun a => ⟨m.authorId, a.agentId, a.createdBy⟩ else none, s)
  | .selectBatch id =>
    .ok ((s.message? id).bind fun m => (s.thread? m.threadId).map fun t => (m.replyTo, t.type), s)
  | .countSiblings replyTo =>
    .ok (((s.siblings replyTo).length, (s.siblings replyTo).countP (·.status.isTerminal)), s)
  | .selectAuthor id =>
    .ok ((s.message? id).bind fun m => if m.authorType = .agent then some m.authorId else none, s)
  | .selectTrigger id =>
    .ok ((s.message? id).map fun m => ⟨m.threadId, m.authorId, m.chainId, m.chainHop⟩, s)
  | .selectChainStart chainId => .ok (((s.chainMessages chainId).map (·.createdAt)).min?, s)
  | .selectChainAuthors chainId =>
    .ok ((((s.chainMessages chainId).filter fun m =>
      m.authorType = .agent && (m.status = .complete || m.status = .pending)).map
        (·.authorId)).eraseDups, s)
  | .selectPeers threadId =>
    .ok ((s.activeAgents threadId).filterMap fun id =>
      (s.agent? id).map fun a => ⟨a.agentId, (orNull a.name).getD a.agentId⟩, s)
  | .selectThread id => .ok (s.thread? id, s)
  | .selectParticipants threadId =>
    .ok (s.participants.rows.filter fun p => p.threadId = threadId, s)
  | .selectPage threadId limit beforeSeq =>
    .ok ((newestFirst ((s.threadMessages threadId).filter fun m =>
      beforeSeq.all fun n => m.seq < n)).take limit, s)
  | .countMessages threadId => .ok ((s.threadMessages threadId).length, s)
  | .selectAgent id => .ok (s.agent? id, s)
  | .createThread type title createdBy leadAgentId agentUuids content key =>
    s.addThread type title createdBy leadAgentId agentUuids content key
  | .createUserMessage threadId userId content key targetAgents =>
    (s.addUserMessage threadId userId content key targetAgents).map fun (row, s') =>
      (row, s'.touch threadId)
  | .createPlaceholder row => s.addPlaceholder row
  | .thinkMessage id body => .ok (s.think id body)
  | .finishMessage id body => .ok (s.finish id body)
  | .closeMessages closer => .ok (s.close closer)
  | .touchThread id => .ok ((), s.ofMessage id s.touch)
  | .titleThread id => .ok ((), s.ofMessage id s.title)
  | .setBatchComplete id => .ok ((), s.batchDone id)
  | .startChain chainId id => .ok ((), s.startChain chainId id)
  | .updateThread id title leadAgentId =>
    let s' := s.rewriteThread id (fun t => { t with
      updatedAt := s.now, title := title.getD t.title
      leadAgentId := leadAgentId.getD t.leadAgentId }) fun _ => rfl
    .ok (s'.thread? id, s')
  | .deleteThread id => .ok (s.dropThread id)
  | .addParticipant threadId agentUuid => (s.addParticipant threadId agentUuid).map ((), ·)
  | .promoteThread threadId =>
    .ok ((), s.rewriteThread threadId (fun t => { t with
      type := if t.type = .direct then .group else t.type }) fun _ => rfl)
  | .leaveThread threadId agentUuid => .ok ((), s.leave threadId agentUuid)
  | .failAgent id detail =>
    .ok ((), s.rewriteAgent id (fun a => { a with
      status := "error", errorMessage := some detail }) fun _ => rfl)
  | .closeSessions _ => .ok ((), s)
  | .clearAgent id keepAkm keepModelRouter =>
    .ok ((), s.rewriteAgent id (fun a => { a with
      status := "stopped", workToken := none, errorMessage := none
      akmJti := if keepAkm then a.akmJti else none
      modelRouterJti := if keepModelRouter then a.modelRouterJti else none }) fun _ => rfl)
  | .recordStatus _ => .ok ((), s)
  | .revokeToken .. => .ok ((), s)
  | .stopAndRemoveContainer _ => .ok ((), s)
  | .dispatchChatWork works => .ok (works.map fun w => c.outcome w.messageId, s)
  | .appendJournal .. => .ok ((), s)
  | .dateNow => .ok (c.clock, s)
  | .randomUUID => .ok (s.nextId, { s with nextId := s.nextId + 1 })

end Hill90.Chat
