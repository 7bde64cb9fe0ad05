import Hill90.Foundation.Table

/-! # The rows of the chat tables

`chat_threads`, `chat_participants`, `chat_messages` and the columns of `agents` the
chat routes read.  A CHECK constraint on a column is the type of its field.  Times
are milliseconds; a thread, a message and a person are known by their UUIDs.
-/

namespace Hill90.Chat

abbrev Uuid := ℕ

inductive Status where
  | pending
  | thinking
  | complete
  | error
  | stale
  deriving DecidableEq, Repr

namespace Status

/-- The class the callback and the sweeper spell `status IN ('pending', 'thinking')`. -/
def isOpen : Status → Bool
  | pending | thinking => true
  | complete | error | stale => false

/-- What `count(*) FILTER (WHERE status IN ('complete', 'error'))` counts. -/
def isTerminal : Status → Bool
  | complete | error => true
  | pending | thinking | stale => false

end Status

inductive AuthorType where
  | human
  | agent
  deriving DecidableEq, Repr

inductive Role where
  | user
  | assistant
  deriving DecidableEq, Repr

inductive ThreadType where
  | direct
  | group
  deriving DecidableEq, Repr

inductive ParticipantRole where
  | owner
  | member
  deriving DecidableEq, Repr

structure Message where
  id : Uuid
  seq : ℕ
  threadId : Uuid
  authorId : Uuid
  authorType : AuthorType
  role : Role
  content : String
  status : Status
  replyTo : Option Uuid := none
  model : Option String := none
  inputTokens : Option ℕ := none
  outputTokens : Option ℕ := none
  durationMs : Option ℕ := none
  errorMessage : Option String := none
  idempotencyKey : Option String := none
  targetAgents : Option (List Uuid) := none
  chainId : Option Uuid := none
  chainHop : Option ℕ := none
  triggeredBy : Option Uuid := none
  batchComplete : Option Bool := none
  createdAt : ℕ
  updatedAt : ℕ
  deriving DecidableEq, Repr

structure Thread where
  id : Uuid
  type : ThreadType := .direct
  title : Option String := none
  createdBy : Uuid
  leadAgentId : Option Uuid := none
  createdAt : ℕ
  updatedAt : ℕ
  deriving DecidableEq, Repr

structure Participant where
  threadId : Uuid
  participantId : Uuid
  participantType : AuthorType
  role : ParticipantRole := .member
  joinedAt : ℕ
  leftAt : Option ℕ := none
  deriving DecidableEq, Repr

def Participant.key (p : Participant) : Uuid × Uuid × AuthorType :=
  (p.threadId, p.participantId, p.participantType)

/-- `agentId` is the slug a mention names; `elevatedScope` is the first of the
agent's skill scopes that is `host_docker` or `vps_system`. -/
structure Agent where
  id : Uuid
  agentId : String
  name : Option String := none
  status : String
  workToken : Option String := none
  models : List String := []
  elevatedScope : Option String := none
  createdBy : Uuid
  errorMessage : Option String := none
  akmJti : Option String := none
  modelRouterJti : Option String := none
  deriving DecidableEq, Repr

/-- Both sequences only move forward: `nextId` stands for `gen_random_uuid()`, which
never returns an id twice, and `nextSeq` for `chat_messages_seq`. -/
structure Store where
  threads : Table Thread.id := Table.empty
  participants : Table Participant.key := Table.empty
  messages : Table Message.id := Table.empty
  agents : Table Agent.id := Table.empty
  nextId : Uuid := 0
  nextSeq : ℕ := 1
  now : ℕ := 0

namespace Store

def message? (s : Store) (id : Uuid) : Option Message := s.messages.get? id

def isActiveAgent (threadId : Uuid) (p : Participant) : Bool :=
  p.threadId = threadId && p.participantType = .agent && p.leftAt.isNone

/-- `participant_type = 'agent' AND left_at IS NULL`. -/
def activeAgents (s : Store) (threadId : Uuid) : List Uuid :=
  (s.participants.rows.filter (isActiveAgent threadId)).map (·.participantId)

theorem activeAgents_nodup (s : Store) (threadId : Uuid) : (s.activeAgents threadId).Nodup := by
  refine List.Nodup.map_on ?_ ?_
  · intro p hp q hq heq
    simp only [List.mem_filter, isActiveAgent, Bool.and_eq_true, decide_eq_true_eq] at hp hq
    refine Table.eq_of_key_eq hp.1 hq.1 ?_
    simp only [Participant.key, heq, hp.2.1.1, hq.2.1.1, hp.2.1.2, hq.2.1.2]
  · exact (List.Nodup.of_map _ s.participants.keys).filter _

end Store

end Hill90.Chat
