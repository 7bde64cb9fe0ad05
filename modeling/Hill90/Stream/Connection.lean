import Hill90.Foundation.Ledger
import Hill90.Foundation.Machine
import Hill90.Chat.Record
import Hill90.Stream.Session

/-! # The stream of a thread

`GET /threads/:id/stream` from its first poll on.  A poll is asked, answered by the
database and resumed in separate moves, and so is the count of its backfill; the timer
starts the next one whatever the others do.  All share one cursor.
-/

namespace Hill90.Stream

open Chat (Message Uuid)

def rowKey (m : Message) : Uuid × Uuid := (m.threadId, m.id)

/-- The versions of `chat_messages`, as transactions write and commit them. -/
abbrev Messages := Ledger rowKey Message.seq

def sseBackfillLimit : ℕ := 500

def chatStreamPollMs : ℕ := 1000

def backfillTail (l : Messages) (threadId : Uuid) (cursor : ℤ) (limit : ℕ) : List Message :=
  Ledger.newest limit (l.select fun m => m.threadId = threadId && cursor < m.seq)

def pollRows (l : Messages) (threadId : Uuid) (cursor : ℤ) : List Message :=
  l.select fun m => m.threadId = threadId && cursor < m.seq

def threadMessageCount (l : Messages) (threadId : Uuid) : ℕ :=
  (l.select fun m => m.threadId = threadId).length

structure BackfillNotice where
  sent : ℕ
  total : ℕ
  oldestSeqSent : Option ℕ
  hasOlder : Bool
  deriving DecidableEq

def backfillNotice (sentRows : List Message) (total : ℕ) : BackfillNotice :=
  { sent := sentRows.length, total
    oldestSeqSent := sentRows.head?.map (·.seq)
    hasOlder := sentRows.length < total }

inductive Event where
  | backfill (notice : BackfillNotice)
  | message (row : Message)
  deriving DecidableEq

def Event.row? : Event → Option Message
  | .message row => some row
  | .backfill _ => none

inductive Query where
  | tail
  | above
  deriving DecidableEq

def Query.run (l : Messages) (threadId : Uuid) (since : ℤ) : Query → List Message
  | tail => backfillTail l threadId since sseBackfillLimit
  | above => pollRows l threadId since

/-- What a poll awaits: its rows, the resumption with them, its count, or the
resumption with that. -/
inductive Stage where
  | asked
  | answered (rows : List Message)
  | counting (rows : List Message)
  | counted (rows : List Message) (total : ℕ)
  deriving DecidableEq

structure Poll where
  query : Query
  since : ℤ
  stage : Stage := .asked
  deriving DecidableEq

/-- `lastEventId` is what `parseInt` makes of the header, 0 without one. -/
structure Connection where
  threadId : Uuid
  lastEventId : ℤ
  cursor : ℤ
  isBackfill : Bool
  polls : ℕ → Option Poll
  started : ℕ
  session : Session Event
  signal : FailureSignal

/-- What the row loop of a poll leaves behind. -/
structure Written where
  session : Session Event
  cursor : ℤ
  finished : Bool

/-- The cursor takes the number of a row whether or not the writer refused it. -/
def writeRows (s : Session Event) (cursor : ℤ) : List Message → List Sink → Written
  | [], _ => ⟨s, cursor, true⟩
  | row :: rows, sinks =>
    if s.live then
      writeRows (s.write (sinks.headD {}) (.event (.message row))) row.seq rows sinks.tail
    else ⟨s, cursor, false⟩

namespace Connection

/-- The first poll is asked at once. -/
def start (threadId : Uuid) (lastEventId : ℤ) : Connection where
  threadId
  lastEventId
  cursor := lastEventId
  isBackfill := true
  polls := Function.update (fun _ => none) 0 (some ⟨.tail, lastEventId, .asked⟩)
  started := 1
  session := {}
  signal := {}

def setPoll (c : Connection) (j : ℕ) (p : Option Poll) : Connection :=
  { c with polls := Function.update c.polls j p }

def tick (c : Connection) : Option Connection :=
  if !c.session.ticking then none
  else if !c.session.live || c.session.sourcePaused then some c
  else
    let query := if c.isBackfill then Query.tail else Query.above
    some { c.setPoll c.started (some ⟨query, c.cursor, .asked⟩) with started := c.started + 1 }

def execute (l : Messages) (c : Connection) (j : ℕ) : Option Connection :=
  match c.polls j with
  | some ⟨query, since, .asked⟩ =>
    some (c.setPoll j (some ⟨query, since, .answered (query.run l c.threadId since)⟩))
  | some ⟨query, since, .counting rows⟩ =>
    some (c.setPoll j (some ⟨query, since, .counted rows (threadMessageCount l c.threadId)⟩))
  | some ⟨_, _, .answered _⟩ | some ⟨_, _, .counted ..⟩ | none => none

/-- A poll is over; the handler awaits the first one before it arms the timers. -/
def settle (c : Connection) (j : ℕ) : Connection :=
  { c.setPoll j none with session := if j = 0 then c.session.arm else c.session }

/-- The row loop and `recordSuccess` after it. -/
def deliver (c : Connection) (j : ℕ) (rows : List Message) (sinks : List Sink) : Connection :=
  let written := writeRows c.session c.cursor rows sinks
  settle
    { c with
      session := written.session, cursor := written.cursor
      signal := if written.finished then c.signal.recordSuccess else c.signal } j

def announce (c : Connection) (notice : BackfillNotice) (sink : Sink) : Connection :=
  if c.session.live then { c with session := c.session.write sink (.event (.backfill notice)) }
  else c

/-- The continuation of a poll, once what it awaited is there; the notice goes to the
first sink and each row to one of the others. -/
def resume (c : Connection) (j : ℕ) (notice : Sink) (sinks : List Sink) : Option Connection :=
  match c.polls j with
  | some ⟨query, since, .answered rows⟩ =>
    if c.isBackfill then
      some { c.setPoll j (some ⟨query, since, .counting rows⟩) with isBackfill := false }
    else some (c.deliver j rows sinks)
  | some ⟨_, _, .counted rows total⟩ =>
    some ((c.announce (backfillNotice rows total) notice).deliver j rows sinks)
  | some ⟨_, _, .asked⟩ | some ⟨_, _, .counting _⟩ | none => none

def updatesDelayed : Frame Event :=
  .error "Updates may be delayed"
    ("This stream has been unable to reach the message store for a while. " ++
      "It is still connected and will resume automatically once the problem clears.")

def fail (c : Connection) (j : ℕ) (sink : Sink) : Option Connection :=
  match c.polls j with
  | some _ =>
    let (crossed, signal) := c.signal.recordFailure (failureThresholdFor chatStreamPollMs)
    let session := if crossed && c.session.live then c.session.write sink updatesDelayed
      else c.session
    some (settle { c with session, signal } j)
  | none => none

end Connection

inductive ConnectionMove where
  | tick
  | execute (j : ℕ)
  | resume (j : ℕ) (notice : Sink) (sinks : List Sink)
  | fail (j : ℕ) (sink : Sink)
  | heartbeat (sink : Sink)
  | drain
  | revoke
  | expire
  | close
  deriving DecidableEq

def Connection.step (l : Messages) (c : Connection) : ConnectionMove → Option Connection
  | .tick => c.tick
  | .execute j => c.execute l j
  | .resume j notice sinks => c.resume j notice sinks
  | .fail j sink => c.fail j sink
  | .heartbeat sink =>
    if c.session.ticking then some { c with session := c.session.heartbeat sink } else none
  | .drain => some { c with session := c.session.drain }
  | .revoke => some { c with session := c.session.revoke }
  | .expire => some { c with session := c.session.expire }
  | .close => some { c with session := c.session.close }

structure State where
  messages : Messages
  connection : Connection

inductive Move where
  | database (a : Ledger.Action Message)
  | connection (m : ConnectionMove)
  deriving DecidableEq

/-- One connection beside all the transactions on `chat_messages`. -/
def stream : Machine State Move where
  initial s := ∃ threadId lastEventId, s.connection = Connection.start threadId lastEventId
  step s
    | .database a => (s.messages.act a).map fun messages => { s with messages }
    | .connection m =>
      (s.connection.step s.messages m).map fun connection => { s with connection }

end Hill90.Stream
