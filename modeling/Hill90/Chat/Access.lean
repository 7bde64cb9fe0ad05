import Hill90.Foundation.Widening
import Hill90.Chat.Server

/-! # The routes that reach into the containers of agents

The event log, the screenshot and the browser of an agent are served by routes of a thread,
its terminal by a proxy of its own.  Each looks up the agents of the thread by a query of its
own: the event route asks for active ones, the others do not.  A stream and a terminal last
from the first connection to the last, as one statement.
-/

namespace Hill90.Chat

open Program

def maxEventTail : ℕ := 5000

structure Event where
  correlationId : Option Uuid := none
  messageId : Option Uuid := none
  timestamp : String := ""
  deriving DecidableEq

/-- `event.correlation_id || event.metadata?.message_id`. -/
def Event.cid (e : Event) : Option Uuid := e.correlationId.or e.messageId

inductive BrowserAction where
  | click (xPercent yPercent : Option ℤ)
  | element (xPercent yPercent : Option ℤ)
  | navigate (url : Option String)
  | history (action : String)
  | scroll (deltaX deltaY : ℤ)
  | type (text : Option String)
  | keypress (key : Option String)
  deriving DecidableEq

namespace BrowserAction

def name : BrowserAction → String
  | click .. => "click"
  | element .. => "element"
  | navigate _ => "navigate"
  | history _ => "history"
  | scroll .. => "scroll"
  | type _ => "type"
  | keypress _ => "keypress"

def refusal : BrowserAction → Option String
  | click x y | element x y =>
    if x.isNone || y.isNone then some "x_percent and y_percent required" else none
  | navigate url => if (orNull url).isNone then some "url required" else none
  | history action =>
    if action ∉ ["back", "forward", "reload"] then some "action must be back|forward|reload"
    else none
  | scroll .. => none
  | type text => if text.isNone then some "text required" else none
  | keypress key => if (orNull key).isNone then some "key required" else none

end BrowserAction

/-- A statement to a container names the thread it is sent for. -/
inductive AccessStatement where
  | isHumanOf (threadId userSub : Uuid)
  | selectAgentParticipants (threadId : Uuid)
  | selectMessageIds (threadId : Uuid)
  | selectRunningAgent (threadId : Uuid)
  | tailEvents (threadId : Uuid) (agentId : String) (tail : ℕ)
  | followEvents (threadId : Uuid) (agentIds : List String) (tail : ℕ)
  | getScreenshot (threadId : Uuid) (agentId : String)
  | postBrowser (threadId : Uuid) (agentId : String) (action : BrowserAction)
  | relayTerminal (threadId : Uuid) (agentId : String) (workToken : Option String)
  deriving DecidableEq

structure AgentParticipant where
  participantId : Uuid
  agentId : String
  status : String
  deriving DecidableEq

structure RunningAgent where
  agentId : String
  workToken : Option String
  deriving DecidableEq

namespace AccessStatement

def Rows : AccessStatement → Type
  | isHumanOf .. => Bool
  | selectAgentParticipants _ => List AgentParticipant
  | selectMessageIds _ => List Uuid
  | selectRunningAgent _ => Option RunningAgent
  | tailEvents .. => List Event
  | followEvents .. => Unit
  | getScreenshot .. => ℕ × String
  | postBrowser .. => ℕ × String
  | relayTerminal .. => Unit

end AccessStatement

/-- What the containers answer, and which row `LIMIT 1` takes. -/
structure AccessChoice extends Choice where
  row : ℕ := 0
  events : String → List Event := fun _ => []
  answer : ℕ × String := (200, "")

def Store.agentsEver (s : Store) (threadId : Uuid) : List Uuid :=
  (s.participants.rows.filter fun p =>
    p.threadId = threadId && p.participantType = .agent).map (·.participantId)

/-- The running agents among these, as the JOIN with `agents` returns them. -/
def Store.running (s : Store) (ids : List Uuid) : List RunningAgent :=
  ids.filterMap fun id => (s.agent? id).bind fun a =>
    if a.status = "running" then some ⟨a.agentId, a.workToken⟩ else none

def AccessStatement.run (s : Store) (c : AccessChoice) :
    (st : AccessStatement) → Except Failure (st.Rows × Store)
  | .isHumanOf threadId userSub =>
    .ok (s.participants.rows.any fun p =>
      p.threadId = threadId && p.participantId = userSub && p.participantType = .human, s)
  | .selectAgentParticipants threadId =>
    .ok ((s.activeAgents threadId).filterMap fun id =>
      (s.agent? id).map fun a => ⟨id, a.agentId, a.status⟩, s)
  | .selectMessageIds threadId => .ok ((s.threadMessages threadId).map (·.id), s)
  | .selectRunningAgent threadId =>
    let rows := s.running (s.agentsEver threadId)
    .ok (rows[c.row % rows.length]?, s)
  | .tailEvents _ agentId _ => .ok (c.events agentId, s)
  | .followEvents .. => .ok ((), s)
  | .getScreenshot .. => .ok (c.answer, s)
  | .postBrowser .. => .ok (c.answer, s)
  | .relayTerminal .. => .ok ((), s)

inductive AccessBody where
  | error (text : String)
  | events (events : List Event)
  | forwarded (text : String)
  | closed
  deriving DecidableEq

structure AccessResponse where
  status : ℕ
  body : AccessBody
  deriving DecidableEq

abbrev PortalStatement := Statement ⊕ AccessStatement

abbrev PortalRows : PortalStatement → Type := Sum.elim Statement.Rows AccessStatement.Rows

abbrev PortalHandler := Program PortalStatement PortalRows Failure

namespace Access

abbrev ask (s : AccessStatement) : PortalHandler s.Rows :=
  Program.query (Sum.inr s : PortalStatement)

def readTooLarge : Failure := .error "ReadTooLargeError"

def timedOut : Failure := .error "TimeoutError"

def notFound : AccessResponse := ⟨404, .error "Thread not found"⟩

/-- The one-shot read: the logs in turn, the first that is too large ends it. -/
def readEvents (threadId : Uuid) (tail : ℕ) (threadMessageIds : List Uuid) :
    List String → List Event → List String → PortalHandler AccessResponse
  | [], allEvents, failedAgents =>
    if failedAgents.isEmpty then
      pure ⟨200, .events (allEvents.insertionSort fun a b => a.timestamp ≤ b.timestamp)⟩
    else pure ⟨502, .error "Failed to read events from one or more agents"⟩
  | agentId :: agentIds, allEvents, failedAgents => do
    let read : Except Failure (List Event) ← tryCatch
      (do let events : List Event ← ask (.tailEvents threadId agentId tail); pure (.ok events))
      fun err => pure (.error err)
    match read with
    | .ok events =>
      let kept := events.filter fun e => e.cid.any fun id => id ∈ threadMessageIds
      readEvents threadId tail threadMessageIds agentIds (allEvents ++ kept) failedAgents
    | .error err =>
      if err = readTooLarge then pure ⟨413, .error "Event log too large"⟩
      else readEvents threadId tail threadMessageIds agentIds allEvents (failedAgents ++ [agentId])

/-- `GET /threads/:id/events`. -/
def threadEvents (user : User) (threadId : Uuid) (follow : Bool) (parsedTail : Option ℤ) :
    PortalHandler AccessResponse :=
  tryCatch (do
    if !(← (isParticipant threadId user).widen) then pure notFound
    else do
      let agentParticipants : List AgentParticipant ← ask (.selectAgentParticipants threadId)
      let runningAgents := agentParticipants.filter fun a => a.status = "running"
      if runningAgents.isEmpty then pure ⟨409, .error "No running agents in thread"⟩
      else do
        let threadMessageIds : List Uuid ← ask (.selectMessageIds threadId)
        let tail := parsedTail.elim 20 fun n => (max 0 (min n maxEventTail)).toNat
        let agentIds := runningAgents.map (·.agentId)
        if follow then do
          -- the headers are out: an error closes the stream and changes no answer
          tryCatch (ask (.followEvents threadId agentIds tail)) fun _ => pure ()
          pure ⟨200, .closed⟩
        else readEvents threadId tail threadMessageIds agentIds [] [])
    fun _ => pure ⟨500, .error "Failed to get thread events"⟩

/-- `GET /threads/:id/screenshot`. -/
def screenshot (user : User) (threadId : Uuid) : PortalHandler AccessResponse :=
  tryCatch (do
    if !(← (isParticipant threadId user).widen) then pure notFound
    else do
      let row : Option RunningAgent ← ask (.selectRunningAgent threadId)
      match row with
      | none => pure ⟨404, .error "No running agent in thread"⟩
      | some agent =>
        let (status, data) : ℕ × String ← ask (.getScreenshot threadId agent.agentId)
        pure ⟨status, .forwarded data⟩)
    fun err =>
      if err = timedOut then pure ⟨504, .error "Agentbox screenshot timed out"⟩
      else pure ⟨502, .error "Failed to get screenshot from agentbox"⟩

/-- The seven `POST /threads/:id/browser-*`. -/
def proxyBrowserAction (user : User) (threadId : Uuid) (action : BrowserAction) :
    PortalHandler AccessResponse :=
  match action.refusal with
  | some text => pure ⟨400, .error text⟩
  | none => do
    if !(← (isParticipant threadId user).widen) then pure notFound
    else do
      let row : Option RunningAgent ← ask (.selectRunningAgent threadId)
      match row with
      | none => pure ⟨404, .error "No running agent in thread"⟩
      | some agent =>
        tryCatch (do
          let (status, data) : ℕ × String ← ask (.postBrowser threadId agent.agentId action)
          pure ⟨status, .forwarded data⟩)
          fun err =>
            if err = timedOut then pure ⟨504, .error ("Browser " ++ action.name ++ " timed out")⟩
            else pure ⟨502, .error ("Failed to forward " ++ action.name ++ " to agentbox")⟩

/-- The upgrade of a terminal, after its origin, its token and the expiry of the token were
looked at. -/
structure Upgrade where
  threadId : Uuid
  originAllowed : Bool
  user : Option User
  expired : Bool := false
  deriving DecidableEq

/-- Whether a human who is not an admin was ever put into the thread. -/
def mayEnter (threadId : Uuid) (user : User) : PortalHandler Bool :=
  if user.admin then pure true else ask (.isHumanOf threadId user.sub)

/-- `attachTerminalProxy`; an error destroys the socket. -/
def terminal (req : Upgrade) : PortalHandler AccessResponse :=
  tryCatch (
    if !req.originAllowed then pure ⟨403, .closed⟩
    else
      match req.user with
      | none => pure ⟨401, .closed⟩
      | some user =>
        if req.expired then pure ⟨401, .closed⟩
        else do
          let allowed ← mayEnter req.threadId user
          if !allowed then pure ⟨403, .closed⟩
          else do
            let row : Option RunningAgent ← ask (.selectRunningAgent req.threadId)
            match row with
            | none => pure ⟨404, .closed⟩
            | some agent => do
              ask (.relayTerminal req.threadId agent.agentId agent.workToken)
              pure ⟨101, .closed⟩)
    fun _ => pure ⟨0, .closed⟩

end Access

inductive AccessRequest where
  | events (user : User) (threadId : Uuid) (follow : Bool) (parsedTail : Option ℤ)
  | screenshot (user : User) (threadId : Uuid)
  | browser (user : User) (threadId : Uuid) (action : BrowserAction)
  | terminal (req : Access.Upgrade)
  deriving DecidableEq

def AccessRequest.handler : AccessRequest → PortalHandler AccessResponse
  | events user threadId follow parsedTail => Access.threadEvents user threadId follow parsedTail
  | screenshot user threadId => Access.screenshot user threadId
  | browser user threadId action => Access.proxyBrowserAction user threadId action
  | terminal req => Access.terminal req

abbrev PortalRequest := Request ⊕ AccessRequest

abbrev PortalResponse := Response ⊕ AccessResponse

def PortalRequest.handler (cfg : Config) : PortalRequest → PortalHandler PortalResponse
  | .inl q => do
    let r ← (q.handler cfg).widen
    pure (.inl r)
  | .inr q => do
    let r ← q.handler
    pure (.inr r)

def PortalStatement.run (s : Store) (c : AccessChoice) :
    (st : PortalStatement) → Except Failure (PortalRows st × Store)
  | .inl st => st.run s c.toChoice
  | .inr st => st.run s c

/-- The `agent_id` of an agent never changes, and no id is given twice. -/
def Store.named (slug : Uuid → String) (s : Store) : Bool :=
  s.agents.rows.all fun a => a.agentId = slug a.id

def portalService (slug : Uuid → String) (cfg : Config) :
    Service PortalStatement PortalRows Failure PortalRequest PortalResponse Store AccessChoice
      Surroundings where
  fresh s := ((service cfg).fresh s) ∧ s.named slug = true
  handler := PortalRequest.handler cfg
  run := PortalStatement.run
  environment s x := if (x.change s).named slug then some (x.change s) else none

abbrev PortalMove := Move Failure PortalRequest AccessChoice Surroundings

abbrev PortalState := System PortalStatement PortalRows Failure PortalRequest PortalResponse Store

abbrev portal (slug : Uuid → String) (cfg : Config) : Machine PortalState PortalMove :=
  (portalService slug cfg).machine

end Hill90.Chat
