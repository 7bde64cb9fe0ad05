import Hill90.Foundation.Interleaving
import Hill90.Chat.Routes

/-! # The chat server

The requests of the chat routes, the callbacks and the ticks of the sweeper, each a
program of its own, interleaved at their statements over one store.  From outside the
clock moves on and the table of agents changes in any way.
-/

namespace Hill90.Chat

inductive Request where
  | createThread (req : CreateRequest)
  | sendMessage (req : SendRequest)
  | cancel (user : User) (threadId : Uuid)
  | getThread (user : User) (threadId : Uuid) (limit beforeSeq : Option ℕ)
  | updateThread (user : User) (threadId : Uuid) (title : Option (Option String))
      (leadAgentId : Option (Option Uuid))
  | deleteThread (user : User) (threadId : Uuid)
  | updateParticipants (user : User) (threadId : Uuid) (add : Option (List Uuid))
      (remove : List Uuid)
  | stopAgent (agentUuid : Uuid)
  | sweep
  | callback (req : CallbackRequest)
  deriving DecidableEq, Repr

def Request.handler (cfg : Config) : Request → Handler Response
  | createThread req => Chat.createThread cfg req
  | sendMessage req => Chat.sendMessage cfg req
  | cancel user threadId => cancelMessages user threadId
  | getThread user threadId limit beforeSeq => Chat.getThread user threadId limit beforeSeq
  | updateThread user threadId title leadAgentId => Chat.updateThread user threadId title leadAgentId
  | deleteThread user threadId => Chat.deleteThread user threadId
  | updateParticipants user threadId add remove => Chat.updateParticipants user threadId add remove
  | stopAgent agentUuid => Chat.stopAgent cfg agentUuid
  | sweep => sweepStale
  | callback req => chatCallbackHandler cfg req

inductive Surroundings where
  | tick (ms : ℕ)
  | agents (table : Table Agent.id)

def Surroundings.change (s : Store) : Surroundings → Store
  | tick ms => { s with now := s.now + ms }
  | agents table => { s with agents := table }

abbrev ChatMove := Move Failure Request Choice Surroundings

abbrev State := System Statement Statement.Rows Failure Request Response Store

def service (cfg : Config) :
    Service Statement Statement.Rows Failure Request Response Store Choice Surroundings where
  fresh s := s.messages.rows = [] ∧ s.threads.rows = [] ∧ s.participants.rows = []
  handler := Request.handler cfg
  run := Statement.run
  environment s x := some (x.change s)

abbrev server (cfg : Config) : Machine State ChatMove := (service cfg).machine

/-! A small setting: two running agents, one user, and no chat yet. -/

namespace Sample

def config : Config := { chatCallbackToken := some "token" }

def ann : Agent :=
  { id := 1, agentId := "ann", status := "running", workToken := some "a", createdBy := 3 }

def bob : Agent :=
  { id := 2, agentId := "bob", status := "running", workToken := some "b", createdBy := 3 }

def user : User := ⟨3, false⟩

def start : State :=
  ⟨{ agents := ⟨[ann, bob], by decide⟩, nextId := 10 }, fun _ => none, 0⟩

/-- The thread gets id 10, its first message 11 and the placeholders 12 and 13. -/
def openThread (agentIds : List Uuid) : Request :=
  .createThread { user, agentIds, message := some "hi" }

def callback (id : Uuid) (status content : String) : Request :=
  .callback ⟨some "Bearer token",
    { messageId := some id, status := some status, content := some content }⟩

/-- A request arrives as number `i` and has `n` of its statements answered. -/
def serve (i : ℕ) (q : Request) (n : ℕ) : List ChatMove :=
  .arrive q :: List.replicate n (.resume i {})

def after (moves : List ChatMove) : State := (server config).after start moves

def accepts (moves : List ChatMove) : Bool := ((server config).exec start moves).isSome

theorem fresh_start : (server config).initial start := ⟨⟨rfl, rfl, rfl⟩, rfl, rfl⟩

theorem run {moves moves' : List ChatMove} (h : accepts (moves ++ moves') = true) :
    (server config).Run (after moves) moves' (after (moves ++ moves')) :=
  Machine.run_after_append h

theorem step {moves : List ChatMove} {a : ChatMove} (h : accepts (moves ++ [a]) = true) :
    (server config).step (after moves) a = some (after (moves ++ [a])) :=
  Machine.step_after h

theorem reachable {moves : List ChatMove} (h : accepts moves = true) :
    (server config).Reachable (after moves) := ⟨start, moves, fresh_start, Machine.run_after h⟩

end Sample

end Hill90.Chat
