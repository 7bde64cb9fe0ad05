import Hill90.Agentbox.ToolLoop

/-! # The conversation of the tool loop

The messages that each request to the model carries.  The loop adds an assistant message with its
tool calls and one tool message for each of these, and adds up the tokens of the answers.
-/

namespace Hill90.Agentbox.ToolLoop

open Router (Json)

/-! ## The source -/

section Source

variable (py : Interpreter) (refusal : String → String) (chat : Chat) (w : World)

structure Conversation where
  requests : List (List Json) := []
  deliveries : List Delivery
  outcome : Option Bool

end Source

/-! ## Well-formed conversations -/

def isToolMessage (message : Json) : Bool := Json.isText (member "role" .null message) "tool"

def callsOf (message : Json) : Option (List Json) :=
  if Json.isText (member "role" .null message) "assistant" then
    match member "tool_calls" .null message with
    | .array calls => some calls
    | _ => none
  else none

def Answers (call message : Json) : Prop :=
  isToolMessage message = true ∧ member "tool_call_id" .null message = member "id" (.text "") call

def AnsweredBy (calls following : List Json) : Prop :=
  ∃ answers rest, following = answers ++ rest ∧ List.Forall₂ Answers calls answers ∧
    ∀ message ∈ rest.head?, isToolMessage message = false

def WellFormed (messages : List Json) : Prop :=
  ∀ earlier message following, messages = earlier ++ message :: following →
    ∀ calls, callsOf message = some calls → AnsweredBy calls following

/-- The tool calls of the first choice of an answer. -/
def Reply.toolCalls : Reply → Json
  | .answer _ _ (some result) =>
    match member "choices" .null result with
    | .array (choice :: _) => member "tool_calls" .null (member "message" (.object []) choice)
    | _ => .null
  | _ => .null

/-- The next request has the messages of the one before, then the tool calls of the answer to it and
one tool message for each. -/
def Extends (reply : Reply) (before after : List Json) : Prop :=
  ∃ assistant calls answers, reply.toolCalls = .array calls ∧ callsOf assistant = some calls ∧
    List.Forall₂ Answers calls answers ∧ after = before ++ assistant :: answers

def Reply.tokens (key : String) : Reply → ℚ
  | .answer 200 _ (some result) =>
    match member "choices" .null result with
    | .array (_ :: _) => (number (member key (.number 0) (member "usage" (.object []) result))).getD 0
    | _ => 0
  | _ => 0

/-- The tokens of the answers to the first `n` requests from iteration `i` on. -/
def tokensFrom (w : World) (key : String) (i n : ℕ) : ℚ :=
  ((List.range n).map fun k => (w.reply (i + k)).tokens key).sum

section Proofs

variable {py : Interpreter} {refusal : String → String} {chat : Chat} {w : World}
  {tool : ℕ → Except String String} {messages : List Json}

def spent (chat : Chat) (w : World) (key : String) (i : ℕ) : ℚ :=
  if late chat w i then 0 else (w.reply i).tokens key

/-- What holds of the requests and the final callback of a loop that starts from this turn. -/
structure Kept (w : World) (i : ℕ) (turn : Turn) (messages : List Json) (run : Conversation) :
    Prop where
  requests : ∀ request ∈ run.requests, WellFormed request
  first : ∀ request ∈ run.requests.head?, request = messages
  later : ∀ k before after, run.requests[k]? = some before → run.requests[k + 1]? = some after →
    Extends (w.reply (i + k)) before after
  totals : run.outcome.isSome = true → ∃ progress last, run.deliveries = progress ++ [last] ∧
    last.body.status ≠ .thinking ∧
      last.body.inputTokens = turn.inputTokens + tokensFrom w "prompt_tokens" i run.requests.length ∧
        last.body.outputTokens = turn.outputTokens + tokensFrom w "completion_tokens" i run.requests.length

end Proofs

end Hill90.Agentbox.ToolLoop
