import Hill90.Agentbox.Tools

/-! # The tool loop and its callbacks

`_run_tool_loop` asks the model router, runs the tools it names and asks again.  The router answers
as it likes, so what is sent to it is left out; an exception that the loop does not catch ends in
`_run_chat`, which sends no callback.
-/

namespace Hill90.Agentbox.ToolLoop

open Router (Json)

inductive Status where
  | thinking
  | complete
  | error
  deriving DecidableEq, Repr

structure Callback where
  status : Status
  content : Json := .text ""
  model : Json := .null
  inputTokens : ℚ
  outputTokens : ℚ
  errorMessage : Option String := none

structure Delivery where
  body : Callback
  posts : List (Option ℤ)

/-- What `json.loads` does with a text; `raised` is any exception but `JSONDecodeError`. -/
inductive Loaded where
  | value (v : Json)
  | decodeError
  | raised

structure Interpreter where
  str : Json → String
  loads : String → Loaded

/-- What a request to the router ends in; `body` is missing where `resp.json()` raises. -/
inductive Reply where
  | timeout
  | raised (text : String)
  | answer (status : ℤ) (text : String) (body : Option Json)

structure Chat where
  maxIterations : ℕ
  iterationTimeout : ℚ
  model : Json

structure World where
  elapsed : ℕ → ℚ
  reply : ℕ → Reply
  tool : ℕ → ℕ → Except String String
  post : ℕ → ℕ → Option ℤ

/-- What an iteration leaves to the next. -/
structure Turn where
  inputTokens : ℚ := 0
  outputTokens : ℚ := 0
  content : Json := .text ""
  model : Json

inductive Next where
  | done (body : Callback) (success : Bool)
  | again (body : Callback) (turn : Turn)

inductive WorkEvent where
  | completed (success : Bool)
  | failed
  deriving DecidableEq, Repr

section Values

def isObject : Json → Bool
  | .object _ => true
  | _ => false

def isArray : Json → Bool
  | .array _ => true
  | _ => false

def isString : Json → Bool
  | .text _ => true
  | _ => false

def hashable : Json → Bool
  | .array _ | .object _ => false
  | _ => true

def countable : Json → Bool
  | .number _ | .bool _ => true
  | _ => false

def member (key : String) (default : Json) : Json → Json
  | .object members => (members.lookup key).getD default
  | _ => default

def get (key : String) (default v : Json) : Option Json :=
  if isObject v then some (member key default v) else none

def orElse (v default : Json) : Json := if truthy v then v else default

/-- A number that is added to a count. -/
def number : Json → Option ℚ
  | .number q => some q
  | .bool b => some (if b then 1 else 0)
  | _ => none

/-- What `for` goes through. -/
def items : Json → Option (List Json)
  | .array items => some items
  | .text s => some (s.toList.map fun c => .text (.ofList [c]))
  | .object members => some (members.map fun m => .text m.1)
  | _ => none

end Values

section Source

variable (py : Interpreter) (chat : Chat) (w : World)

def formatted : Json → String
  | .text s => s
  | v => py.str v

def cutShortReasons : List (String × String) :=
  [("length", "the model reached its output limit"),
    ("content_filter", "the provider's content filter stopped the response")]

def cutShortReason : Json → Option (Option String)
  | .text s => some (cutShortReasons.lookup s)
  | key => if hashable key then some none else none

def markIncomplete (content finishReason : Json) : Option (Json × Option String) :=
  (cutShortReason (orElse finishReason (.text ""))).map fun reason =>
    match reason with
    | none => (content, none)
    | some reason =>
      let note := "Response incomplete: " ++ reason ++ " (finish_reason=" ++
        formatted py finishReason ++ ")."
      (.text (formatted py content ++ "\n\n[" ++ note ++ " The text above stops mid-answer.]"),
        some note)

/-- `_deliver_callback`: only a terminal callback is sent again, once. -/
def deliver (i : ℕ) (body : Callback) : Delivery :=
  if (w.post i 0).isSome ∨ body.status = .thinking then ⟨body, [w.post i 0]⟩
  else ⟨body, [w.post i 0, w.post i 1]⟩

def Turn.failed (turn : Turn) (message : String) : Next :=
  .done
    { status := .error
      inputTokens := turn.inputTokens
      outputTokens := turn.outputTokens
      errorMessage := some message } false

def parseArguments (raw : Json) : Option Json :=
  match raw with
  | .text s =>
    match py.loads s with
    | .value v => some v
    | .decodeError => some (.object [])
    | .raised => none
  | v => some v

/-- `tool_success`; the text the loop makes of an exception tells of no success. -/
def toolSuccess (outcome : Except String String) : Option Bool :=
  match outcome with
  | .ok result =>
    match py.loads result with
    | .value v => some ((get "success" (.bool false) v).elim false truthy)
    | .decodeError => some false
    | .raised => none
  | .error _ => some false

def runToolCall (outcome : Except String String) (tc : Json) : Option Bool := do
  let _tcId ← get "id" (.text "") tc
  let func ← get "function" (.object []) tc
  let _funcName ← get "name" (.text "") func
  let raw ← get "arguments" (.text "\x7b\x7d") func
  let _funcArgs ← parseArguments py raw
  toolSuccess py outcome

def runToolCalls (tool : ℕ → Except String String) : ℕ → List Json → Option Unit
  | _, [] => some ()
  | j, tc :: calls => do
    let _success ← runToolCall py (tool j) tc
    runToolCalls tool (j + 1) calls

/-- A name that is joined to the others. -/
def summaryName (tc : Json) : Option String := do
  let func ← get "function" (.object []) tc
  let name ← get "name" (.text "?") func
  match name with
  | .text s => some s
  | _ => none

def callsTools (toolCalls finishReason : Json) : Bool :=
  truthy toolCalls && Json.isText finishReason "tool_calls"

def runChoice (tool : ℕ → Except String String) (turn : Turn) (result choice : Json) :
    Option Next := do
  let message ← get "message" (.object []) choice
  let content ← get "content" (.text "") message
  let toolCalls ← get "tool_calls" .null message
  let finishReason ← get "finish_reason" .null choice
  let model ← get "model" chat.model result
  let usage ← get "usage" (.object []) result
  let promptTokens ← (get "prompt_tokens" (.number 0) usage).bind number
  let completionTokens ← (get "completion_tokens" (.number 0) usage).bind number
  let turn' : Turn :=
    ⟨turn.inputTokens + promptTokens, turn.outputTokens + completionTokens,
      orElse content (.text ""), model⟩
  if callsTools toolCalls finishReason then do
    let calls ← items toolCalls
    runToolCalls py tool 0 calls
    let names ← calls.mapM summaryName
    some (.again
      { status := .thinking
        content := .text ("Executed: " ++ ", ".intercalate names)
        model := turn'.model
        inputTokens := turn'.inputTokens
        outputTokens := turn'.outputTokens } turn')
  else do
    let marked ← markIncomplete py turn'.content finishReason
    some (.done
      { status := .complete
        content := marked.1
        model := turn'.model
        inputTokens := turn'.inputTokens
        outputTokens := turn'.outputTokens
        errorMessage := marked.2 } true)

def runIteration (i : ℕ) (turn : Turn) : Option Next :=
  if w.elapsed i > chat.iterationTimeout then
    some (turn.failed ("Tool loop timed out after " ++ toString (w.elapsed i).floor ++ "s"))
  else
    match w.reply i with
    | .timeout => some (turn.failed "Inference timed out")
    | .raised text => some (turn.failed ("Inference error: " ++ clip 200 text))
    | .answer status text body =>
      if status ≠ 200 then
        let detail := if text ≠ "" then clip 200 text else "HTTP " ++ toString status
        some (turn.failed ("Inference failed: " ++ detail))
      else do
        let result ← body
        let choices ← get "choices" .null result
        match choices with
        | .array (choice :: _) => runChoice py chat (w.tool i) turn result choice
        | _ =>
          let error := member "error" .null result
          let detail := if truthy error then clip 200 (formatted py error)
            else "200 response contained no choices: " ++ clip 200 (py.str result)
          some (turn.failed ("Inference returned no completion: " ++ detail))

/-- The callback where no iteration is left. -/
def Turn.exhausted (turn : Turn) : Callback where
  status := .complete
  content := orElse turn.content
    (.text "I reached my tool execution limit. Here's what I found so far.")
  model := turn.model
  inputTokens := turn.inputTokens
  outputTokens := turn.outputTokens

/-- `_run_tool_loop` with `n` iterations left; it returns whether the answer is a real one, or an
exception leaves it. -/
def runToolLoop : ℕ → ℕ → Turn → List Delivery × Option Bool
  | 0, i, turn => ([deliver w i turn.exhausted], some true)
  | n + 1, i, turn =>
    match runIteration py chat w i turn with
    | none => ([], none)
    | some (.done body success) => ([deliver w i body], some success)
    | some (.again body turn) =>
      let rest := runToolLoop n (i + 1) turn
      (deliver w i body :: rest.1, rest.2)

/-- `_run_chat` from where the loop is entered. -/
def runChat : List Delivery × WorkEvent :=
  let run := runToolLoop py chat w chat.maxIterations 0 { model := chat.model }
  (run.1, run.2.elim .failed .completed)

end Source

section Definitions

variable (py : Interpreter) (chat : Chat) (w : World)

/-- A callback is attempted, and again only where the first request raised. -/
def Delivery.Attempted (d : Delivery) : Prop :=
  ∃ first, d.posts = [first] ∨ first = none ∧ ∃ second, d.posts = [first, second]

/-- The callbacks end with a terminal one, before which there are progress callbacks only, and the
work is reported by it. -/
def AnsweredOnce (run : List Delivery × WorkEvent) : Prop :=
  ∃ progress last, run.1 = progress ++ [last] ∧ last.body.status ≠ .thinking ∧
    (∀ d ∈ progress, d.body.status = .thinking) ∧ (∀ d ∈ run.1, d.Attempted) ∧
    run.2 = .completed (last.body.status = .complete)

def loadable (s : String) : Bool :=
  match py.loads s with
  | .raised => false
  | _ => true

def shapedCall (outcome : Except String String) (tc : Json) : Bool :=
  let func := member "function" (.object []) tc
  isObject tc && isObject func && isString (member "name" (.text "?") func) &&
    (match member "arguments" (.text "\x7b\x7d") func with
      | .text s => loadable py s
      | _ => true) &&
    match outcome with
    | .ok result => loadable py result
    | .error _ => true

def shapedCalls (tool : ℕ → Except String String) : ℕ → List Json → Bool
  | _, [] => true
  | j, tc :: calls => shapedCall py (tool j) tc && shapedCalls tool (j + 1) calls

def shapedToolCalls (tool : ℕ → Except String String) : Json → Bool
  | .array calls => shapedCalls py tool 0 calls
  | _ => false

def shapedChoice (tool : ℕ → Except String String) (result choice : Json) : Bool :=
  let message := member "message" (.object []) choice
  let usage := member "usage" (.object []) result
  let toolCalls := member "tool_calls" .null message
  let finishReason := member "finish_reason" .null choice
  isObject choice && isObject message && isObject usage &&
    countable (member "prompt_tokens" (.number 0) usage) &&
    countable (member "completion_tokens" (.number 0) usage) &&
    if callsTools toolCalls finishReason then shapedToolCalls py tool toolCalls
    else hashable finishReason || !truthy finishReason

/-- The answer has status 200 and a body that is an object; where that has choices, the first is
shaped. -/
def shapedReply (tool : ℕ → Except String String) : Reply → Bool
  | .answer 200 _ body =>
    match body with
    | none => false
    | some result =>
      isObject result &&
        match member "choices" .null result with
        | .array (choice :: _) => shapedChoice py tool result choice
        | _ => true
  | _ => true

/-- The answer asks for tools. -/
def Reply.asks : Reply → Bool
  | .answer 200 _ (some result) =>
    match member "choices" .null result with
    | .array (choice :: _) =>
      callsTools (member "tool_calls" .null (member "message" (.object []) choice))
        (member "finish_reason" .null choice)
    | _ => false
  | _ => false

def late (i : ℕ) : Bool := chat.iterationTimeout < w.elapsed i

/-- Iteration `i` is in time, and the answer it gets is shaped, unless one before it is late or gets
an answer that asks for no tools. -/
def Shaped : Prop :=
  ∀ i < chat.maxIterations, (∀ k < i, late chat w k = false ∧ (w.reply k).asks = true) →
    late chat w i = true ∨ shapedReply py (w.tool i) (w.reply i) = true

end Definitions

section Shapes

variable {py : Interpreter} {chat : Chat} {w : World} {tool : ℕ → Except String String}

theorem get_bind {β : Type} (key : String) (default v : Json) (f : Json → Option β) :
    (get key default v).bind f = if isObject v then f (member key default v) else none := by
  unfold get
  split <;> rfl

theorem isSome_number (v : Json) : (number v).isSome = countable v := by
  cases v <;> rfl

theorem isSome_parseArguments (raw : Json) : (parseArguments py raw).isSome =
    match raw with
    | .text s => loadable py s
    | _ => true := by
  cases raw with
  | text s =>
    simp only [parseArguments, loadable]
    cases py.loads s <;> rfl
  | null => rfl
  | bool b => rfl
  | number q => rfl
  | array items => rfl
  | object members => rfl

theorem isSome_toolSuccess (outcome : Except String String) : (toolSuccess py outcome).isSome =
    match outcome with
    | .ok result => loadable py result
    | .error _ => true := by
  cases outcome with
  | ok result =>
    simp only [toolSuccess, loadable]
    cases py.loads result <;> rfl
  | error text => rfl

theorem isSome_markIncomplete (content finishReason : Json) :
    (markIncomplete py content finishReason).isSome =
      (hashable finishReason || !truthy finishReason) := by
  have hreason : ∀ key, (cutShortReason key).isSome = hashable key := by
    intro key
    cases key <;> rfl
  rw [markIncomplete, Option.isSome_map, hreason, orElse]
  cases truthy finishReason
  · simp [hashable]
  · simp

theorem isSome_bind_const {α β : Type} (o : Option α) (p : Option β) :
    (o.bind fun _ => p).isSome = (o.isSome && p.isSome) := by
  cases o <;> rfl

theorem shapedCall_eq (outcome : Except String String) (tc : Json) : shapedCall py outcome tc =
    ((runToolCall py outcome tc).isSome && (summaryName tc).isSome) := by
  simp only [runToolCall, summaryName, shapedCall, Option.bind_eq_bind, get_bind]
  cases isObject tc with
  | false => rfl
  | true =>
    simp only [if_true, Bool.true_and]
    generalize member "function" (.object []) tc = func
    cases isObject func with
    | false => rfl
    | true =>
      simp only [if_true, Bool.true_and, isSome_bind_const, isSome_parseArguments,
        isSome_toolSuccess]
      have hname : ∀ name : Json, isString name =
          (match name with
            | .text s => some s
            | _ => none : Option String).isSome := by
        intro name
        cases name <;> rfl
      rw [hname, Bool.and_assoc, Bool.and_comm]

theorem isSome_runToolCalls (calls : List Json) (j : ℕ) : shapedCalls py tool j calls =
    ((runToolCalls py tool j calls).isSome && (calls.mapM summaryName).isSome) := by
  induction calls generalizing j with
  | nil => rfl
  | cons tc calls ih =>
    simp only [shapedCalls, runToolCalls, List.mapM_cons, Option.bind_eq_bind, isSome_bind_const,
      shapedCall_eq, ih]
    cases summaryName tc with
    | none => simp
    | some name =>
      cases calls.mapM summaryName with
      | none => simp
      | some names => simp

/-- A value that is true and no list is a number, or goes through texts. -/
theorem items_of_not_array (py : Interpreter) (tool : ℕ → Except String String) {v : Json}
    (htruthy : truthy v = true) (harray : isArray v = false) :
    (items v).bind (runToolCalls py tool 0) = none := by
  cases v with
  | null => cases htruthy
  | bool b => rfl
  | number q => rfl
  | array items => cases harray
  | text s =>
    have hs : s.toList ≠ [] := by
      simpa [truthy] using htruthy
    obtain ⟨c, cs, hcs⟩ := List.exists_cons_of_ne_nil hs
    simp [items, hcs, runToolCalls, runToolCall, get, isObject]
  | object members =>
    cases members with
    | nil => cases htruthy
    | cons m members => rfl

theorem isSome_bind_some {α β : Type} (o : Option α) (f : α → β) :
    (o.bind fun a => some (f a)).isSome = o.isSome := by
  cases o <;> rfl

theorem isSome_tools {β : Type} {v : Json} (htruthy : truthy v = true) (f : List String → β) :
    ((items v).bind fun calls => (runToolCalls py tool 0 calls).bind fun _ =>
      (calls.mapM summaryName).bind fun names => some (f names)).isSome =
    shapedToolCalls py tool v := by
  cases harray : isArray v with
  | true =>
    cases v with
    | array calls =>
      simp only [items, Option.bind_some, isSome_bind_const, isSome_bind_some, shapedToolCalls,
        isSome_runToolCalls]
    | null | bool b | number q | text s | object members => cases harray
  | false =>
    have hnone := items_of_not_array py tool htruthy harray
    have hshaped : shapedToolCalls py tool v = false := by
      cases v with
      | array calls => cases harray
      | null | bool b | number q | text s | object members => rfl
    rw [hshaped]
    cases hitems : items v with
    | none => rfl
    | some calls =>
      rw [hitems, Option.bind_some] at hnone
      simp [hnone]

theorem isSome_runChoice {result choice : Json} (hresult : isObject result = true) (turn : Turn) :
    (runChoice py chat tool turn result choice).isSome = shapedChoice py tool result choice := by
  simp only [runChoice, shapedChoice, Option.bind_eq_bind, get_bind, hresult, if_true]
  cases isObject choice with
  | false => rfl
  | true =>
    simp only [if_true, Bool.true_and]
    generalize member "message" (.object []) choice = message
    cases isObject message with
    | false => rfl
    | true =>
      simp only [if_true, Bool.true_and]
      generalize member "usage" (.object []) result = usage
      cases isObject usage with
      | false => rfl
      | true =>
        simp only [if_true, Bool.true_and]
        rw [← isSome_number, ← isSome_number]
        generalize number (member "prompt_tokens" (.number 0) usage) = prompt
        generalize number (member "completion_tokens" (.number 0) usage) = completion
        cases prompt with
        | none => rfl
        | some prompt =>
          cases completion with
          | none => rfl
          | some completion =>
            simp only [Option.bind_some, Option.isSome_some, Bool.true_and]
            generalize member "tool_calls" .null message = toolCalls
            generalize member "finish_reason" .null choice = finishReason
            cases hcalls : callsTools toolCalls finishReason with
            | true =>
              have htruthy : truthy toolCalls = true := by
                unfold callsTools at hcalls
                exact (Bool.and_eq_true_iff.mp hcalls).1
              simp only [if_true]
              exact isSome_tools htruthy _
            | false =>
              simp [isSome_bind_some, isSome_markIncomplete]

/-- A final body is terminal and told as it is, and another iteration comes with progress. -/
def Next.Sound (asks : Bool) : Next → Prop
  | .done body success =>
    asks = false ∧ body.status ≠ .thinking ∧ success = (body.status = .complete : Bool)
  | .again body _ => asks = true ∧ body.status = .thinking

theorem sound_runChoice {result choice : Json} {turn : Turn} {next : Next}
    (h : runChoice py chat tool turn result choice = some next) :
    next.Sound (callsTools (member "tool_calls" .null (member "message" (.object []) choice))
      (member "finish_reason" .null choice)) := by
  simp only [runChoice, Option.bind_eq_bind, get_bind, Option.ite_none_right_eq_some,
    Option.bind_eq_some_iff] at h
  obtain ⟨-, -, -, -, -, -, prompt, -, completion, -, h⟩ := h
  split at h
  · rename_i hcalls
    simp only [Option.bind_eq_some_iff] at h
    obtain ⟨calls, -, -, -, names, -, hnext⟩ := h
    cases hnext
    exact ⟨hcalls, rfl⟩
  · rename_i hcalls
    obtain ⟨marked, -, hnext⟩ := Option.bind_eq_some_iff.mp h
    cases hnext
    exact ⟨by simpa using hcalls, nofun, rfl⟩

theorem late_iff {i : ℕ} : late chat w i = true ↔ w.elapsed i > chat.iterationTimeout := by
  simp [late]

theorem isSome_runIteration (i : ℕ) (turn : Turn) : (runIteration py chat w i turn).isSome =
    (late chat w i || shapedReply py (w.tool i) (w.reply i)) := by
  unfold runIteration
  split
  · rename_i hlate
    simp [late_iff.mpr hlate]
  · rename_i hlate
    have hfalse : late chat w i = false := by
      simpa [late] using hlate
    rw [hfalse, Bool.false_or]
    generalize w.reply i = reply
    cases reply with
    | timeout => rfl
    | raised text => rfl
    | answer status text body =>
      by_cases hstatus : status = 200
      · subst hstatus
        cases body with
        | none => rfl
        | some result =>
          simp only [ne_eq, not_true_eq_false, if_false, Option.bind_eq_bind, Option.bind_some,
            get_bind, shapedReply]
          cases hresult : isObject result with
          | false => rfl
          | true =>
            simp only [if_true, Bool.true_and]
            split
            · exact isSome_runChoice hresult turn
            · rfl
      · have hshaped : shapedReply py (w.tool i) (.answer status text body) = true := by
          unfold shapedReply
          split
          · rename_i heq
            cases heq
            exact (hstatus rfl).elim
          · rfl
        simp only [hshaped, ne_eq, hstatus, not_false_eq_true, if_true, Option.isSome_some]

/-- An iteration fails, late or on an answer without a choice; or its answer has a choice, and the
iteration is what that makes of it. -/
theorem cases_runIteration {i : ℕ} {turn : Turn} {next : Next}
    (h : runIteration py chat w i turn = some next) :
    ((late chat w i = true ∨ ∀ text result choice choices, w.reply i = .answer 200 text (some result) →
          member "choices" .null result ≠ .array (choice :: choices)) ∧
        ∃ message, next = turn.failed message) ∨
      ∃ text result choice choices, late chat w i = false ∧ w.reply i = .answer 200 text (some result) ∧
        member "choices" .null result = .array (choice :: choices) ∧
          runChoice py chat (w.tool i) turn result choice = some next := by
  have hfailed : ∀ {message}, some (turn.failed message) = some next → ∃ message, next = turn.failed message := by
    rintro message ⟨⟩
    exact ⟨message, rfl⟩
  unfold runIteration at h
  split at h
  · rename_i hlate
    exact .inl ⟨.inl (late_iff.mpr hlate), hfailed h⟩
  · rename_i hlate
    have hfalse : late chat w i = false := by
      simpa [late] using hlate
    cases hreply : w.reply i with
    | timeout =>
      rw [hreply] at h
      exact .inl ⟨.inr fun _ _ _ _ heq => (nomatch heq), hfailed h⟩
    | raised text =>
      rw [hreply] at h
      exact .inl ⟨.inr fun _ _ _ _ heq => (nomatch heq), hfailed h⟩
    | answer status text body =>
      rw [hreply] at h
      by_cases hstatus : status = 200
      · subst hstatus
        cases body with
        | none => cases h
        | some result =>
          simp only [ne_eq, not_true_eq_false, if_false, Option.bind_eq_bind, Option.bind_some,
            get_bind, Option.ite_none_right_eq_some] at h
          obtain ⟨-, h⟩ := h
          split at h
          · rename_i choice choices hchoices
            exact .inr ⟨text, result, choice, choices, hfalse, rfl, hchoices, h⟩
          · rename_i hchoices
            refine .inl ⟨.inr fun _ _ choice choices heq => ?_, hfailed h⟩
            cases heq
            exact hchoices choice choices
      · simp only [ne_eq, hstatus, not_false_eq_true, if_true] at h
        refine .inl ⟨.inr fun _ _ _ _ heq => ?_, hfailed h⟩
        cases heq
        exact absurd rfl hstatus

theorem sound_runIteration {i : ℕ} {turn : Turn} {next : Next}
    (h : runIteration py chat w i turn = some next) :
    next.Sound (!late chat w i && (w.reply i).asks) := by
  have hfailed : ∀ {message}, some (turn.failed message) = some next → next.Sound false := by
    rintro message ⟨⟩
    exact ⟨rfl, nofun, rfl⟩
  unfold runIteration at h
  split at h
  · rename_i hlate
    rw [late_iff.mpr hlate]
    exact hfailed h
  · rename_i hlate
    have hfalse : late chat w i = false := by
      simpa [late] using hlate
    rw [hfalse, Bool.not_false, Bool.true_and]
    generalize w.reply i = reply at h
    cases reply with
    | timeout => exact hfailed h
    | raised text => exact hfailed h
    | answer status text body =>
      by_cases hstatus : status = 200
      · subst hstatus
        cases body with
        | none => cases h
        | some result =>
          simp only [ne_eq, not_true_eq_false, if_false, Option.bind_eq_bind, Option.bind_some,
            get_bind, Option.ite_none_right_eq_some] at h
          simp only [Reply.asks]
          obtain ⟨-, h⟩ := h
          split at h
          · exact sound_runChoice h
          · exact hfailed h
      · have hasks : (Reply.answer status text body).asks = false := by
          unfold Reply.asks
          split
          · rename_i heq
            cases heq
            exact (hstatus rfl).elim
          · rfl
        simp only [ne_eq, hstatus, not_false_eq_true, if_true] at h
        rw [hasks]
        exact hfailed h

end Shapes

section Answered

variable {py : Interpreter} {chat : Chat} {w : World}

theorem attempted_deliver (i : ℕ) (body : Callback) : (deliver w i body).Attempted := by
  unfold deliver
  split
  · exact ⟨_, .inl rfl⟩
  · rename_i hagain
    refine ⟨w.post i 0, .inr ⟨?_, w.post i 1, rfl⟩⟩
    simpa using (not_or.mp hagain).1

theorem body_deliver (i : ℕ) (body : Callback) : (deliver w i body).body = body := by
  unfold deliver
  split <;> rfl

theorem answeredOnce_deliver (i : ℕ) {body : Callback} (hstatus : body.status ≠ .thinking) :
    AnsweredOnce ([deliver w i body], .completed (body.status = .complete)) := by
  refine ⟨[], deliver w i body, rfl, ?_, ?_, ?_, ?_⟩
  · rwa [body_deliver]
  · rintro d ⟨⟩
  · intro d hd
    rw [List.mem_singleton] at hd
    rw [hd]
    exact attempted_deliver i body
  · rw [body_deliver]

theorem answeredOnce_cons {d : Delivery} {run : List Delivery × WorkEvent} (hd : d.Attempted)
    (hstatus : d.body.status = .thinking) :
    AnsweredOnce (d :: run.1, run.2) ↔ AnsweredOnce run := by
  constructor
  · rintro ⟨progress, last, hrun, hlast, hprogress, hattempted, hevent⟩
    cases progress with
    | nil =>
      obtain ⟨hhead, -⟩ := List.cons_eq_cons.mp hrun
      rw [hhead] at hstatus
      exact (hlast hstatus).elim
    | cons d' progress =>
      obtain ⟨-, htail⟩ := List.cons_eq_cons.mp hrun
      refine ⟨progress, last, htail, hlast, ?_, ?_, hevent⟩
      · intro d'' hd''
        exact hprogress d'' (.tail _ hd'')
      · intro d'' hd''
        exact hattempted d'' (.tail _ hd'')
  · rintro ⟨progress, last, hrun, hlast, hprogress, hattempted, hevent⟩
    refine ⟨d :: progress, last, ?_, hlast, ?_, ?_, hevent⟩
    · simp [hrun]
    · simpa [hstatus] using hprogress
    · intro d' hd'
      obtain rfl | htail := List.mem_cons.mp hd'
      · exact hd
      · exact hattempted d' htail

/-- What the loop leaves to `_run_chat`. -/
def told (run : List Delivery × Option Bool) : List Delivery × WorkEvent :=
  (run.1, run.2.elim .failed .completed)

def goesOn (chat : Chat) (w : World) (i : ℕ) : Bool := !late chat w i && (w.reply i).asks

def shaped (py : Interpreter) (chat : Chat) (w : World) (i : ℕ) : Bool :=
  late chat w i || shapedReply py (w.tool i) (w.reply i)

/-- The induction is on the iterations that are left. -/
theorem answeredOnce_runToolLoop (n i : ℕ) (turn : Turn) :
    AnsweredOnce (told (runToolLoop py chat w n i turn)) ↔
      ∀ k < n, (∀ m < k, goesOn chat w (i + m) = true) → shaped py chat w (i + k) = true := by
  induction n generalizing i turn with
  | zero =>
    constructor
    · intro _ k hk
      omega
    · intro _
      have hstatus : turn.exhausted.status ≠ .thinking := nofun
      exact answeredOnce_deliver i hstatus
  | succ n ih =>
    have hsome : (runIteration py chat w i turn).isSome = shaped py chat w i :=
      isSome_runIteration i turn
    unfold runToolLoop
    cases hnext : runIteration py chat w i turn with
    | none =>
      rw [hnext] at hsome
      constructor
      · rintro ⟨progress, last, hrun, -⟩
        cases progress <;> cases hrun
      · intro h
        have hfirst := h 0 (by omega) (by simp)
        rw [Nat.add_zero, ← hsome] at hfirst
        cases hfirst
    | some next =>
      rw [hnext] at hsome
      have hsound := sound_runIteration hnext
      cases next with
      | done body success =>
        obtain ⟨hasks, hstatus, rfl⟩ := hsound
        constructor
        · intro _ k _ hgoes
          cases k with
          | zero => exact hsome.symm
          | succ k =>
            have hfirst := hgoes 0 (by omega)
            rw [goesOn, Nat.add_zero, hasks] at hfirst
            cases hfirst
        · intro _
          exact answeredOnce_deliver i hstatus
      | again body turn' =>
        obtain ⟨hasks, hstatus⟩ := hsound
        change AnsweredOnce (deliver w i body :: (told (runToolLoop py chat w n (i + 1) turn')).1,
          (told (runToolLoop py chat w n (i + 1) turn')).2) ↔ _
        have hbody : (deliver w i body).body.status = .thinking := by
          rw [body_deliver]
          exact hstatus
        have hshift : ∀ m, i + 1 + m = i + (m + 1) := by
          intro m
          omega
        rw [answeredOnce_cons (attempted_deliver i body) hbody, ih (i + 1) turn']
        simp only [hshift]
        constructor
        · intro h k hk hgoes
          cases k with
          | zero => exact hsome.symm
          | succ k =>
            apply h k (by omega)
            intro m hm
            exact hgoes (m + 1) (by omega)
        · intro h k hk hgoes
          apply h (k + 1) (by omega)
          intro m hm
          cases m with
          | zero => exact hasks
          | succ m => exact hgoes m (by omega)

/-- A chat ends with one terminal callback, exactly where every answer it comes to is shaped. -/
theorem answeredOnce_iff_shaped : AnsweredOnce (runChat py chat w) ↔ Shaped py chat w := by
  have hloop := @answeredOnce_runToolLoop py chat w chat.maxIterations 0 { model := chat.model }
  simp only [Nat.zero_add, goesOn, shaped, Bool.and_eq_true, Bool.not_eq_true', Bool.or_eq_true]
    at hloop
  exact hloop

end Answered

section Runs

/-- The runs below come to no value or text that it is asked about. -/
def plain : Interpreter where
  str _ := ""
  loads _ := .decodeError

def oneReply (body : Option Json) : World where
  elapsed _ := 0
  reply _ := .answer 200 "" body
  tool _ _ := .ok ""
  post _ _ := some 200

def chat : Chat where
  maxIterations := 15
  iterationTimeout := 600
  model := .text "gpt-4o-mini"

/-- `{"choices": [{"message": null, "finish_reason": "stop"}]}` -/
def nullMessage : Json :=
  .object [("choices", .array [.object [("message", .null), ("finish_reason", .text "stop")]])]

theorem noCallback_not_answered :
    ¬AnsweredOnce (runChat plain chat (oneReply none)) ∧
      ¬AnsweredOnce (runChat plain chat (oneReply (some nullMessage))) := by
  have hnone : ∀ event, ¬AnsweredOnce ([], event) := by
    rintro event ⟨progress, last, hrun, -⟩
    cases progress <;> cases hrun
  constructor
  · exact hnone .failed
  · exact hnone .failed

end Runs

end Hill90.Agentbox.ToolLoop
