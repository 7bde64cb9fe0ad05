import Hill90.Events.Value
import Hill90.Foundation.Blank
import Hill90.Foundation.Utf8
import Hill90.Router.Record

/-! # The usage tee beside a stream

`proxy.py` passes each chunk of LiteLLM's answer on and then reads it for usage: it keeps the text
of an unfinished event, cuts events at blank lines and parses their data.
-/

namespace Hill90.Router.Tee

open Events (split)
open Python (strip)
open Utf8 (Bytes decode)

abbrev Text := List Char

/-- What `json.loads` ends in: a value, a `ValueError`, or another exception. -/
inductive Loaded where
  | value (v : Json)
  | valueError
  | raised (message : String)

def Loaded.harmless : Loaded → Bool
  | .value (.object _) | .valueError => true
  | _ => false

theorem Loaded.cases_harmless {loaded : Loaded} (h : loaded.harmless = true) :
    loaded = .valueError ∨ ∃ members, loaded = .value (.object members) := by
  match loaded, h with
  | .valueError, _ => exact .inl rfl
  | .value (.object members), _ => exact .inr ⟨members, rfl⟩

def normalise : Text → Text
  | '\r' :: '\n' :: cs => '\n' :: normalise cs
  | '\r' :: cs => '\n' :: normalise cs
  | c :: cs => c :: normalise cs
  | [] => []

/-- `normalised.split("\n\n")`, the parts before the last and the last. -/
def splitEvents : Text → List Text × Text
  | '\n' :: '\n' :: cs =>
    let rest := splitEvents cs
    ([] :: rest.1, rest.2)
  | c :: cs =>
    match splitEvents cs with
    | ([], last) => ([], c :: last)
    | (part :: parts, last) => ((c :: part) :: parts, last)
  | [] => ([], [])

def parseSseEvents (buffer : Text) : List Text × Text :=
  let parts := splitEvents (normalise buffer)
  (parts.1.filter fun part => !(strip part).isEmpty, parts.2)

/-- What a text goes on with behind this beginning. -/
def behind : Text → Text → Option Text
  | [], text => some text
  | _ :: _, [] => none
  | p :: start, c :: cs => if p = c then behind start cs else none

def dataOf (line : Text) : Option Text :=
  (behind "data:".toList line).map fun payload => (behind [' '] payload).getD payload

def done : Text := "[DONE]".toList

def member (key : String) (default : Json) : Json → Json
  | .object members => (members.lookup key).getD default
  | _ => default

def truthy : Json → Bool
  | .null => false
  | .bool b => b
  | .number q => q ≠ 0
  | .text s => s ≠ ""
  | .array items => !items.isEmpty
  | .object members => !members.isEmpty

structure Tokens where
  input : Json := .number 0
  output : Json := .number 0

def count (key : String) (usage : Json) : Json :=
  let v := member key (.number 0) usage
  if truthy v then v else .number 0

def usageOf (parsed : Json) : Option Json :=
  match member "usage" .null parsed with
  | .object (m :: ms) => some (.object (m :: ms))
  | _ => none

/-- The data of an event, unless there is none of it or it says that the answer is whole. -/
def payload (event : Text) : Option Text :=
  match (split event).filterMap dataOf with
  | [] => none
  | data =>
    let joined := ['\n'].intercalate data
    if strip joined = done then none else some joined

section Source

variable (loads : Text → Loaded)

def extractUsage (event : Text) : Except Failure (Option Json) :=
  match payload event with
  | none => .ok none
  | some joined =>
    match loads joined with
    | .valueError => .ok none
    | .raised message => .error (.exception message)
    | .value (.object members) => .ok (usageOf (.object members))
    | .value _ => .error (.exception "object has no attribute 'get'")

structure State where
  buffer : Text := []
  tokens : Tokens := {}

def record (tokens : Tokens) : Option Json → Tokens
  | some usage => ⟨count "prompt_tokens" usage, count "completion_tokens" usage⟩
  | none => tokens

/-- The events one after the other, until one cannot be read. -/
def readEvents : List Text → Tokens → Tokens × Option Failure
  | [], tokens => (tokens, none)
  | event :: events, tokens =>
    match extractUsage loads event with
    | .error e => (tokens, some e)
    | .ok usage => readEvents events (record tokens usage)

/-- The tee of one chunk. -/
def State.read (s : State) (chunk : Bytes) : State × Option Failure :=
  let parsed := parseSseEvents (s.buffer ++ decode chunk)
  let outcome := readEvents loads parsed.1 s.tokens
  (⟨parsed.2, outcome.1⟩, outcome.2)

def tally : List Bytes → State → Tokens
  | [], s => s.tokens
  | chunk :: chunks, s =>
    match s.read loads chunk with
    | (s, some _) => s.tokens
    | (s, none) => tally chunks s

/-- How LiteLLM's answer ends: it is complete, or an exception breaks it off. -/
inductive Ending where
  | complete
  | raised (e : Failure)
  deriving DecidableEq

/-- `_generate`: each chunk is passed on, and then read. -/
def generate : List Bytes → Ending → State → List Bytes × Ending
  | [], ending, _ => ([], ending)
  | chunk :: chunks, ending, s =>
    match s.read loads chunk with
    | (_, some e) => ([chunk], .raised e)
    | (s, none) =>
      let rest := generate chunks ending s
      (chunk :: rest.1, rest.2)

def bytes (s : String) : Bytes := s.toList.map fun c => UInt8.ofNat c.toNat

/-- `stream_error_event`, for a `json.dumps` that escapes what is not ASCII and a text of the
exception's class and message. -/
def streamErrorEvent (dumps : Json → String) (describe : Failure → String) (e : Failure) : Bytes :=
  let payload := Json.object [("error", .object [
    ("message", .text ("upstream stream ended before completion: " ++
      String.ofList ((describe e).toList.take 200))),
    ("type", .text "upstream_stream_error"),
    ("code", .text "stream_incomplete")])]
  bytes ("data: " ++ dumps payload ++ "\n\n")

/-- What comes after the chunks of an answer that ends so: an exception is marked by a last event,
a cancellation goes on. -/
def closing (errorEvent : Failure → Bytes) : Ending → List Bytes × Ending
  | .complete => ([], .complete)
  | .raised e => if e.isException then ([errorEvent e], .complete) else ([], .raised e)

/-- `_stream_and_log`, to a consumer that takes it all. -/
def streamAndLog (errorEvent : Failure → Bytes) (chunks : List Bytes) (ending : Ending) :
    List Bytes × Ending :=
  let (sent, ended) := generate loads chunks ending {}
  let (mark, ended) := closing errorEvent ended
  (sent ++ mark, ended)

/-- The events that a series of chunks completes, in the cuts of these chunks. -/
def events : Text → List Bytes → List Text
  | _, [] => []
  | buffer, chunk :: chunks =>
    let parsed := parseSseEvents (buffer ++ decode chunk)
    parsed.1 ++ events parsed.2 chunks

/-- The data of the event is no JSON or a JSON object. -/
def Harmless (event : Text) : Prop := ∀ joined ∈ payload event, (loads joined).harmless = true

instance (event : Text) : Decidable (Harmless loads event) := Option.decidableForallMem _

theorem extractUsage_of_harmless {event : Text} (h : Harmless loads event) :
    ∃ usage, extractUsage loads event = .ok usage := by
  unfold extractUsage
  cases hp : payload event with
  | none => exact ⟨none, rfl⟩
  | some joined =>
    obtain hl | ⟨members, hl⟩ := Loaded.cases_harmless (h joined hp)
    · exact ⟨none, by simp only [hl]⟩
    · exact ⟨usageOf (.object members), by simp only [hl]⟩

theorem readEvents_of_harmless {events : List Text} (tokens : Tokens)
    (h : ∀ event ∈ events, Harmless loads event) : (readEvents loads events tokens).2 = none := by
  induction events generalizing tokens with
  | nil => rfl
  | cons event events ih =>
    obtain ⟨usage, husage⟩ := extractUsage_of_harmless loads (h event List.mem_cons_self)
    rw [readEvents, husage]
    exact ih _ fun e he => h e (List.mem_cons_of_mem _ he)

/-- The tee of a chunk fails at an event that it completes, or not at all. -/
theorem State.read_of_harmless (s : State) (chunk : Bytes)
    (h : ∀ event ∈ (parseSseEvents (s.buffer ++ decode chunk)).1, Harmless loads event) :
    ∃ tokens, s.read loads chunk =
      (⟨(parseSseEvents (s.buffer ++ decode chunk)).2, tokens⟩, none) :=
  ⟨_, Prod.ext rfl (readEvents_of_harmless loads s.tokens h)⟩

theorem generate_of_harmless {chunks : List Bytes} (ending : Ending) {s : State}
    (h : ∀ event ∈ events s.buffer chunks, Harmless loads event) :
    generate loads chunks ending s = (chunks, ending) := by
  induction chunks generalizing s with
  | nil => rfl
  | cons chunk chunks ih =>
    obtain ⟨tokens, hread⟩ :=
      s.read_of_harmless loads chunk fun event he => h event (List.mem_append_left _ he)
    have hrest := ih (s := ⟨_, tokens⟩) fun event he => h event (List.mem_append_right _ he)
    rw [generate, hread]
    exact congrArg (fun r : List Bytes × Ending => (chunk :: r.1, r.2)) hrest

/-- What the consumer receives is what LiteLLM sends, in order, and then a mark exactly where an
exception has broken it off. -/
theorem stream_marked {chunks : List Bytes} (ending : Ending) (errorEvent : Failure → Bytes)
    (h : ∀ event ∈ events [] chunks, Harmless loads event) :
    streamAndLog loads errorEvent chunks ending =
      (chunks ++ (closing errorEvent ending).1, (closing errorEvent ending).2) := by
  rw [streamAndLog, generate_of_harmless loads ending (s := {}) h]

end Source

def loadsEmpty (text : Text) : Loaded :=
  if text = ['\x7b', '\x7d'] then .value (.object []) else .valueError

def dumpsReadError (_ : Json) : String :=
  "\x7b\"error\": \x7b\"message\": \"upstream stream ended before completion: ReadError: \", " ++
    "\"type\": \"upstream_stream_error\", \"code\": \"stream_incomplete\"\x7d\x7d"

def markReadError : Failure → Bytes := streamErrorEvent dumpsReadError fun _ => "ReadError: "

theorem stream_marked_broken :
    streamAndLog loadsEmpty markReadError [bytes "data: \x7b\x7d\n", bytes "\n"]
        (.raised (.exception "ReadError: ")) =
      ([bytes "data: \x7b\x7d\n", bytes "\n", markReadError (.exception "ReadError: ")], .complete) :=
  stream_marked loadsEmpty _ _ (by decide +kernel)

/-- An answer that breaks off ends in more than LiteLLM has sent, and as if it were complete. -/
theorem broken_stream_grows :
    let chunks := [bytes "data: \x7b\x7d\n\n"]
    let delivered := streamAndLog loadsEmpty markReadError chunks (.raised (.exception "ReadError: "))
    ¬(delivered.1.flatten = chunks.flatten ∧
      (delivered.2 = .complete ↔ Ending.raised (.exception "ReadError: ") = .complete)) := by
  decide +kernel

end Hill90.Router.Tee
