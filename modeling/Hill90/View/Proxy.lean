import Hill90.Foundation.Pairs
import Hill90.Router.Record

/-! # The proxy between the pages and the API

`proxyToApi` (`api-proxy.ts`) over the bounded readers of `request-body.ts`: what is sent to the API
for a request of a page, and what the page is answered for the API's response.
-/

namespace Hill90.View.Proxy

open Router (Json)

abbrev Bytes := List UInt8

/-- A `ReadableStream`: its chunks, and the error it breaks with after them. -/
structure Stream where
  chunks : List Bytes
  broken : Option String := none
  deriving DecidableEq

def Stream.bytes (s : Stream) : Bytes := s.chunks.flatten

def bytes (body : Option Stream) : Bytes := (body.map Stream.bytes).getD []

/-- A request of a page; the platform builds no `GET` or `HEAD` request with a body. -/
structure Request where
  method : String
  searchParams : List (String × String)
  contentType : Option String
  contentLength : Option String
  body : Option Stream
  bodiless : method ∈ ["GET", "HEAD"] → body = none

structure Url where
  href : String
  searchParams : List (String × String)
  deriving DecidableEq

structure Outgoing where
  url : Url
  method : String
  headers : List (String × String)
  timeout : Option ℕ
  body : Option String
  deriving DecidableEq

structure Upstream where
  status : ℕ
  contentType : Option String
  contentLength : Option String
  xTotalCount : Option String
  body : Option Stream
  deriving DecidableEq

/-- The platform.  `number` is the number `Number` makes of a text, where it is finite, `parse` the
value a JSON text denotes, `nearest` the double nearest to a number, where it is finite, and `lossy`
what `TextDecoder` makes of bytes that are no UTF-8. -/
structure Platform where
  newUrl : String → Url
  number : String → Option ℚ
  parse : String → Option Json
  nearest : ℚ → Option ℚ
  lossy : Bytes → String

inductive Failure where
  | bodyTooLarge (limit : ℕ)
  | upstreamTooLarge (limit : ℕ)
  | other (message : String)
  deriving DecidableEq

inductive Answer where
  | json (status : ℕ) (data : Json) (headers : List (String × String))
  | stream (status : ℕ) (body : Option Stream) (headers : List (String × String))
  | thrown (e : Failure)

namespace Answer

def status? : Answer → Option ℕ
  | json status _ _ | stream status _ _ => some status
  | thrown _ => none

def data? : Answer → Option Json
  | json _ data _ => some data
  | stream _ _ _ | thrown _ => none

def success (a : Answer) : Prop := ∃ status, a.status? = some status ∧ 200 ≤ status ∧ status ≤ 299

end Answer

structure Exchange where
  sent : Option Outgoing
  answer : Answer

structure Options where
  label : String := "proxy"
  sse : Bool := false

def apiUrl : String := "http://localhost:3000"

def bodyLimitJson : ℕ := 1024 * 1024

def upstreamLimitJson : ℕ := 16 * 1024 * 1024

def noSharedCache : List (String × String) := [("Cache-Control", "private, no-store")]

def forwardedHeaders : List String := ["x-total-count"]

def nullBodyStatus : List ℕ := [101, 103, 204, 205, 304]

def bom : Char := Char.ofNat 0xFEFF

section Source

variable (lib : Platform)

def encode (s : String) : Bytes := s.toByteArray.data.toList

def withoutBom (s : String) : String :=
  match s.toList with
  | c :: cs => if c = bom then String.ofList cs else s
  | [] => s

def decode (bs : Bytes) : String :=
  match String.fromUTF8? ⟨bs.toArray⟩ with
  | some s => withoutBom s
  | none => lib.lossy bs

def Declares (contentLength : Option String) (limit : ℕ) : Prop :=
  ∃ declared ∈ contentLength.bind lib.number, (limit : ℚ) < declared

instance (contentLength : Option String) (limit : ℕ) :
    Decidable (Declares lib contentLength limit) :=
  match h : contentLength.bind lib.number with
  | none => isFalse (by simp [Declares, h])
  | some declared =>
    decidable_of_iff ((limit : ℚ) < declared) (by simp [Declares, h])

def finished (broken : Option String) (chunks : Bytes) : Except Failure Bytes :=
  match broken with
  | none => .ok chunks
  | some e => .error (.other e)

/-- The loop of `readBodyLimited`, with `total` bytes and `chunks` read. -/
def readLoop (limit total : ℕ) (chunks : Bytes) (broken : Option String) :
    List Bytes → Except Failure Bytes
  | [] => finished broken chunks
  | value :: rest =>
    if total + value.length > limit then .error (.bodyTooLarge limit)
    else readLoop limit (total + value.length) (chunks ++ value) broken rest

def readBodyLimited (contentLength : Option String) (body : Option Stream) (limit : ℕ) :
    Except Failure Bytes :=
  if Declares lib contentLength limit then .error (.bodyTooLarge limit)
  else
    match body with
    | none => .ok []
    | some s => readLoop limit 0 [] s.broken s.chunks

def readTextLimited (contentLength : Option String) (body : Option Stream) (limit : ℕ) :
    Except Failure String :=
  (readBodyLimited lib contentLength body limit).map (decode lib)

def bodyTooLargeResponse (limit : ℕ) : Answer :=
  .json 413
    (.object [("error", .text "Request body too large"), ("limit_bytes", .number limit),
      ("detail", .text s!"This request exceeds the {limit} byte limit for this endpoint.")])
    (("Content-Type", "application/json") :: noSharedCache)

/-- `text()` of a response with no body is empty. -/
def readUpstreamTextLimited (res : Upstream) (limit : ℕ) : Except Failure String :=
  match res.body with
  | none =>
    if Declares lib res.contentLength limit then .error (.upstreamTooLarge limit) else .ok ""
  | some _ => readTextLimited lib res.contentLength res.body limit

def upstreamTooLargeResponse (limit : ℕ) : Answer :=
  .json 502
    (.object [("error", .text "Upstream response too large"), ("limit_bytes", .number limit),
      ("detail", .text (s!"The API returned more than {limit} bytes for this request. " ++
        "This is not a client error and the result is incomplete — it has not been truncated and served as if whole."))])
    (("Content-Type", "application/json") :: noSharedCache)

/-- `NextResponse.json`: a status outside 200..599 is a `RangeError`, and one without a body is a
`TypeError`. -/
def nextResponseJson (data : Json) (status : ℕ) (headers : List (String × String)) :
    Except Failure Answer :=
  if status < 200 ∨ 599 < status then
    .error (.other "The status provided is outside the range [200, 599]")
  else if status ∈ nullBodyStatus then
    .error (.other s!"Invalid response status code {status}")
  else .ok (.json status data headers)

def nonJsonData (upstreamStatus : ℕ) : Json :=
  .object [("error", .text "Upstream returned a non-JSON response"),
    ("upstream_status", .number upstreamStatus)]

def nonJsonUpstreamResponse (upstreamStatus : ℕ) : Except Failure Answer :=
  nextResponseJson (nonJsonData upstreamStatus)
    (if upstreamStatus ≥ 400 then upstreamStatus else 502) noSharedCache

def passThroughHeaders (res : Upstream) : List (String × String) :=
  forwardedHeaders.filterMap fun name => res.xTotalCount.map fun value => (name, value)

mutual

/-- `JSON.stringify` of what `JSON.parse` makes of a value: each number is a double, and one that is
not finite is written as null. -/
def reserialise : Json → Json
  | .null => .null
  | .bool b => .bool b
  | .number q =>
    match lib.nearest q with
    | some d => .number d
    | none => .null
  | .text s => .text s
  | .array items => .array (reserialiseItems items)
  | .object members => .object (reserialiseMembers members)

def reserialiseItems : List Json → List Json
  | [] => []
  | v :: vs => reserialise v :: reserialiseItems vs

def reserialiseMembers : List (String × Json) → List (String × Json)
  | [] => []
  | (name, v) :: ms => (name, reserialise v) :: reserialiseMembers ms

end

def Upstream.eventStream (res : Upstream) : Bool :=
  decide ("text/event-stream".toList <:+: (res.contentType.getD "").toList)

def streamed (res : Upstream) : Except Failure Answer :=
  if res.status < 200 ∨ 599 < res.status then
    .error (.other "The status provided is outside the range [200, 599]")
  else if res.status ∈ nullBodyStatus ∧ res.body.isSome then
    .error (.other s!"Invalid response status code {res.status}")
  else
    .ok (.stream res.status res.body [("Content-Type", "text/event-stream"),
      ("Cache-Control", "no-cache"), ("Connection", "keep-alive")])

def answerText (res : Upstream) (raw : String) : Except Failure Answer :=
  if raw = "" then
    nextResponseJson .null res.status (noSharedCache ++ passThroughHeaders res)
  else
    match lib.parse raw with
    | none => nonJsonUpstreamResponse res.status
    | some v =>
      nextResponseJson (reserialise lib v) res.status (noSharedCache ++ passThroughHeaders res)

def relay (reply : Except String Upstream) : Except Failure Answer :=
  match reply with
  | .error e => .error (.other e)
  | .ok res =>
    if res.eventStream then streamed res
    else
      match readUpstreamTextLimited lib res upstreamLimitJson with
      | .error (.upstreamTooLarge limit) => .ok (upstreamTooLargeResponse limit)
      | .error e => .error e
      | .ok raw => answerText lib res raw

def requestFailed : Json := .object [("error", .text "API request failed")]

def caught : Except Failure Answer → Answer
  | .ok a => a
  | .error _ => .json 502 requestFailed noSharedCache

def answered (reply : Except String Upstream) : Answer := caught (relay lib reply)

def forwardedBody (req : Request) : Except Failure (Option String) :=
  if req.method ∈ ["GET", "HEAD"] then .ok none
  else (readTextLimited lib req.contentLength req.body bodyLimitJson).map some

def isSSE (req : Request) (options : Options) : Bool :=
  options.sse || decide (req.searchParams.find? (fun p => p.1 = "follow") = some ("follow", "true"))

def outgoing (accessToken : String) (req : Request) (backendPath : String) (options : Options)
    (body : Option String) : Outgoing where
  url :=
    let url := lib.newUrl (apiUrl ++ backendPath)
    { url with searchParams := Pairs.putAll url.searchParams req.searchParams }
  method := req.method
  headers :=
    ("Authorization", s!"Bearer {accessToken}") ::
      match req.contentType with
      | none | some "" => []
      | some contentType => [("Content-Type", contentType)]
  timeout := if isSSE req options then none else some 30000
  body := body

/-- The proxy; `reply` is what `fetch` gives for a request. -/
def proxyToApi (session : Option String) (req : Request) (backendPath : String) (options : Options)
    (reply : Outgoing → Except String Upstream) : Exchange :=
  match session with
  | none | some "" => ⟨none, .json 401 (.object [("error", .text "Not authenticated")]) noSharedCache⟩
  | some accessToken =>
    match forwardedBody lib req with
    | .error (.bodyTooLarge limit) => ⟨none, bodyTooLargeResponse limit⟩
    | .error e => ⟨none, .thrown e⟩
    | .ok body =>
      let out := outgoing lib accessToken req backendPath options body
      ⟨some out, answered lib (reply out)⟩

end Source

section Reader

variable (lib : Platform)

theorem readLoop_eq {limit : ℕ} (chunks : List Bytes) {total : ℕ} (read : Bytes)
    (broken : Option String) (h : total ≤ limit) :
    readLoop limit total read broken chunks =
      if limit < total + chunks.flatten.length then .error (.bodyTooLarge limit)
      else finished broken (read ++ chunks.flatten) := by
  induction chunks generalizing total read with
  | nil =>
    rw [readLoop, if_neg (by simpa using h)]
    simp
  | cons value rest ih =>
    rw [readLoop, List.flatten_cons, List.length_append]
    by_cases hover : limit < total + value.length
    · rw [if_pos hover, if_pos (by omega)]
    · rw [if_neg hover, ih _ (by omega), List.append_assoc, Nat.add_assoc]

theorem readBodyLimited_of_none {contentLength : Option String} {limit : ℕ}
    (h : ¬Declares lib contentLength limit) :
    readBodyLimited lib contentLength none limit = .ok [] := by
  unfold readBodyLimited
  rw [if_neg h]

theorem readBodyLimited_of_declares {contentLength : Option String} {limit : ℕ}
    (h : Declares lib contentLength limit) (body : Option Stream) :
    readBodyLimited lib contentLength body limit = .error (.bodyTooLarge limit) := by
  unfold readBodyLimited
  rw [if_pos h]

theorem readBodyLimited_of_some {contentLength : Option String} {limit : ℕ}
    (h : ¬Declares lib contentLength limit) (s : Stream) :
    readBodyLimited lib contentLength (some s) limit =
      if limit < s.bytes.length then .error (.bodyTooLarge limit)
      else finished s.broken s.bytes := by
  unfold readBodyLimited
  rw [if_neg h]
  have hloop := readLoop_eq s.chunks [] s.broken (Nat.zero_le limit)
  rw [Nat.zero_add] at hloop
  exact hloop

/-- More bytes than the limit are never returned. -/
theorem readBodyLimited_of_over (contentLength : Option String) {body : Option Stream} {limit : ℕ}
    (h : limit < (bytes body).length) :
    readBodyLimited lib contentLength body limit = .error (.bodyTooLarge limit) := by
  by_cases hd : Declares lib contentLength limit
  · exact readBodyLimited_of_declares lib hd body
  · cases body with
    | none => simp [bytes] at h
    | some s => rw [readBodyLimited_of_some lib hd, if_pos (by simpa [bytes] using h)]

theorem fromUTF8?_encode (s : String) : String.fromUTF8? ⟨(encode s).toArray⟩ = some s := by
  have h : (⟨(encode s).toArray⟩ : ByteArray) = s.toByteArray := by
    simp [encode]
  rw [h, String.fromUTF8?, dif_pos s.isValidUTF8]
  rfl

theorem decode_encode (s : String) : decode lib (encode s) = withoutBom s := by
  rw [decode, fromUTF8?_encode]

theorem withoutBom_eq_self_iff {s : String} : withoutBom s = s ↔ s.toList.head? ≠ some bom := by
  unfold withoutBom
  cases h : s.toList with
  | nil => simp
  | cons c cs =>
    by_cases hc : c = bom
    · have hne : String.ofList cs ≠ s := by
        intro heq
        have := congrArg (fun t => t.toList.length) heq
        simp [h] at this
      simp [hc, hne]
    · simp [hc]

mutual

/-- Each number of the value is a double. -/
def Exact : Json → Prop
  | .number q => lib.nearest q = some q
  | .array items => ExactItems items
  | .object members => ExactMembers members
  | .null | .bool _ | .text _ => True

def ExactItems : List Json → Prop
  | [] => True
  | v :: vs => Exact v ∧ ExactItems vs

def ExactMembers : List (String × Json) → Prop
  | [] => True
  | (_, v) :: ms => Exact v ∧ ExactMembers ms

end

mutual

theorem reserialise_eq_iff : ∀ v, reserialise lib v = v ↔ Exact lib v
  | .null | .bool _ | .text _ => by simp [reserialise, Exact]
  | .number q => by
    simp only [reserialise, Exact]
    cases lib.nearest q <;> simp
  | .array items => by
    simp only [reserialise, Exact, Json.array.injEq]
    exact reserialiseItems_eq_iff items
  | .object members => by
    simp only [reserialise, Exact, Json.object.injEq]
    exact reserialiseMembers_eq_iff members

theorem reserialiseItems_eq_iff : ∀ vs, reserialiseItems lib vs = vs ↔ ExactItems lib vs
  | [] => by simp [reserialiseItems, ExactItems]
  | v :: vs => by
    simp only [reserialiseItems, ExactItems, List.cons.injEq]
    exact and_congr (reserialise_eq_iff v) (reserialiseItems_eq_iff vs)

theorem reserialiseMembers_eq_iff : ∀ ms, reserialiseMembers lib ms = ms ↔ ExactMembers lib ms
  | [] => by simp [reserialiseMembers, ExactMembers]
  | (name, v) :: ms => by
    simp only [reserialiseMembers, ExactMembers, List.cons.injEq, Prod.mk.injEq, true_and]
    exact and_congr (reserialise_eq_iff v) (reserialiseMembers_eq_iff ms)

end

end Reader

section Transparency

variable (lib : Platform)

def broken (body : Option Stream) : Option String := body.bind Stream.broken

def Upstream.text (res : Upstream) : String := decode lib (bytes res.body)

def RelaysText (res : Upstream) (raw : String) (a : Answer) : Prop :=
  if raw = "" then a.status? = some res.status ∧ (a.data? = some .null ∨ a.data? = none)
  else
    match lib.parse raw with
    | some v => a.status? = some res.status ∧ a.data? = some v
    | none =>
      a.status? = some (if res.status ≥ 400 then res.status else 502) ∧
        a.data? = some (nonJsonData res.status)

def Relays (res : Upstream) (a : Answer) : Prop :=
  if (broken res.body).isSome then ¬a.success
  else if upstreamLimitJson < (bytes res.body).length then
    a = upstreamTooLargeResponse upstreamLimitJson
  else RelaysText lib res (res.text lib) a

def Transparent (req : Request) (text : String) (res : Upstream) (e : Exchange) : Prop :=
  if bodyLimitJson < (bytes req.body).length then
    e.sent = none ∧ e.answer = bodyTooLargeResponse bodyLimitJson
  else
    ∃ out, e.sent = some out ∧ out.method = req.method ∧
      out.url.searchParams = req.searchParams ∧ out.body.getD "" = text ∧ Relays lib res e.answer

/-- A status that a response with a body may have. -/
def Stands (status : ℕ) : Prop := 200 ≤ status ∧ status ≤ 599 ∧ status ∉ nullBodyStatus

def TextRelayed (res : Upstream) (raw : String) : Prop :=
  if raw = "" then Stands res.status
  else
    match lib.parse raw with
    | some v => Stands res.status ∧ Exact lib v
    | none => res.status ≤ 599

/-- The responses that are relayed.  One whose declared length exceeds the limit, though its body
does not, is answered as an unreachable API is. -/
def Relayed (res : Upstream) : Prop :=
  (broken res.body).isSome ∨
    (bytes res.body).length ≤ upstreamLimitJson ∧
      if Declares lib res.contentLength upstreamLimitJson then
        res.text lib ≠ "" ∧ res.status = 502 ∧ lib.parse (res.text lib) = some requestFailed
      else TextRelayed lib res (res.text lib)

structure Forwarded (req : Request) (backendPath text : String) : Prop where
  unrepeated : (req.searchParams.map Prod.fst).Nodup
  path : Pairs.Heads (lib.newUrl (apiUrl ++ backendPath)).searchParams
    (req.searchParams.map Prod.fst)
  declared : req.method ∉ ["GET", "HEAD"] → ¬Declares lib req.contentLength bodyLimitJson
  unmarked : text.toList.head? ≠ some bom

theorem stands_502 : Stands 502 := ⟨by omega, by omega, by decide⟩

theorem nextResponseJson_of_stands {status : ℕ} (h : Stands status) (data : Json)
    (headers : List (String × String)) :
    nextResponseJson data status headers = .ok (.json status data headers) := by
  obtain ⟨hlow, hhigh, hnull⟩ := h
  rw [nextResponseJson, if_neg (by omega), if_neg hnull]

theorem caught_nextResponseJson {status : ℕ} (h : ¬Stands status) (data : Json)
    (headers : List (String × String)) :
    caught (nextResponseJson data status headers) = .json 502 requestFailed noSharedCache := by
  rw [nextResponseJson]
  by_cases hrange : status < 200 ∨ 599 < status
  · rw [if_pos hrange, caught]
  · rw [if_neg hrange]
    by_cases hnull : status ∈ nullBodyStatus
    · rw [if_pos hnull, caught]
    · exact absurd ⟨by omega, by omega, hnull⟩ h

theorem relaysText_answerText_iff (res : Upstream) (raw : String) :
    RelaysText lib res raw (caught (answerText lib res raw)) ↔ TextRelayed lib res raw := by
  unfold RelaysText TextRelayed answerText
  by_cases hraw : raw = ""
  · simp only [if_pos hraw]
    by_cases hs : Stands res.status
    · simp [nextResponseJson_of_stands hs, caught, Answer.status?, Answer.data?, hs]
    · simp [caught_nextResponseJson hs, Answer.data?, requestFailed, hs]
  · simp only [if_neg hraw]
    cases lib.parse raw with
    | some v =>
      by_cases hs : Stands res.status
      · simp [nextResponseJson_of_stands hs, caught, Answer.status?, Answer.data?, hs,
          reserialise_eq_iff]
      · have hne : 502 ≠ res.status := fun h => hs (h ▸ stands_502)
        simp [caught_nextResponseJson hs, Answer.status?, hs, hne]
    | none =>
      have hstands : res.status ≤ 599 → Stands (if res.status ≥ 400 then res.status else 502) := by
        intro hle
        split
        · refine ⟨by omega, hle, ?_⟩
          simp only [nullBodyStatus, List.mem_cons, List.not_mem_nil, or_false]
          omega
        · exact stands_502
      simp only [nonJsonUpstreamResponse]
      constructor
      · intro h
        by_contra hlt
        have hns : ¬Stands (if res.status ≥ 400 then res.status else 502) := by
          rw [if_pos (by omega)]
          exact fun hs => hlt hs.2.1
        rw [caught_nextResponseJson hns, if_pos (by omega : res.status ≥ 400)] at h
        have hst := h.1
        simp only [Answer.status?, Option.some.injEq] at hst
        omega
      · intro hle
        simp [nextResponseJson_of_stands (hstands hle), caught, Answer.status?, Answer.data?]

theorem decode_nil : decode lib [] = "" := by
  have h := decode_encode lib ""
  rwa [show withoutBom "" = "" from rfl] at h

/-- A body that is whole, and neither declared nor counted over the limit, is read. -/
theorem readUpstreamTextLimited_of_whole {res : Upstream} {limit : ℕ}
    (hdeclared : ¬Declares lib res.contentLength limit) (hbroken : broken res.body = none)
    (hsize : (bytes res.body).length ≤ limit) :
    readUpstreamTextLimited lib res limit = .ok (res.text lib) := by
  unfold readUpstreamTextLimited Upstream.text
  cases hbody : res.body with
  | none => simp [hdeclared, bytes, decode_nil]
  | some s =>
    rw [hbody] at hbroken hsize
    simp only [broken, Option.bind_some] at hbroken
    simp only [bytes, Option.map_some, Option.getD_some] at hsize ⊢
    rw [readTextLimited, readBodyLimited_of_some lib hdeclared, if_neg (by omega), hbroken]
    rfl

theorem readUpstreamTextLimited_of_stream {res : Upstream} {limit : ℕ} {s : Stream}
    (hbody : res.body = some s)
    (h : Declares lib res.contentLength limit ∨ limit < s.bytes.length ∨ s.broken.isSome) :
    ∃ e, readUpstreamTextLimited lib res limit = .error e ∧ ∀ n, e ≠ .upstreamTooLarge n := by
  unfold readUpstreamTextLimited
  simp only [hbody, readTextLimited]
  by_cases hd : Declares lib res.contentLength limit
  · rw [readBodyLimited_of_declares lib hd]
    exact ⟨_, rfl, by simp⟩
  · rw [readBodyLimited_of_some lib hd]
    by_cases hover : limit < s.bytes.length
    · rw [if_pos hover]
      exact ⟨_, rfl, by simp⟩
    · rw [if_neg hover]
      obtain ⟨e, he⟩ := Option.isSome_iff_exists.mp ((h.resolve_left hd).resolve_left hover)
      rw [he]
      exact ⟨_, rfl, by simp⟩

theorem answered_of_read {res : Upstream} (hres : res.eventStream = false) {raw : String}
    (h : readUpstreamTextLimited lib res upstreamLimitJson = .ok raw) :
    answered lib (.ok res) = caught (answerText lib res raw) := by
  simp [answered, relay, hres, h]

theorem answered_of_stream {res : Upstream} (hres : res.eventStream = false) {s : Stream}
    (hbody : res.body = some s)
    (h : Declares lib res.contentLength upstreamLimitJson ∨ upstreamLimitJson < s.bytes.length ∨
      s.broken.isSome) :
    answered lib (.ok res) = .json 502 requestFailed noSharedCache := by
  obtain ⟨e, hread, hne⟩ := readUpstreamTextLimited_of_stream lib hbody h
  simp only [answered, relay, hres, hread]
  cases e with
  | upstreamTooLarge n => exact absurd rfl (hne n)
  | bodyTooLarge n => rfl
  | other message => rfl

theorem answered_of_bodiless {res : Upstream} (hres : res.eventStream = false)
    (hbody : res.body = none) (h : Declares lib res.contentLength upstreamLimitJson) :
    answered lib (.ok res) = upstreamTooLargeResponse upstreamLimitJson := by
  simp [answered, relay, hres, readUpstreamTextLimited, hbody, h, caught]

theorem not_success_failed : ¬(Answer.json 502 requestFailed noSharedCache).success := by
  rintro ⟨status, hstatus, -, hle⟩
  simp only [Answer.status?, Option.some.injEq] at hstatus
  omega

theorem relaysText_failed_iff (res : Upstream) (raw : String) :
    RelaysText lib res raw (.json 502 requestFailed noSharedCache) ↔
      raw ≠ "" ∧ res.status = 502 ∧ lib.parse raw = some requestFailed := by
  unfold RelaysText
  by_cases hraw : raw = ""
  · simp [hraw, Answer.data?, requestFailed]
  · simp only [if_neg hraw, Answer.status?, Answer.data?, Option.some.injEq]
    cases lib.parse raw with
    | some v => simp [hraw, eq_comm]
    | none => simp [requestFailed, nonJsonData]

theorem relays_answered_iff {res : Upstream} (hres : res.eventStream = false) :
    Relays lib res (answered lib (.ok res)) ↔ Relayed lib res := by
  unfold Relays Relayed
  by_cases hbroken : (broken res.body).isSome
  · obtain ⟨s, hbody⟩ : ∃ s, res.body = some s := by
      cases h : res.body with
      | none => simp [h, broken] at hbroken
      | some s => exact ⟨s, rfl⟩
    have hs : s.broken.isSome := by simpa [hbody, broken] using hbroken
    rw [answered_of_stream lib hres hbody (.inr (.inr hs))]
    simp [hbroken, not_success_failed]
  simp only [hbroken, Bool.false_eq_true, if_false, false_or]
  rw [Option.not_isSome_iff_eq_none] at hbroken
  by_cases hsize : upstreamLimitJson < (bytes res.body).length
  · obtain ⟨s, hbody⟩ : ∃ s, res.body = some s := by
      cases h : res.body with
      | none => simp [h, bytes] at hsize
      | some s => exact ⟨s, rfl⟩
    have hs : upstreamLimitJson < s.bytes.length := by simpa [hbody, bytes] using hsize
    rw [answered_of_stream lib hres hbody (.inr (.inl hs))]
    simp [hsize, requestFailed, upstreamTooLargeResponse]
  rw [if_neg hsize]
  by_cases hdeclared : Declares lib res.contentLength upstreamLimitJson
  · simp only [if_pos hdeclared, Nat.not_lt.mp hsize, true_and]
    cases hbody : res.body with
    | none =>
      have htext : res.text lib = "" := by simp [Upstream.text, hbody, bytes, decode_nil]
      rw [answered_of_bodiless lib hres hbody hdeclared]
      simp [RelaysText, htext, upstreamTooLargeResponse, Answer.data?]
    | some s =>
      rw [answered_of_stream lib hres hbody (.inl hdeclared), relaysText_failed_iff]
  · rw [if_neg hdeclared, answered_of_read lib hres
      (readUpstreamTextLimited_of_whole lib hdeclared hbroken (Nat.not_lt.mp hsize)),
      relaysText_answerText_iff]
    simp [Nat.not_lt.mp hsize]

/-- A body within the limit that is whole and whose bytes are those of a text. -/
structure Request.Carries (req : Request) (text : String) : Prop where
  bytes_eq : bytes req.body = encode text
  whole : broken req.body = none

theorem forwardedBody_of_over {req : Request} (h : bodyLimitJson < (bytes req.body).length) :
    forwardedBody lib req = .error (.bodyTooLarge bodyLimitJson) := by
  have hmethod : req.method ∉ ["GET", "HEAD"] := by
    intro hmethod
    simp [req.bodiless hmethod, bytes] at h
  rw [forwardedBody, if_neg hmethod, readTextLimited, readBodyLimited_of_over lib _ h]
  rfl

theorem forwardedBody_of_declares {req : Request} (hmethod : req.method ∉ ["GET", "HEAD"])
    (h : Declares lib req.contentLength bodyLimitJson) :
    forwardedBody lib req = .error (.bodyTooLarge bodyLimitJson) := by
  rw [forwardedBody, if_neg hmethod, readTextLimited, readBodyLimited_of_declares lib h]
  rfl

theorem forwardedBody_of_carries {req : Request} {text : String} (hreq : req.Carries text)
    (hsize : (bytes req.body).length ≤ bodyLimitJson)
    (h : req.method ∉ ["GET", "HEAD"] → ¬Declares lib req.contentLength bodyLimitJson) :
    ∃ body, forwardedBody lib req = .ok body ∧ body.getD "" = withoutBom text := by
  unfold forwardedBody
  by_cases hmethod : req.method ∈ ["GET", "HEAD"]
  · have hbytes := hreq.bytes_eq
    rw [req.bodiless hmethod] at hbytes
    refine ⟨none, if_pos hmethod, ?_⟩
    rw [← decode_encode lib text, ← hbytes]
    exact (decode_nil lib).symm
  · refine ⟨some (withoutBom text), ?_, rfl⟩
    rw [if_neg hmethod, readTextLimited]
    cases hbody : req.body with
    | none =>
      have hbytes := hreq.bytes_eq
      rw [hbody] at hbytes
      rw [readBodyLimited_of_none lib (h hmethod), ← decode_encode lib text, ← hbytes]
      rfl
    | some s =>
      have hwhole := hreq.whole
      have hbytes := hreq.bytes_eq
      rw [hbody] at hwhole hbytes hsize
      simp only [broken, Option.bind_some] at hwhole
      simp only [bytes, Option.map_some, Option.getD_some] at hbytes hsize
      rw [readBodyLimited_of_some lib (h hmethod), if_neg (by omega), hwhole, hbytes,
        ← decode_encode lib text]
      rfl

theorem proxyToApi_transparent_iff {accessToken : String} (htoken : accessToken ≠ "")
    {req : Request} {text : String}
    (hreq : (bytes req.body).length ≤ bodyLimitJson → req.Carries text) (backendPath : String)
    (options : Options) {res : Upstream} (hres : res.eventStream = false) :
    Transparent lib req text res
        (proxyToApi lib (some accessToken) req backendPath options fun _ => .ok res) ↔
      bodyLimitJson < (bytes req.body).length ∨
        Forwarded lib req backendPath text ∧ Relayed lib res := by
  unfold Transparent
  by_cases hover : bodyLimitJson < (bytes req.body).length
  · simp [hover, proxyToApi, forwardedBody_of_over lib hover]
  have hsize := Nat.not_lt.mp hover
  rw [if_neg hover, or_iff_right hover]
  by_cases hdeclared : req.method ∉ ["GET", "HEAD"] → ¬Declares lib req.contentLength bodyLimitJson
  · obtain ⟨body, hbody, htext⟩ := forwardedBody_of_carries lib (hreq hsize) hsize hdeclared
    simp only [proxyToApi, hbody]
    constructor
    · rintro ⟨out, ⟨⟩, -, hquery, hbodyText, hrelays⟩
      obtain ⟨hnodup, hheads⟩ := Pairs.putAll_eq_self_iff.mp hquery
      refine ⟨⟨hnodup, hheads, hdeclared, ?_⟩, (relays_answered_iff lib hres).mp hrelays⟩
      exact withoutBom_eq_self_iff.mp (htext.symm.trans hbodyText)
    · rintro ⟨⟨hnodup, hheads, -, hbom⟩, hrelayed⟩
      refine ⟨_, rfl, rfl, Pairs.putAll_eq_self_iff.mpr ⟨hnodup, hheads⟩, ?_,
        (relays_answered_iff lib hres).mpr hrelayed⟩
      exact htext.trans (withoutBom_eq_self_iff.mpr hbom)
  · -- the request is refused by its declared length
    obtain ⟨hmethod, hdeclares⟩ := Classical.not_imp.mp hdeclared
    rw [Classical.not_not] at hdeclares
    simp only [proxyToApi, forwardedBody_of_declares lib hmethod hdeclares]
    constructor
    · rintro ⟨out, hsent, -⟩
      cases hsent
    · rintro ⟨hforwarded, -⟩
      exact absurd hforwarded.declared hdeclared

end Transparency

section Instances

/-- A platform on which no text but `[]` is JSON, and no path carries a query. -/
def platform : Platform where
  newUrl href := ⟨href, []⟩
  number s := s.toNat?.map fun n => (n : ℚ)
  parse s := if s = "[]" then some (.array []) else none
  nearest := some
  lossy _ := "\uFFFD"

def listing (searchParams : List (String × String)) : Request where
  method := "GET"
  searchParams := searchParams
  contentType := none
  contentLength := none
  body := none
  bodiless _ := rfl

def response (status : ℕ) (body : Option Bytes) : Upstream where
  status := status
  contentType := some "application/json"
  contentLength := none
  xTotalCount := none
  body := body.map fun bs => ⟨[bs], none⟩

theorem eventStream_response (status : ℕ) (body : Option Bytes) :
    (response status body).eventStream = false := by
  apply decide_eq_false
  intro h
  have hlength := h.length_le
  simp [response] at hlength

theorem not_declares_response (status : ℕ) (body : Option Bytes) :
    ¬Declares platform (response status body).contentLength upstreamLimitJson := by
  rintro ⟨declared, hdeclared, -⟩
  cases hdeclared

theorem carries_listing (pairs : List (String × String)) : (listing pairs).Carries "" :=
  ⟨rfl, rfl⟩

theorem not_transparent_of_query {req : Request} (res : Upstream)
    (hbytes : (bytes req.body).length ≤ bodyLimitJson) (text : String)
    (h : Pairs.putAll [] req.searchParams ≠ req.searchParams) :
    ¬Transparent platform req text res
      (proxyToApi platform (some "token") req "/skills" {} fun _ => .ok res) := by
  unfold Transparent
  rw [if_neg (Nat.not_lt.mpr hbytes)]
  rintro ⟨out, hsent, -, hquery, -⟩
  simp only [proxyToApi] at hsent
  cases hbody : forwardedBody platform req with
  | error e => rw [hbody] at hsent; cases e <;> cases hsent
  | ok body =>
    rw [hbody] at hsent
    cases hsent
    exact h hquery

theorem not_transparent_of_response {res : Upstream} (hres : res.eventStream = false)
    (pairs : List (String × String)) (h : ¬Relayed platform res) :
    ¬Transparent platform (listing pairs) "" res
      (proxyToApi platform (some "token") (listing pairs) "/skills" {} fun _ => .ok res) := by
  unfold Transparent
  rw [if_neg (by simp [listing, bytes])]
  rintro ⟨out, -, -, -, -, hrelays⟩
  exact h ((relays_answered_iff platform hres).mp hrelays)

/-- A key given twice is sent once, a response with no content is answered as a failed request, and
so is a body over the limit. -/
theorem proxyToApi_not_transparent :
    ¬Transparent platform (listing [("tag", "a"), ("tag", "b")]) ""
        (response 200 (some (encode "[]")))
        (proxyToApi platform (some "token") (listing [("tag", "a"), ("tag", "b")]) "/skills" {}
          fun _ => .ok (response 200 (some (encode "[]")))) ∧
      ¬Transparent platform (listing []) "" (response 204 none)
        (proxyToApi platform (some "token") (listing []) "/skills" {}
          fun _ => .ok (response 204 none)) ∧
      ¬Transparent platform (listing []) ""
        (response 200 (some (List.replicate (upstreamLimitJson + 1) 32)))
        (proxyToApi platform (some "token") (listing []) "/skills" {}
          fun _ => .ok (response 200 (some (List.replicate (upstreamLimitJson + 1) 32)))) := by
  refine ⟨not_transparent_of_query _ (by decide) "" (by decide),
    not_transparent_of_response (eventStream_response 204 none) [] ?_,
    not_transparent_of_response (eventStream_response 200 _) [] ?_⟩
  · rintro (hbroken | ⟨-, h⟩)
    · cases hbroken
    · have htext : (response 204 none).text platform = "" := decode_nil platform
      rw [if_neg (not_declares_response _ _), TextRelayed, if_pos htext] at h
      exact absurd h.2.2 (by decide)
  · rintro (hbroken | ⟨h, -⟩)
    · cases hbroken
    · simp [response, bytes, Stream.bytes] at h

/-- A listing of two different keys. -/
theorem proxyToApi_transparent_listing :
    Transparent platform (listing [("tag", "a"), ("page", "2")]) ""
      (response 200 (some (encode "[]")))
      (proxyToApi platform (some "token") (listing [("tag", "a"), ("page", "2")]) "/skills" {}
        fun _ => .ok (response 200 (some (encode "[]")))) := by
  apply (proxyToApi_transparent_iff platform (by decide) (fun _ => carries_listing _) "/skills" {}
    (eventStream_response 200 _)).mpr
  right
  refine ⟨⟨by decide, trivial, fun h => absurd (by decide) h, by decide⟩, .inr ⟨?_, ?_⟩⟩
  · decide
  · have htext : (response 200 (some (encode "[]"))).text platform = "[]" :=
      decode_encode platform "[]"
    rw [if_neg (not_declares_response _ _), TextRelayed, htext]
    exact ⟨⟨by decide, by decide, by decide⟩, trivial⟩

end Instances

end Hill90.View.Proxy
