import Mathlib.Tactic.NormNum
import Hill90.Agentbox.Address
import Hill90.Foundation.Program

/-! # The fetcher of web pages

`web_page_fetcher.py`: the URL of each hop is validated, the connection dials what was validated in
that hop, and redirects and bytes are counted.
-/

namespace Hill90.Knowledge.Fetcher

open Agentbox (IPv4 Network ofOctets)
open Program

abbrev Bytes := List UInt8

structure Parsed where
  scheme : String
  netloc : String
  hostname : Option String
  username : Option String
  password : Option String
  port : Except String (Option ℕ)

/-- The classes of `ipaddress`, and the address itself where it is of version 4. -/
structure IpAddress where
  isLoopback : Bool
  isPrivate : Bool
  isLinkLocal : Bool
  isReserved : Bool
  isMulticast : Bool
  isUnspecified : Bool
  v4 : Option IPv4
  deriving DecidableEq

/-- The libraries: `origin` is the host and the port that the client reads in a URL. -/
structure Library where
  urlparse : String → Except String Parsed
  ipAddress : String → Option IpAddress
  lower : String → String
  int : String → Option ℤ
  origin : String → Option (String × ℕ)
  extract : Bytes → Option String
  title : Bytes → Option String

structure Response where
  statusCode : ℕ
  location : String
  contentLength : Option String
  contentType : Option String
  stream : List Bytes
  broken : Option String
  deriving DecidableEq

namespace Response

def isRedirect (r : Response) : Bool := decide (300 ≤ r.statusCode ∧ r.statusCode ≤ 399)

def size (r : Response) : ℕ := (r.stream.map List.length).sum

end Response

inductive Failure where
  | fetchError (message : String)
  | connectError (message : String)
  | connectTimeout
  | readTimeout
  | httpError (message : String)
  | other (message : String)
  deriving DecidableEq

/-- `exchange` sends a request over a connection, `retain` keeps a chunk of the body. -/
inductive Statement where
  | getaddrinfo (hostname : String) (port : ℕ)
  | pooled (host : String) (port : ℕ)
  | dial (ip : String) (port : ℕ)
  | exchange (url : String)
  | retain (chunk : Bytes)
  deriving DecidableEq

/-- No answer of the resolver is an error of the resolver. -/
def Statement.Rows : Statement → Type
  | getaddrinfo _ _ => Option (List String)
  | pooled _ _ => Bool
  | dial _ _ | retain _ => Unit
  | exchange _ => Response

abbrev Handler (α : Type) := Program Statement Statement.Rows Failure α

structure Page where
  url : String
  title : String
  content : String
  contentType : String
  deriving DecidableEq

def maxResponseBytes : ℕ := 2 * 1024 * 1024

def maxRedirects : ℕ := 3

def maxTitleLength : ℕ := 512

def blockedHostnames : List String :=
  ["postgres", "api", "ai", "keycloak", "litellm", "openbao", "minio", "tempo", "knowledge",
    "docker-proxy", "promtail", "loki", "prometheus", "grafana"]

def tailscaleCgnat : Network 32 := ⟨ofOctets 100 64 0 0, 10⟩

section Source

variable (lib : Library)

def isBlockedIp (ip : String) : Bool :=
  match lib.ipAddress ip with
  | none => false
  | some addr =>
    addr.isLoopback || addr.isPrivate || addr.isLinkLocal || addr.isReserved || addr.isMulticast ||
      addr.isUnspecified || addr.v4.any fun a => tailscaleCgnat.contains a

def failed {α : Type} (message : String) : Handler α := throw (.fetchError message)

def lift {α : Type} : Except String α → Handler α
  | .ok a => pure a
  | .error e => throw (.other e)

def validateUrl (url : String) : Handler (String × Option ℕ) := do
  let parsed ← lift (lib.urlparse url)
  if parsed.scheme ≠ "http" ∧ parsed.scheme ≠ "https" then
    failed s!"URL scheme '{parsed.scheme}' is not allowed; only http/https are accepted"
  else
    match parsed.hostname with
    | none | some "" => failed "URL has no hostname"
    | some hostname =>
      if parsed.username.getD "" ≠ "" ∨ parsed.password.getD "" ≠ "" then
        failed "URL must not contain credentials (user:pass@host)"
      else if lib.lower hostname ∈ blockedHostnames then
        failed s!"Hostname '{lib.lower hostname}' matches an internal service name"
      else do
        let port ← lift parsed.port
        if port.any fun p => p ≠ 80 ∧ p ≠ 443 then
          failed s!"Non-standard port {port.getD 0} is not allowed; only 80 and 443 are accepted"
        else if isBlockedIp lib hostname then failed "URL points to a blocked IP address range"
        else pure (hostname, port)

def resolve (hostname : String) (port : ℕ) : Handler (Option (List String)) :=
  query (Statement.getaddrinfo hostname port)

def resolveAllValidated (hostname : String) (port : ℕ) : Handler (List String) := do
  match ← resolve hostname port with
  | none => failed s!"DNS resolution failed for hostname '{hostname}'"
  | some [] => failed s!"DNS resolution returned no results for hostname '{hostname}'"
  | some (ip :: ips) =>
    if (ip :: ips).any (isBlockedIp lib) then
      failed s!"Hostname '{hostname}' resolves to a blocked private/internal IP address range"
    else pure (ip :: ips)

def resolveAndCheck (hostname : String) (port : Option ℕ) : Handler Unit := do
  -- a port of zero is falsy as well
  let _ ← resolveAllValidated lib hostname (if port.getD 0 = 0 then 443 else port.getD 0)
  pure ()

def dial (ip : String) (port : ℕ) : Handler Unit := query (Statement.dial ip port)

def connectEach (port : ℕ) : List String → Failure → Handler Unit
  | [], last => throw last
  | ip :: ips, _ =>
    tryCatch (dial ip port) fun exc =>
      match exc with
      | .connectError _ | .connectTimeout => connectEach port ips exc
      | exc => throw exc

def connectTcp (host : String) (port : ℕ) : Handler Unit := do
  let candidates ← tryCatch (resolveAllValidated lib host port) fun exc =>
    match exc with
    | .fetchError message => throw (.connectError message)
    | exc => throw exc
  connectEach port candidates (.other "AssertionError")

def pooled (host : String) (port : ℕ) : Handler Bool := query (Statement.pooled host port)

def exchange (url : String) : Handler Response := query (Statement.exchange url)

def send (url : String) : Handler Response :=
  match lib.origin url with
  | none => throw (.other "InvalidURL")
  | some (host, port) => do
    if ← pooled host port then exchange url
    else do
      connectTcp lib host port
      exchange url

def reported (hostname : String) : Failure → Failure
  | .connectTimeout => .fetchError s!"Connection timed out fetching '{hostname}'"
  | .readTimeout => .fetchError s!"Read timed out fetching '{hostname}'"
  | .connectError e => .fetchError s!"Connection failed for '{hostname}': {e}"
  | .httpError e => .fetchError s!"HTTP error fetching '{hostname}': {e}"
  | exc => exc

def retain (chunk : Bytes) : Handler Unit := query (Statement.retain chunk)

def readBody (broken : Option String) : List Bytes → List Bytes → ℕ → Handler Bytes
  | [], chunks, _ =>
    match broken with
    | some e => throw (.other e)
    | none => pure chunks.flatten
  | chunk :: rest, chunks, bytesRead =>
    if maxResponseBytes < bytesRead + chunk.length then
      failed s!"Response body exceeds size limit of {maxResponseBytes} bytes"
    else do
      retain chunk
      readBody broken rest (chunks ++ [chunk]) (bytesRead + chunk.length)

def receive (hostname : String) (response : Response) : Handler (Response × Bytes) :=
  if response.statusCode < 200 ∨ 300 ≤ response.statusCode then
    failed s!"Fetching '{hostname}' returned HTTP {response.statusCode}, not a successful response"
  else
    match response.contentLength with
    | none | some "" => do return (response, ← readBody response.broken response.stream [] 0)
    | some header =>
      match lib.int header with
      | none => throw (Failure.other "invalid literal for int()")
      | some n =>
        if (maxResponseBytes : ℤ) < n then
          failed s!"Response size {n} bytes exceeds limit of {maxResponseBytes} bytes"
        else do return (response, ← readBody response.broken response.stream [] 0)

/-- The target of a redirect; one that starts with a slash stays at its server. -/
def redirectTarget (currentUrl location : String) : Handler String :=
  if location.toList.head? = some '/' then do
    let parsed ← lift (lib.urlparse currentUrl)
    pure (parsed.scheme ++ "://" ++ parsed.netloc ++ location)
  else pure location

def fetchLoop (hostname : String) : ℕ → String → Handler (Response × Bytes)
  | left, currentUrl => do
    let response ← tryCatch (send lib currentUrl) fun exc => throw (reported hostname exc)
    if response.isRedirect then
      match left with
      | 0 => failed s!"Too many redirects (max {maxRedirects}) fetching '{hostname}'"
      | left + 1 =>
        if response.location = "" then failed "Redirect response missing Location header"
        else do
          let location ← redirectTarget lib currentUrl response.location
          let (redirHostname, redirPort) ← validateUrl lib location
          resolveAndCheck lib redirHostname redirPort
          fetchLoop hostname left location
    else receive lib hostname response

def fetchBody (url : String) : Handler (String × Response × Bytes) := do
  let (hostname, port) ← validateUrl lib url
  resolveAndCheck lib hostname port
  let (response, body) ← fetchLoop lib hostname maxRedirects url
  pure (hostname, response, body)

def blank (s : String) : Bool := s.toList.all Char.isWhitespace

def fetchAndExtract (url : String) : Handler Page := do
  let (hostname, response, body) ← fetchBody lib url
  match lib.extract body with
  | none => failed s!"Could not extract readable content from URL '{hostname}'"
  | some extracted =>
    if blank extracted then
      failed s!"Could not extract readable content from URL '{hostname}'"
    else
      let given := (lib.title body).getD ""
      pure
        { url := url
          title := if given = "" then hostname else .ofList (given.toList.take maxTitleLength)
          content := extracted
          contentType := response.contentType.getD "text/html" }

end Source

end Hill90.Knowledge.Fetcher
