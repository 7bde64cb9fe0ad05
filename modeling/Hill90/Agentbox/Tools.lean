import Hill90.Agentbox.Address
import Hill90.Agentbox.Policy
import Hill90.Foundation.Program
import Hill90.Router.Record

/-! # The tools a model may call

`tools.py` advertises tools by the configuration and the environment, and `execute_tool_call`
dispatches by the name the model has sent.
-/

namespace Hill90.Agentbox

open Skills (ShellConfig FilesystemConfig ToolsConfig)
open Router (Json)
open Program

/-- The string methods, `str`, and the host of a URL, which may raise. -/
structure Python where
  str : Json → String
  strip : String → String
  upper : String → String
  title : String → String
  split : String → List String
  int : Json → Except String ℤ
  hostname : String → Except String String

structure Environ where
  akmToken : String := ""
  akmServiceUrl : String := ""
  tavilyApiKey : String := ""
  agentId : String := "agent"
  deriving DecidableEq, Repr

abbrev Arguments := String → Option Json

structure Exit where
  returncode : ℤ
  stdout : String
  stderr : String
  deriving DecidableEq, Repr

structure HttpAnswer where
  status : ℕ
  text : String
  deriving DecidableEq, Repr

inductive BrowserOp where
  | navigate (url : Json)
  | screenshot (fullPage : Json)
  | click (selector : Json)
  | getText (selector : Json)
  | evaluate (script : Json)

inductive Statement where
  | execute (argv : List String)
  | executePty (argv : List String)
  | readFile (path : String)
  | writeFile (path : String) (content : Json)
  | listDirectory (path : String)
  | process (argv : List String)
  | isDirectory (path : String)
  | getaddrinfo (hostname : String)
  | browse (op : BrowserOp)
  | request (method url : String) (payload : List (String × Json))

def Statement.Rows : Statement → Type
  | execute _ | executePty _ | process _ => Exit
  | readFile _ | listDirectory _ | browse _ => String
  | writeFile _ _ => Unit
  | isDirectory _ => Bool
  | getaddrinfo _ => Option (List IPv4)
  | request _ _ _ => HttpAnswer

/-- The two questions that change nothing. -/
def Statement.effect : Statement → Bool
  | isDirectory _ | getaddrinfo _ => false
  | _ => true

inductive ToolResult where
  | error (text : String)
  | success (output : String)
  deriving DecidableEq, Repr

abbrev Handler (α : Type) := Program Statement Statement.Rows String α

/-- The state of the modules `shell` and `filesystem` once the application is created. -/
structure Modules (Regex : Type) where
  shellPolicy : Option (CommandPolicy Regex) := none
  terminal : Bool := false
  pathPolicy : Option PathPolicy := none

variable {Regex : Type}

def configure {α : Type} (enabled : Bool) (policy : Option α) : Option (Option α) :=
  if enabled then policy.map some else some none

/-- `create_app`; a policy that cannot be made raises, and a log that cannot be opened leaves no
terminal. -/
def createApp (boot : Host Regex) (logOpens : Bool) (config : ToolsConfig) : Option (Modules Regex) := do
  let shellPolicy ← configure config.shell.enabled (CommandPolicy.init boot config.shell)
  let pathPolicy ← configure config.filesystem.enabled (PathPolicy.init boot config.filesystem)
  pure ⟨shellPolicy, config.shell.enabled && logOpens, pathPolicy⟩

def buildToolDefinitions (config : ToolsConfig) (env : Environ) : List String :=
  (if config.shell.enabled then ["execute_command"] else []) ++
  (if config.filesystem.enabled then
    ["read_file"] ++ (if config.filesystem.readOnly then [] else ["write_file"]) ++
      ["list_directory"]
  else []) ++
  (if config.shell.enabled then ["tmux"] else []) ++
  (if config.shell.enabled then ["browser"] else []) ++
  (if env.akmToken ≠ "" ∧ env.akmServiceUrl ≠ "" then
    ["save_knowledge", "search_knowledge", "search_shared_knowledge", "save_memory", "recall_memory"]
  else []) ++
  (if config.shell.enabled then ["git"] else []) ++
  (if config.shell.enabled then ["http_request"] else []) ++
  (if env.tavilyApiKey ≠ "" then ["web_search"] else [])

/-! ## Values -/

namespace Arguments

variable (args : Arguments)

def getD (key : String) (default : Json) : Json := (args key).getD default

end Arguments

def truthy : Json → Bool
  | .null => false
  | .bool b => b
  | .number q => q ≠ 0
  | .text s => s ≠ ""
  | .array items => !items.isEmpty
  | .object members => !members.isEmpty

def asText : Json → Handler String
  | .text s => pure s
  | _ => throw "object has no such attribute"

def Json.isText (v : Json) (s : String) : Bool :=
  match v with
  | .text t => t = s
  | _ => false

def argument : Json → Option String
  | .text s => if '\x00' ∈ s.toList then none else some s
  | _ => none

def clip (n : ℕ) (s : String) : String := .ofList (s.toList.take n)

/-- `except Exception as exc`, with a bound on the text of the error. -/
def catching (n : ℕ) (body : Handler ToolResult) : Handler ToolResult :=
  tryCatch body fun exc => pure (.error (clip n exc))

def run (argv : List String) : Handler Exit := query (Statement.process argv)

def http (method url : String) (payload : List (String × Json)) : Handler HttpAnswer :=
  query (Statement.request method url payload)

def browse (op : BrowserOp) : Handler String := query (Statement.browse op)

def spawn (argv : List Json) : Handler Exit :=
  match argv.mapM argument with
  | some argv => run argv
  | none => throw "expected str, bytes or os.PathLike object"

def lift {α : Type} : Except String α → Handler α
  | .ok a => pure a
  | .error e => throw e

/-! ## The handlers -/

section Handlers

variable (py : Python) (host : Host Regex) (modules : Modules Regex) (env : Environ) (args : Arguments)

def verdict : Verdict → Handler (Option String)
  | .allowed => pure none
  | .refused reason => pure (some reason)
  | .raised => throw "embedded null byte"

def exited (exit : Exit) : ToolResult :=
  if exit.returncode = 0 then .success exit.stdout else .error exit.stderr

/-- `execute` and `build_argv_and_env` split a line that the check has split before. -/
def checkedArgv (policy : CommandPolicy Regex) (command : String) : Handler (Except String (List String)) := do
  match ← verdict (policy.check host command) with
  | some reason => pure (.error reason)
  | none =>
    match host.shlexSplit command with
    | some argv => pure (.ok argv)
    | none => throw "No closing quotation"

def executeCommandPty (command : Json) : Handler ToolResult :=
  match modules.shellPolicy, modules.terminal with
  | some policy, true => do
    let command ← asText command
    match ← checkedArgv host policy command with
    | .error reason => pure (.error reason)
    | .ok argv => do
      let exit : Exit ← query (Statement.executePty argv)
      return exited exit
  | _, _ => pure (.error "Shell tools not configured")

def executeCommand (command : Json) : Handler ToolResult :=
  match modules.shellPolicy with
  | none => pure (.error "Shell tools not configured")
  | some policy => do
    let command ← asText command
    match ← checkedArgv host policy command with
    | .error reason => pure (.error reason)
    | .ok argv =>
      let attempt : Handler ToolResult := do
        let exit : Exit ← query (Statement.execute argv)
        return exited exit
      tryCatch attempt fun exc => pure (.error exc)

def guarded (check : PathPolicy → String → Verdict) (path : Json) (body : String → Handler ToolResult) :
    Handler ToolResult :=
  match modules.pathPolicy with
  | none => pure (.error "Filesystem tools not configured")
  | some policy => do
    let path ← asText path
    match ← verdict (check policy path) with
    | some reason => pure (.error reason)
    | none => tryCatch (body path) fun exc => pure (.error exc)

def readFile (path : Json) : Handler ToolResult :=
  guarded modules (fun policy => policy.checkRead host) path fun path => do
    let content : String ← query (Statement.readFile path)
    return .success content

def writeFile (path content : Json) : Handler ToolResult :=
  guarded modules (fun policy => policy.checkWrite host) path fun path => do
    let _ ← query (Statement.writeFile path content)
    return .success path

def listDirectory (path : Json) : Handler ToolResult :=
  guarded modules (fun policy => policy.checkRead host) path fun path => do
    let entries : String ← query (Statement.listDirectory path)
    return .success entries

/-- The two variables are set, or the tool is not configured. -/
def withAkm (message : String) (body : Handler ToolResult) : Handler ToolResult :=
  if env.akmServiceUrl = "" ∨ env.akmToken = "" then pure (.error message) else body

def frontmatter (path content : String) : String :=
  let parts := path.splitOn "/"
  let validTypes := ["plan", "decision", "journal", "research", "context", "note", "notebook"]
  let stem := String.ofList ((parts.headD "").toList.reverse.dropWhile (· = 's')).reverse
  let entryType := if parts.length > 1 ∧ stem ∈ validTypes then stem else "note"
  let filename := parts.getLastD ""
  let dotted := filename.splitOn "."
  let base := if dotted.length > 1 then ".".intercalate dotted.dropLast else filename
  let title := py.title ((base.replace "-" " ").replace "_" " ")
  s!"---\ntitle: {title}\ntype: {entryType}\n---\n{content}"

def executeSaveKnowledge : Handler ToolResult := do
  let path := args.getD "path" (.text "")
  let content := args.getD "content" (.text "")
  if !truthy path || !truthy content then return .error "path and content are required"
  withAkm env "AKM not configured" do
    let text ← asText content
    let entry ←
      if "---".toList.isPrefixOf text.toList then pure text
      else do
        let path ← asText path
        pure (frontmatter py path text)
    catching 200 do
      let res ← http "POST" (env.akmServiceUrl ++ "/api/v1/entries")
        [("path", path), ("content", .text entry)]
      if res.status = 201 then return .success "Knowledge entry saved"
      if res.status = 409 then
        let res2 ← http "PUT" (env.akmServiceUrl ++ "/api/v1/entries/" ++ py.str path)
          [("content", .text entry)]
        if res2.status = 200 then return .success "Knowledge entry updated"
        return .error s!"Update failed: {res2.status} {clip 200 res2.text}"
      return .error s!"AKM returned {res.status}: {clip 200 res.text}"

def executeSearchKnowledge : Handler ToolResult := do
  let q := args.getD "query" (.text "")
  if !truthy q then return .error "query is required"
  withAkm env "AKM not configured" do
    catching 200 do
      let res ← http "GET" (env.akmServiceUrl ++ "/api/v1/search") [("q", q)]
      if res.status = 200 then return .success res.text
      return .error s!"Search failed: {res.status}"

def executeSearchSharedKnowledge : Handler ToolResult := do
  let q := args.getD "query" (.text "")
  if !truthy q then return .error "query is required"
  let limit := match py.int (args.getD "limit" (.number 10)) with
    | .ok n => n
    | .error _ => 10
  withAkm env "Knowledge service not configured" do
    catching 200 do
      let res ← http "GET" (env.akmServiceUrl ++ "/api/v1/shared/search")
        [("q", q), ("limit", .number ((max 1 (min limit 50) : ℤ) : ℚ))]
      if res.status = 200 then return .success res.text
      return .error s!"Search failed: {res.status}"

def executeSaveMemory : Handler ToolResult := do
  let content := py.strip (← asText (args.getD "content" (.text "")))
  if content = "" then return .error "content is required"
  withAkm env "Memory service not configured" do
    let save : Handler ToolResult := do
      let res ← http "POST" (env.akmServiceUrl ++ "/api/v1/memories") [("content", .text content)]
      if res.status = 200 ∨ res.status = 201 then return .success "Memory saved"
      return .error s!"Failed to save memory: {res.status}"
    tryCatch save fun e => pure (.error ("Failed to save memory: " ++ e))

def executeRecallMemory : Handler ToolResult := do
  let q := py.strip (← asText (args.getD "query" (.text "")))
  if q = "" then return .error "query is required"
  withAkm env "Memory service not configured" do
    let limit ← lift (py.int (args.getD "limit" (.number 5)))
    let recalled : Handler ToolResult := do
      let res ← http "GET" (env.akmServiceUrl ++ "/api/v1/memories/recall")
        [("q", .text q), ("limit", .number ((min limit 20 : ℤ) : ℚ))]
      if res.status = 200 then return .success res.text
      return .error s!"Recall failed: {res.status}"
    tryCatch recalled fun e => pure (.error ("Recall failed: " ++ e))

def executeWebSearch : Handler ToolResult := do
  let q := py.strip (← asText (args.getD "query" (.text "")))
  if q = "" then return .error "query is required"
  if env.tavilyApiKey = "" then
    return .error "Web search not configured (missing TAVILY_API_KEY)"
  let maxResults ← lift (py.int (args.getD "max_results" (.number 5)))
  let search : Handler ToolResult := do
    let res ← http "POST" "https://api.tavily.com/search"
      [("query", .text q), ("max_results", .number ((min maxResults 10 : ℤ) : ℚ)),
        ("search_depth", .text "basic")]
    if res.status = 200 then return .success res.text
    return .error s!"Search API returned {res.status}"
  tryCatch search fun e => pure (.error ("Search failed: " ++ e))

def gitInit (name : String) (email : String) : List (List String) :=
  [["git", "init"], ["git", "config", "user.name", name], ["git", "config", "user.email", email]]

def runAll (cmds : List (List String)) : Handler Unit :=
  cmds.forM fun argv => do
    let _ ← run argv
    pure ()

def mentions (needle text : String) : Bool := (text.splitOn needle).length > 1

/-- A failed command answers with its error, a silent one with a default. -/
def told (exit : Exit) (silent : String) : ToolResult :=
  if exit.returncode ≠ 0 then .error (py.strip exit.stderr)
  else .success (if py.strip exit.stdout = "" then silent else py.strip exit.stdout)

def executeGit : Handler ToolResult := do
  let action := args.getD "action" (.text "")
  let found : Bool ← query (Statement.isDirectory "/workspace/.git")
  if !found && !Json.isText action "init" then
    runAll (gitInit "Agent" "agent@hill90.com")
  catching 300 do
    match action with
    | .text "init" =>
      runAll (gitInit env.agentId (env.agentId ++ "@hill90.com"))
      pure (.success "Git repo initialized")
    | .text "status" =>
      let exit ← run ["git", "status", "--short"]
      pure (told py exit "Working tree clean")
    | .text "add" =>
      let paths := py.split (← asText (args.getD "paths" (.text ".")))
      let exit ← spawn (([["git", "add"], paths].flatten).map .text)
      pure (if exit.returncode ≠ 0 then .error (py.strip exit.stderr)
        else .success ("Staged: " ++ " ".intercalate paths))
    | .text "commit" =>
      let message := args.getD "message" (.text "")
      if truthy message then
        let exit ← spawn ([.text "git", .text "commit", .text "-m", message])
        let output := py.strip exit.stdout
        let err := py.strip exit.stderr
        pure (if exit.returncode = 0 then .success output
          else if mentions "nothing to commit" err || mentions "nothing to commit" output then
            .success "Nothing to commit"
          else .error (if err = "" then output else err))
      else pure (.error "message is required for commit")
    | .text "diff" =>
      let exit ← run ["git", "diff", "--stat"]
      pure (told py exit "No changes")
    | .text "log" =>
      let given := args.getD "count" (.number 10)
      match if truthy given then given else .number 10 with
      | .number count =>
        let exit ← run ["git", "log", "--oneline", "-" ++ py.str (.number (min count 50))]
        pure (if exit.returncode ≠ 0 ∧
            mentions "does not have any commits" (py.strip exit.stderr) then .success "No commits yet"
          else told py exit "No commits yet")
      | .bool _ =>
        let exit ← run ["git", "log", "--oneline", "-" ++ py.str (.bool true)]
        pure (told py exit "No commits yet")
      | _ => throw "'<' not supported between instances"
    | .text "reset" =>
      let paths := py.split (← asText (args.getD "paths" (.text ".")))
      let exit ← spawn (([["git", "reset", "HEAD", "--"], paths].flatten).map .text)
      pure (told py exit "Unstaged")
    | _ => pure (.error ("Unknown git action: " ++ py.str action))

def executeTmux : Handler ToolResult :=
  let name := args.getD "name" (.text "")
  let direction := args.getD "direction" (.text "v")
  let target := args.getD "target" (.text "")
  let keys := args.getD "keys" (.text "")
  let action := args.getD "action" (.text "")
  let tmux (argv : List Json) : Handler ToolResult := do
    let exit ← spawn (.text "tmux" :: argv)
    pure (if exit.returncode ≠ 0 then .error (py.strip exit.stderr)
      else .success (py.strip exit.stdout))
  catching 200 (match action with
    | .text "new_window" =>
      tmux ([.text "new-window", .text "-t", .text "agent"] ++
        (if truthy name then [.text "-n", name] else []))
    | .text "split" =>
      tmux [.text "split-window", .text (if Json.isText direction "h" then "-h" else "-v"), .text "-t",
        .text "agent"]
    | .text "select_window" =>
      tmux [.text "select-window", .text "-t",
        .text ("agent:" ++ py.str (if truthy target then target else name))]
    | .text "select_pane" =>
      tmux [.text "select-pane", .text "-t", .text ("agent:" ++ py.str target)]
    | .text "send_keys" =>
      tmux [.text "send-keys", .text "-t",
        .text (if truthy target then "agent:" ++ py.str target else "agent"), keys, .text "Enter"]
    | .text "rename_window" => tmux [.text "rename-window", .text "-t", .text "agent", name]
    | .text "list_windows" =>
      tmux [.text "list-windows", .text "-t", .text "agent", .text "-F",
        .text "#\x7bwindow_index\x7d:#\x7bwindow_name\x7d #\x7bwindow_active\x7d"]
    | _ => pure (.error ("Unknown tmux action: " ++ py.str action)))

def executeBrowser : Handler ToolResult :=
  let action := args.getD "action" (.text "")
  let url := args.getD "url" (.text "")
  let selector := args.getD "selector" (.text "")
  let script := args.getD "script" (.text "")
  let op (op : BrowserOp) : Handler ToolResult := do
    let output ← browse op
    pure (.success output)
  catching 300 (match action with
    | .text "navigate" => if truthy url then op (.navigate url) else pure (.error "url is required")
    | .text "screenshot" => op (.screenshot (args.getD "full_page" (.bool true)))
    | .text "click" =>
      if truthy selector then op (.click selector) else pure (.error "selector is required")
    | .text "get_text" => op (.getText (args.getD "selector" (.text "body")))
    | .text "evaluate" =>
      if truthy script then op (.evaluate script) else pure (.error "script is required")
    | _ => pure (.error ("Unknown browser action: " ++ py.str action)))

/-- `_execute_http_request`, once the host of the URL is known. -/
def sendChecked (method url hostname : String) (payload : List (String × Json)) :
    Handler ToolResult := do
  let addrs : Option (List IPv4) ← query (Statement.getaddrinfo hostname)
  if isBlockedHost addrs then pure (.error "Blocked: internal/private IP range")
  else
    catching 300 do
      let res ← http method url payload
      return .success (clip 50000 res.text)

def webUrl (url : String) : Bool :=
  "http://".toList.isPrefixOf url.toList || "https://".toList.isPrefixOf url.toList

/-- `_execute_http_request`, once the method is known. -/
def requestUrl (method : String) (url : Json) (payload : List (String × Json)) : Handler ToolResult :=
  if truthy url then do
    let url ← asText url
    if webUrl url then do
      let hostname ← lift (py.hostname url)
      if hostname = "" then pure (.error "Invalid URL")
      else sendChecked method url hostname payload
    else pure (.error "url must start with http:// or https://")
  else pure (.error "url must start with http:// or https://")

def executeHttpRequest : Handler ToolResult := do
  let method := py.upper (← asText (args.getD "method" (.text "GET")))
  let url := args.getD "url" (.text "")
  let headers := match args "headers" with
    | some headers => if truthy headers then headers else .object []
    | none => .object []
  let body := args.getD "body" (.text "")
  if method = "GET" then requestUrl py method url [("headers", headers)]
  else if method = "POST" then requestUrl py method url [("headers", headers), ("content", body)]
  else pure (.error "method must be GET or POST")

def executeToolCall (name : String) : Handler ToolResult :=
  let path := args.getD "path" (.text "")
  match name with
  | "execute_command" =>
    let command := args.getD "command" (.text "")
    if modules.terminal then executeCommandPty host modules command
    else executeCommand host modules command
  | "read_file" => readFile host modules path
  | "write_file" => writeFile host modules path (args.getD "content" (.text ""))
  | "list_directory" => listDirectory host modules path
  | "tmux" => executeTmux py args
  | "browser" => executeBrowser py args
  | "save_knowledge" => executeSaveKnowledge py env args
  | "search_knowledge" => executeSearchKnowledge env args
  | "search_shared_knowledge" => executeSearchSharedKnowledge py env args
  | "http_request" => executeHttpRequest py args
  | "git" => executeGit py env args
  | "web_search" => executeWebSearch py env args
  | "save_memory" => executeSaveMemory py env args
  | "recall_memory" => executeRecallMemory py env args
  | _ => pure (.error ("Unknown tool: " ++ name))

end Handlers

end Hill90.Agentbox
