import Mathlib.Data.List.Sort
import Hill90.Chat.Record
import Hill90.Chat.Text
import Hill90.Foundation.Play
import Hill90.Foundation.Table

/-! # Tools in the containers of agents

`tool-installer.ts` installs what the skills of an agent need in its container, when the agent starts
and when an admin has it reconciled, and keeps in `agent_tool_installs` how that went.
-/

namespace Hill90.Agents.ToolInstalls

open Chat (Uuid trim)
open Program

inductive InstallMethod where
  | builtin
  | apt
  | binary
  deriving DecidableEq

structure ToolRow where
  id : Uuid
  name : String
  installMethod : InstallMethod
  installRef : Option String
  deriving DecidableEq

inductive InstallStatus where
  | pending
  | installing
  | installed
  | failed
  deriving DecidableEq

structure Install where
  agentId : Uuid
  toolId : Uuid
  status : InstallStatus
  installMessage : String
  installedAt : Option ℕ
  updatedAt : ℕ
  deriving DecidableEq

abbrev Bytes := List UInt8

structure ExecResult where
  exitCode : ℤ
  stdout : String
  stderr : String
  deriving DecidableEq

structure Download where
  status : ℕ
  location : Option String
  body : Bytes
  deriving DecidableEq

structure Url where
  protocol : String
  hostname : String
  deriving DecidableEq

structure Config where
  ghVersion : String
  dockerCliVersion : String
  maxInstallRetries : ℕ
  parseUrl : String → Option Url
  resolve : String → String → Option String
  toUpperCase : String → String

section Tables

def Install.key (i : Install) : Uuid × Uuid := (i.agentId, i.toolId)

structure Store where
  agents : List Uuid
  agentSkills : List (Uuid × Uuid)
  skillTools : List (Uuid × Uuid)
  tools : Table ToolRow.id
  installs : Table Install.key

namespace Store

variable (s : Store)

def needs (agentDbId : Uuid) (tool : ToolRow) : Bool :=
  s.agentSkills.any fun asks => asks.1 = agentDbId &&
    s.skillTools.any fun st => st.1 = asks.2 && st.2 = tool.id

/-- `REQUIRED_TOOLS_QUERY`: the rows of `tools` are distinct, so the join is a selection of them. -/
def requiredTools (agentDbId : Uuid) : List ToolRow :=
  (s.tools.rows.filter (s.needs agentDbId)).insertionSort fun a b => a.name ≤ b.name

def row? (agentDbId toolId : Uuid) : Option Install := s.installs.get? (agentDbId, toolId)

def existingInstalls (agentDbId : Uuid) : List (Uuid × InstallStatus) :=
  (s.installs.rows.filter fun r => r.agentId = agentDbId).map fun r => (r.toolId, r.status)

def inserted (agentDbId toolId : Uuid) (status : InstallStatus) (installMessage : String)
    (setInstalledAt : Bool) (now : ℕ) : Install :=
  ⟨agentDbId, toolId, status, installMessage, if setInstalledAt then some now else none, now⟩

def rewritten (status : InstallStatus) (installMessage : String) (now : ℕ) (r : Install) : Install :=
  { r with
    status := status
    installMessage := installMessage
    installedAt := if status = .installed then some now else r.installedAt
    updatedAt := now }

theorem rewritten_key (status : InstallStatus) (installMessage : String) (now : ℕ) (r : Install) :
    (rewritten status installMessage now r).key = r.key := rfl

def onConflict (agentDbId toolId : Uuid) (status : InstallStatus) (installMessage : String)
    (now : ℕ) : Table Install.key :=
  s.installs.patch (fun r => r.key = (agentDbId, toolId))
    (fun _ => rewritten status installMessage now) 0 fun _ => rewritten_key status installMessage now

def upsert (agentDbId toolId : Uuid) (status : InstallStatus) (installMessage : String)
    (setInstalledAt : Bool) (now : ℕ) : Store :=
  match s.installs.insert (inserted agentDbId toolId status installMessage setInstalledAt now) with
  | some installs => { s with installs := installs }
  | none => { s with installs := s.onConflict agentDbId toolId status installMessage now }

def delete (agentDbId toolId : Uuid) : Store :=
  { s with installs := s.installs.delete fun r => r.key = (agentDbId, toolId) }

section Lookup

variable {s} {a b i j : Uuid} {status : InstallStatus} {message : String} {at' : Bool} {now : ℕ}

theorem get?_onConflict {k : Uuid × Uuid} : (s.onConflict a i status message now).get? k =
    (s.installs.get? k).map fun r =>
      if r.key = (a, i) then rewritten status message now r else r := by
  unfold onConflict
  rw [Table.get?_patch_eq]
  simp only [decide_eq_true_eq]

theorem row?_upsert_ne (h : ¬(b = a ∧ j = i)) :
    (s.upsert a i status message at' now).row? b j = s.row? b j := by
  have hkey : ((b, j) : Uuid × Uuid) ≠ (a, i) := by
    intro heq
    exact h (Prod.mk.injEq .. ▸ heq)
  unfold upsert row?
  split
  · rename_i installs hinsert
    rw [Table.get?_insert hinsert]
    exact if_neg hkey
  · rw [get?_onConflict]
    cases hget : s.installs.get? (b, j) with
    | none => rfl
    | some r =>
      have hr : r.key ≠ (a, i) := by
        rw [Table.key_of_get? hget]
        exact hkey
      simp [hr]

/-- The row that an upsert leaves, whichever way it took. -/
theorem row?_upsert_self (s : Store) (a i : Uuid) (status : InstallStatus) (message : String)
    (at' : Bool) (now : ℕ) : ∃ row, (s.upsert a i status message at' now).row? a i = some row ∧
    row.status = status ∧ (status = .installed → at' = true → row.installedAt = some now) := by
  unfold upsert row?
  split
  · rename_i installs hinsert
    refine ⟨_, (Table.get?_insert hinsert (a, i)).trans (if_pos rfl), rfl, ?_⟩
    intro _ hat
    simp [inserted, hat]
  · rename_i hinsert
    cases hget : s.installs.get? (a, i) with
    | none =>
      obtain ⟨t', ht'⟩ : ∃ t', s.installs.insert (inserted a i status message at' now) = some t' :=
        Table.exists_insert hget
      exact absurd (ht'.symm.trans hinsert) (by simp)
    | some r =>
      have hr : r.key = (a, i) := Table.key_of_get? hget
      refine ⟨rewritten status message now r, ?_, rfl, ?_⟩
      · rw [get?_onConflict, hget]
        simp [hr]
      · intro hstatus _
        simp [rewritten, hstatus]

theorem row?_delete_self : (s.delete a i).row? a i = none := by
  cases hget : (s.delete a i).row? a i with
  | none => rfl
  | some r =>
    have hp := (Table.get?_of_delete hget).2
    have hr : r.key = (a, i) := Table.key_of_get? hget
    simp [hr] at hp

theorem row?_delete_ne (h : ¬(b = a ∧ j = i)) : (s.delete a i).row? b j = s.row? b j := by
  cases hget : s.row? b j with
  | none =>
    cases hdel : (s.delete a i).row? b j with
    | none => rfl
    | some r => exact absurd ((Table.get?_of_delete hdel).1.symm.trans hget) (by simp)
  | some r =>
    have hr : r.key = (b, j) := Table.key_of_get? hget
    have hmem : r ∈ (s.delete a i).installs.rows := by
      refine Table.mem_delete.mpr ⟨Table.mem_of_get? hget, ?_⟩
      rw [hr]
      simpa using h
    rw [row?, ← hr]
    exact Table.mem_iff_get?.mp hmem

theorem mem_existingInstalls {st : InstallStatus} :
    (i, st) ∈ s.existingInstalls a ↔ ∃ r, s.row? a i = some r ∧ r.status = st := by
  unfold existingInstalls
  constructor
  · intro h
    obtain ⟨r, hr, heq⟩ := List.mem_map.mp h
    obtain ⟨hmem, hagent⟩ := List.mem_filter.mp hr
    cases heq
    refine ⟨r, ?_, rfl⟩
    have hget := Table.mem_iff_get?.mp hmem
    rwa [Install.key, of_decide_eq_true hagent] at hget
  · rintro ⟨r, hr, rfl⟩
    have hkey : r.key = (a, i) := Table.key_of_get? hr
    cases hkey
    exact List.mem_map.mpr ⟨r, List.mem_filter.mpr ⟨Table.mem_of_get? hr, by simp⟩, rfl⟩

theorem nodup_requiredTools (s : Store) (a : Uuid) : ((s.requiredTools a).map ToolRow.id).Nodup := by
  have hperm : (s.requiredTools a).Perm (s.tools.rows.filter (s.needs a)) :=
    List.perm_insertionSort _ _
  rw [(hperm.map ToolRow.id).nodup_iff]
  exact s.tools.keys.sublist (List.filter_sublist.map ToolRow.id)

end Lookup

end Store

end Tables

section Statements

inductive Statement where
  | requiredTools (agentDbId : Uuid)
  | existingInstalls (agentDbId : Uuid)
  | upsertInstallStatus (agentDbId toolId : Uuid) (status : InstallStatus) (installMessage : String)
      (setInstalledAt : Bool)
  | deleteInstall (agentDbId toolId : Uuid)
  | execInContainerWithExit (agentSlug : String) (cmd : List String) (timeoutMs : ℕ)
  | execWithStdin (agentSlug : String) (cmd : List String) (stdin : Bytes) (timeoutMs : ℕ)
  | fetch (url : String)
  deriving DecidableEq

/-- The clock, and what the container and the network come back with. -/
structure Choice where
  now : ℕ
  result : ExecResult
  resp : Download

namespace Statement

abbrev Rows : Statement → Type
  | requiredTools _ => List ToolRow
  | existingInstalls _ => List (Uuid × InstallStatus)
  | upsertInstallStatus .. => Unit
  | deleteInstall .. => Unit
  | execInContainerWithExit .. => ExecResult
  | execWithStdin .. => ExecResult
  | fetch _ => Download

def run (s : Store) (c : Choice) : (st : Statement) → Except String (st.Rows × Store)
  | requiredTools agentDbId => .ok (s.requiredTools agentDbId, s)
  | existingInstalls agentDbId => .ok (s.existingInstalls agentDbId, s)
  | upsertInstallStatus agentDbId toolId status installMessage setInstalledAt =>
    if agentDbId ∈ s.agents ∧ toolId ∈ s.tools.rows.map ToolRow.id then
      .ok ((), s.upsert agentDbId toolId status installMessage setInstalledAt c.now)
    else .error "violates foreign key constraint"
  | deleteInstall agentDbId toolId => .ok ((), s.delete agentDbId toolId)
  | execInContainerWithExit .. => .ok (c.result, s)
  | execWithStdin .. => .ok (c.result, s)
  | fetch _ => .ok (c.resp, s)

def writes : Statement → Bool
  | upsertInstallStatus .. | deleteInstall .. => true
  | _ => false

end Statement

abbrev Handler := Program Statement Statement.Rows String

end Statements

section Downloads

variable (cfg : Config)

def allowedDownloadHosts : List String :=
  ["github.com", "release-assets.githubusercontent.com", "objects.githubusercontent.com",
    "download.docker.com"]

def maxDownloadRedirects : ℕ := 5

def validateDownloadUrl (url : String) : Handler Unit :=
  match cfg.parseUrl url with
  | none => throw ("Invalid download URL: " ++ url)
  | some parsed =>
    if parsed.protocol ≠ "https:" then
      throw ("Download URL must use HTTPS (got " ++ parsed.protocol ++ "): " ++ url)
    else if parsed.hostname ∉ allowedDownloadHosts then
      throw ("Download URL hostname \"" ++ parsed.hostname ++ "\" not in allowlist. Allowed: " ++
        ", ".intercalate allowedDownloadHosts)
    else pure ()

/-- The rest of the loop of `downloadTarball`, by the hops it has left. -/
def hops (url : String) : ℕ → String → Handler Bytes
  | 0, _ => throw ("Too many redirects (max " ++ toString maxDownloadRedirects ++
      ") downloading " ++ url)
  | left + 1, currentUrl => do
    let resp ← query (Statement.fetch currentUrl)
    if 300 ≤ resp.status ∧ resp.status < 400 then
      match resp.location.filter fun location => !location.isEmpty with
      | none => throw ("Redirect from " ++ currentUrl ++ " missing Location header")
      | some location =>
        match cfg.resolve location currentUrl with
        | none => throw "Invalid URL"
        | some resolved => do
          validateDownloadUrl cfg resolved
          hops url left resolved
    else if ¬(200 ≤ resp.status ∧ resp.status < 300) then
      throw ("Download failed: HTTP " ++ toString resp.status ++ " from " ++ currentUrl)
    else if resp.body = [] then throw ("Empty response from " ++ currentUrl)
    else pure resp.body

def downloadTarball (url : String) : Handler Bytes := do
  validateDownloadUrl cfg url
  hops cfg url (maxDownloadRedirects + 1) url

end Downloads

section Installing

variable (cfg : Config) (agentDbId : Uuid) (agentSlug : String) (tool : ToolRow)

def InstallMethod.timeout : InstallMethod → ℕ
  | .builtin => 30000
  | .apt => 120000
  | .binary => 300000

/-- `DEFAULT_BINARY_VERSIONS` -/
def Config.version? (name : String) : Option String :=
  if name = "gh" then some cfg.ghVersion
  else if name = "docker" then some cfg.dockerCliVersion
  else none

def binaryPath (name version : String) : String :=
  if name = "gh" then "gh_" ++ version ++ "_linux_amd64/bin/gh"
  else if name = "docker" then "docker/docker"
  else name ++ "/" ++ name

def quote : Char := Char.ofNat 39

def shellQuote (value : String) : String :=
  String.ofList (quote :: (value.toList.flatMap fun c =>
    if c = quote then [quote, '\\', quote, quote] else [c]) ++ [quote])

def orElse (a b : String) : String := if a.isEmpty then b else a

def builtinCheck : List String := ["bash", "-lc", "command -v " ++ shellQuote tool.name]

def installBuiltin : Handler Unit := do
  let result ← query (Statement.execInContainerWithExit agentSlug (builtinCheck tool) InstallMethod.builtin.timeout)
  if result.exitCode ≠ 0 then
    throw ("Builtin tool \"" ++ tool.name ++ "\" not found in container PATH")
  else pure ()

def installApt : Handler Unit := do
  let pkg := orElse (trim (tool.installRef.getD "")) tool.name
  let cmd := ["bash", "-lc", "command -v " ++ shellQuote tool.name ++
    " >/dev/null 2>&1 || (apt-get update && DEBIAN_FRONTEND=noninteractive apt-get install -y " ++
    "--no-install-recommends " ++ shellQuote pkg ++ ")"]
  let result ← query (Statement.execInContainerWithExit agentSlug cmd InstallMethod.apt.timeout)
  if result.exitCode ≠ 0 then
    throw (trim ("APT install failed for \"" ++ tool.name ++ "\": " ++ orElse result.stderr result.stdout))
  else installBuiltin agentSlug tool

def noVersion : String :=
  "No version configured for binary tool \"" ++ tool.name ++ "\". Set HILL90_" ++
    cfg.toUpperCase tool.name ++ "_VERSION or add to DEFAULT_BINARY_VERSIONS."

def binaryInstallScript : Except String String :=
  match cfg.version? tool.name with
  | none => .error (noVersion cfg tool)
  | some version => .ok ("\nset -euo pipefail\nmkdir -p /data/tools/bin /tmp/hill90-tools\n" ++
      "tar -xzf - -C /tmp/hill90-tools\ncp /tmp/hill90-tools/" ++ binaryPath tool.name version ++
      " /data/tools/bin/" ++ shellQuote tool.name ++ "\nchmod +x /data/tools/bin/" ++
      shellQuote tool.name ++ "\nrm -rf /tmp/hill90-tools\n")

def binaryCheck : List String := ["test", "-x", "/data/tools/bin/" ++ tool.name]

def installBinary : Handler Unit := do
  let check ← query
    (Statement.execInContainerWithExit agentSlug (binaryCheck tool) InstallMethod.builtin.timeout)
  if check.exitCode = 0 then pure ()
  else
    match cfg.version? tool.name, tool.installRef with
    | none, _ => throw (noVersion cfg tool)
    | some _, none => throw "Cannot read properties of null (reading 'replaceAll')"
    | some version, some ref => do
      let tarball ← downloadTarball cfg (ref.replace "\x7bversion\x7d" version)
      match binaryInstallScript cfg tool with
      | .error e => throw e
      | .ok script => do
        let result ← query
          (Statement.execWithStdin agentSlug ["bash", "-lc", script] tarball InstallMethod.binary.timeout)
        if result.exitCode ≠ 0 then
          throw (trim ("Binary install failed for \"" ++ tool.name ++ "\": " ++
            orElse result.stderr result.stdout))
        else pure ()

def installTool : Handler Unit :=
  match tool.installMethod with
  | .builtin => installBuiltin agentSlug tool
  | .apt => installApt agentSlug tool
  | .binary => installBinary cfg agentSlug tool

def upsertInstallStatus (agentDbId toolId : Uuid) (status : InstallStatus) (installMessage : String)
    (setInstalledAt : Bool) : Handler Unit :=
  query (Statement.upsertInstallStatus agentDbId toolId status installMessage setInstalledAt)

def installAttempt : Handler (Option String) := do
  installTool cfg agentSlug tool
  upsertInstallStatus agentDbId tool.id .installed "installed" true
  pure none

/-- The loop over attempts, `attempt` of them made and `left` retries to go.  It ends with the last
error, if there is one. -/
def attempts (retrying : ℕ → String → String) : ℕ → ℕ → Handler (Option String)
  | _, 0 => tryCatch (installAttempt cfg agentDbId agentSlug tool) fun err => pure (some err)
  | attempt, left + 1 => tryCatch (installAttempt cfg agentDbId agentSlug tool) fun err => do
    upsertInstallStatus agentDbId tool.id .installing (retrying (attempt + 1) err) false
    attempts retrying (attempt + 1) left

def maxRetries : ℕ := if tool.installMethod = .builtin then 0 else cfg.maxInstallRetries

def ensureTool : Handler PUnit := do
  upsertInstallStatus agentDbId tool.id .installing "starting installation" false
  let retrying := fun n err =>
    "attempt " ++ toString n ++ " failed, retrying: " ++ orElse err "unknown"
  let lastError ← attempts cfg agentDbId agentSlug tool retrying 0 (maxRetries cfg tool)
  match lastError with
  | none => pure ()
  | some err => do
    let msg := orElse err "installation failed"
    upsertInstallStatus agentDbId tool.id .failed msg false
    throw ("Failed installing required tool \"" ++ tool.name ++ "\": " ++ msg)

def ensureRequiredToolsInstalled : Handler PUnit := do
  let rows ← query (Statement.requiredTools agentDbId)
  rows.forM (ensureTool cfg agentDbId agentSlug)

structure Result where
  installed : List String
  alreadyInstalled : List String
  failed : List String
  deriving DecidableEq

def reconcileTool (installedSet : List Uuid) (result : Result) : Handler Result :=
  if tool.id ∈ installedSet then
    pure { result with alreadyInstalled := result.alreadyInstalled ++ [tool.name] }
  else do
    upsertInstallStatus agentDbId tool.id .installing "reconcile: starting installation" false
    let retrying := fun n _ => "reconcile: attempt " ++ toString n ++ " failed, retrying"
    let lastError ← attempts cfg agentDbId agentSlug tool retrying 0 (maxRetries cfg tool)
    match lastError with
    | none => pure { result with installed := result.installed ++ [tool.name] }
    | some err => do
      upsertInstallStatus agentDbId tool.id .failed (orElse err "installation failed") false
      pure { result with failed := result.failed ++ [tool.name] }

def reconcileTools (installedSet : List Uuid) : List ToolRow → Result → Handler Result
  | [], result => pure result
  | tool :: tools, result => do
    let result ← reconcileTool cfg agentDbId agentSlug tool installedSet result
    reconcileTools installedSet tools result

def reconcileToolInstalls : Handler Result := do
  let requiredTools ← query (Statement.requiredTools agentDbId)
  let existingInstalls ← query (Statement.existingInstalls agentDbId)
  let installedSet := (existingInstalls.filter fun r => r.2 = .installed).map (·.1)
  let result ← reconcileTools cfg agentDbId agentSlug installedSet requiredTools ⟨[], [], []⟩
  let requiredIds := requiredTools.map ToolRow.id
  (existingInstalls.filter fun existing => existing.1 ∉ requiredIds).forM fun existing =>
    query (Statement.deleteInstall agentDbId existing.1)
  pure result

end Installing

end Hill90.Agents.ToolInstalls
