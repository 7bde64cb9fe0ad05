import Hill90.Skills.Record

/-! # The policies of an agent's container

`policy.py`, over what the host answers when a policy is made and when it is asked: the links of the
file system and the binaries on the path may differ between the two.
-/

namespace Hill90.Agentbox

open Skills (ShellConfig FilesystemConfig ToolsConfig)

/-- The library and the file system.  `compile` and `realpath` have no result where Python raises. -/
structure Host (Regex : Type) where
  compile : String → Option Regex
  search : Regex → String → Bool
  shlexSplit : String → Option (List String)
  which : String → Option String
  realpath : String → Option String

variable {Regex : Type}

inductive Verdict where
  | allowed
  | refused (reason : String)
  | raised
  deriving DecidableEq, Repr

structure CommandPolicy (Regex : Type) where
  allowed : List String
  denied : List Regex
  maxTimeout : ℕ
  deriving DecidableEq, Repr

structure PathPolicy where
  allowed : List String
  denied : List String
  readOnly : Bool
  deriving DecidableEq, Repr

namespace Host

variable (host : Host Regex)

/-- One pass of `_resolve_binaries`. -/
def resolveBinary (name : String) : Option String :=
  match if name.toList.head? = some '/' then some name else host.which name with
  | some path => host.realpath path
  | none => some name

end Host

namespace CommandPolicy

def init (host : Host Regex) (config : ShellConfig) : Option (CommandPolicy Regex) := do
  let allowed ← config.allowedBinaries.mapM host.resolveBinary
  let denied ← config.deniedPatterns.mapM host.compile
  pure ⟨allowed, denied, config.maxTimeout⟩

def check (host : Host Regex) (policy : CommandPolicy Regex) (command : String) : Verdict :=
  if policy.denied.any fun pattern => host.search pattern command then
    .refused "Command matches denied pattern"
  else
    match host.shlexSplit command with
    | none => .refused "Could not parse command"
    | some [] => .refused "Empty command"
    | some (binary :: _) =>
      if policy.allowed = [] then .allowed
      else
        match host.realpath ((host.which binary).getD binary) with
        | none => .raised
        | some resolved =>
          if resolved ∈ policy.allowed then .allowed
          else .refused s!"Binary '{binary}' ({resolved}) not in allowlist"

end CommandPolicy

def within (real directory : String) : Bool :=
  real = directory || (directory ++ "/").toList.isPrefixOf real.toList

namespace PathPolicy

/-- An empty list of allowed paths stands for the workspace. -/
def init (host : Host Regex) (config : FilesystemConfig) : Option PathPolicy := do
  let paths := if config.allowedPaths = [] then ["/workspace"] else config.allowedPaths
  let allowed ← paths.mapM host.realpath
  let denied ← config.deniedPaths.mapM host.realpath
  pure ⟨allowed, denied, config.readOnly⟩

def checkRead (host : Host Regex) (policy : PathPolicy) (path : String) : Verdict :=
  match host.realpath path with
  | none => .raised
  | some real =>
    if policy.denied.any (within real) then .refused s!"Path '{path}' is in denied list"
    else if policy.allowed.any (within real) then .allowed
    else .refused s!"Path '{path}' is not in allowed paths"

def checkWrite (host : Host Regex) (policy : PathPolicy) (path : String) : Verdict :=
  if policy.readOnly then .refused "Filesystem is read-only" else policy.checkRead host path

end PathPolicy

theorem check_eq_allowed_iff {host : Host Regex} {policy : CommandPolicy Regex} {command : String} :
    policy.check host command = .allowed ↔
      (∀ pattern ∈ policy.denied, host.search pattern command = false) ∧
        ∃ binary args, host.shlexSplit command = some (binary :: args) ∧
          (policy.allowed ≠ [] →
            ∃ resolved ∈ policy.allowed,
              host.realpath ((host.which binary).getD binary) = some resolved) := by
  unfold CommandPolicy.check
  split
  · rename_i hdenied
    obtain ⟨pattern, hpattern, hsearch⟩ := List.any_eq_true.mp hdenied
    refine iff_of_false nofun fun h => ?_
    rw [h.1 pattern hpattern] at hsearch
    cases hsearch
  · rename_i hdenied
    have hclear : ∀ pattern ∈ policy.denied, host.search pattern command = false := by
      simpa using hdenied
    cases hsplit : host.shlexSplit command with
    | none => simp
    | some argv =>
      cases argv with
      | nil => simp
      | cons binary args =>
        by_cases hempty : policy.allowed = []
        · simpa [hempty] using hclear
        · cases hreal : host.realpath ((host.which binary).getD binary) with
          | none => simp [hempty, hreal]
          | some resolved =>
            by_cases hmem : resolved ∈ policy.allowed
            · simpa [hempty, hreal, hmem] using hclear
            · simp [hempty, hreal, hmem]

theorem checkRead_eq_allowed_iff {host : Host Regex} {policy : PathPolicy} {path : String} :
    policy.checkRead host path = .allowed ↔
      ∃ real, host.realpath path = some real ∧
        (∀ directory ∈ policy.denied, within real directory = false) ∧
          ∃ directory ∈ policy.allowed, within real directory = true := by
  unfold PathPolicy.checkRead
  cases hreal : host.realpath path with
  | none => simp
  | some real =>
    dsimp only
    by_cases hdenied : policy.denied.any (within real) = true
    · rw [if_pos hdenied]
      obtain ⟨directory, hmem, hwithin⟩ := List.any_eq_true.mp hdenied
      refine iff_of_false nofun ?_
      rintro ⟨_, ⟨⟩, hclear, _⟩
      rw [hclear directory hmem] at hwithin
      cases hwithin
    · have hclear : ∀ directory ∈ policy.denied, within real directory = false := by
        simpa using hdenied
      by_cases hallowed : policy.allowed.any (within real) = true
      · rw [if_neg hdenied, if_pos hallowed]
        exact iff_of_true rfl ⟨real, rfl, hclear, List.any_eq_true.mp hallowed⟩
      · rw [if_neg hdenied, if_neg hallowed]
        refine iff_of_false nofun ?_
        rintro ⟨_, ⟨⟩, _, hsome⟩
        exact hallowed (List.any_eq_true.mpr hsome)

end Hill90.Agentbox
