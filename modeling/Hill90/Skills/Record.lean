import Hill90.Policies.Record

/-! # Agents and their skills

The rows of `agents`, `skills` and `agent_skills`, and the merge of the skills' `tools_config`.
-/

namespace Hill90.Skills

open Chat (Uuid)

inductive Scope where
  | containerLocal
  | hostDocker
  | vpsSystem
  deriving DecidableEq, Repr

def Scope.elevated : Scope → Bool
  | containerLocal => false
  | hostDocker | vpsSystem => true

def Scope.text : Scope → String
  | containerLocal => "container_local"
  | hostDocker => "host_docker"
  | vpsSystem => "vps_system"

structure ShellConfig where
  enabled : Bool
  allowedBinaries : List String := []
  deniedPatterns : List String := []
  maxTimeout : ℕ := 300
  deriving DecidableEq, Repr

structure FilesystemConfig where
  enabled : Bool
  readOnly : Bool := false
  allowedPaths : List String := ["/workspace", "/home/agentuser"]
  deniedPaths : List String := []
  deriving DecidableEq, Repr

structure ToolsConfig where
  shell : ShellConfig
  filesystem : FilesystemConfig
  health : Bool := true
  deriving DecidableEq, Repr

def defaultToolsConfig : ToolsConfig where
  shell := { enabled := false }
  filesystem := { enabled := false }

def dedupe {α : Type} [DecidableEq α] : List α → List α
  | [] => []
  | x :: xs => x :: (dedupe xs).filter (· ≠ x)

def mergeToolsConfigs : List ToolsConfig → ToolsConfig
  | [] => defaultToolsConfig
  | [config] => config
  | configs =>
    { shell :=
        { enabled := configs.any (·.shell.enabled)
          -- an empty list allows every binary
          allowedBinaries := if configs.any (·.shell.allowedBinaries = []) then []
            else dedupe (configs.flatMap (·.shell.allowedBinaries))
          deniedPatterns := dedupe (configs.flatMap (·.shell.deniedPatterns))
          maxTimeout := (configs.map (·.shell.maxTimeout)).foldl max 0 }
      filesystem :=
        { enabled := configs.any (·.filesystem.enabled)
          readOnly := configs.all (·.filesystem.readOnly)
          allowedPaths := dedupe (configs.flatMap (·.filesystem.allowedPaths))
          deniedPaths := dedupe (configs.flatMap (·.filesystem.deniedPaths)) }
      health := configs.any (·.health) }

structure StoredShell where
  enabled : Option Bool := none
  allowedBinaries : Option (List (Option String)) := none
  deniedPatterns : Option (List (Option String)) := none
  maxTimeout : Option ℕ := none
  deriving DecidableEq, Repr

structure StoredFilesystem where
  enabled : Option Bool := none
  readOnly : Option Bool := none
  allowedPaths : Option (List (Option String)) := none
  deniedPaths : Option (List (Option String)) := none
  deriving DecidableEq, Repr

/-- A `tools_config` as it is stored, which may lack sections and fields. -/
structure StoredConfig where
  shell : Option StoredShell := none
  filesystem : Option StoredFilesystem := none
  health : Option (Option Bool) := none
  deriving DecidableEq, Repr

def ShellConfig.stored (c : ShellConfig) : StoredShell where
  enabled := some c.enabled
  allowedBinaries := some (c.allowedBinaries.map some)
  deniedPatterns := some (c.deniedPatterns.map some)
  maxTimeout := some c.maxTimeout

def FilesystemConfig.stored (c : FilesystemConfig) : StoredFilesystem where
  enabled := some c.enabled
  readOnly := some c.readOnly
  allowedPaths := some (c.allowedPaths.map some)
  deniedPaths := some (c.deniedPaths.map some)

def ToolsConfig.stored (c : ToolsConfig) : StoredConfig where
  shell := some c.shell.stored
  filesystem := some c.filesystem.stored
  health := some (some c.health)

/-- `flatMap` takes an `undefined` for a list that is lacking, and a maximum with one is no number. -/
def mergeParts (anyUnrestricted : Bool) (shells : List StoredShell)
    (filesystems : List StoredFilesystem) (health : Bool) : StoredConfig where
  shell := some
    { enabled := some (shells.any (·.enabled.getD false))
      allowedBinaries := some (if anyUnrestricted then []
        else dedupe (shells.flatMap (·.allowedBinaries.getD [none])))
      deniedPatterns := some (dedupe (shells.flatMap (·.deniedPatterns.getD [none])))
      maxTimeout := (shells.mapM StoredShell.maxTimeout).map (·.foldl max 0) }
  filesystem := some
    { enabled := some (filesystems.any (·.enabled.getD false))
      readOnly := some (filesystems.all (·.readOnly.getD false))
      allowedPaths := some (dedupe (filesystems.flatMap (·.allowedPaths.getD [none])))
      deniedPaths := some (dedupe (filesystems.flatMap (·.deniedPaths.getD [none]))) }
  health := some (some health)

/-- `mergeToolsConfigs` of what is stored, or its TypeError.  `some` stops at the first that holds,
`flatMap` comes to them all. -/
def mergeStored : List StoredConfig → Option StoredConfig
  | [] => some defaultToolsConfig.stored
  | [config] => some config
  | configs => do
    let anyUnrestricted ← configs.anyM fun c =>
      c.shell.bind fun shell => shell.allowedBinaries.map List.isEmpty
    let shells ← configs.mapM (·.shell)
    let filesystems ← configs.mapM (·.filesystem)
    let health ← configs.anyM fun c => c.health.map (·.getD false)
    some (mergeParts anyUnrestricted shells filesystems health)

section Stored

theorem dedupe_map_some (l : List String) : dedupe (l.map some) = (dedupe l).map some := by
  induction l with
  | nil => rfl
  | cons x l ih => simp [dedupe, ih, List.filter_map, Function.comp_def]

variable {β : Type} (configs : List ToolsConfig)

theorem anyM_stored {p : StoredConfig → Option Bool} {q : ToolsConfig → Bool}
    (h : ∀ c, p c.stored = some (q c)) :
    (configs.map ToolsConfig.stored).anyM p = some (configs.any q) := by
  induction configs with
  | nil => rfl
  | cons c configs ih => cases hc : q c <;> simp [h, hc, ih]

theorem mapM_stored {f : StoredConfig → Option β} {g : ToolsConfig → β}
    (h : ∀ c, f c.stored = some (g c)) :
    (configs.map ToolsConfig.stored).mapM f = some (configs.map g) := by
  rw [List.mapM_map, show f ∘ ToolsConfig.stored = fun c => pure (g c) from funext h]
  exact List.mapM_pure

/-- Configurations that lack nothing are merged as the table of the merge says. -/
theorem mergeStored_stored :
    mergeStored (configs.map ToolsConfig.stored) = some (mergeToolsConfigs configs).stored := by
  match configs with
  | [] => rfl
  | [config] => rfl
  | c :: d :: configs =>
    have hunrestricted := anyM_stored (c :: d :: configs)
      (p := fun c => c.shell.bind fun shell => shell.allowedBinaries.map List.isEmpty)
      (q := fun c => c.shell.allowedBinaries = []) fun c => by
        cases h : c.shell.allowedBinaries <;> simp [ToolsConfig.stored, ShellConfig.stored, h]
    have hshells := mapM_stored (c :: d :: configs) (f := StoredConfig.shell)
      (g := fun c => c.shell.stored) fun _ => rfl
    have hfilesystems := mapM_stored (c :: d :: configs) (f := StoredConfig.filesystem)
      (g := fun c => c.filesystem.stored) fun _ => rfl
    have hhealth := anyM_stored (c :: d :: configs)
      (p := fun c => c.health.map (·.getD false)) (q := (·.health)) fun _ => rfl
    have htimeouts : ((c :: d :: configs).map fun c => c.shell.stored).mapM StoredShell.maxTimeout =
        some ((c :: d :: configs).map (·.shell.maxTimeout)) := by
      rw [List.mapM_map]
      exact List.mapM_pure
    have hmerge : mergeStored ((c :: d :: configs).map ToolsConfig.stored) =
        some (mergeParts ((c :: d :: configs).any (·.shell.allowedBinaries = []))
          ((c :: d :: configs).map fun c => c.shell.stored)
          ((c :: d :: configs).map fun c => c.filesystem.stored)
          ((c :: d :: configs).any (·.health))) := by
      rw [List.map_cons, List.map_cons, mergeStored, ← List.map_cons, ← List.map_cons, hunrestricted,
        hshells, hfilesystems, hhealth]
      · rfl
      · rintro ⟨⟩
      · rintro _ ⟨⟩
    rw [hmerge, mergeParts, htimeouts]
    simp only [mergeToolsConfigs, ToolsConfig.stored, ShellConfig.stored, FilesystemConfig.stored,
      List.flatMap_map, Option.getD_some, List.any_map, List.all_map, Function.comp_def,
      ← List.map_flatMap, dedupe_map_some, Option.map_some]
    split <;> simp

end Stored

structure Skill where
  id : Uuid
  name : String
  scope : Scope := .containerLocal
  toolsConfig : StoredConfig := defaultToolsConfig.stored
  isPlatform : Bool := false
  deriving DecidableEq, Repr

structure Agent where
  id : Uuid
  agentId : String
  name : String
  description : String := ""
  status : String := "stopped"
  toolsConfig : StoredConfig := defaultToolsConfig.stored
  cpus : String := "1.0"
  memLimit : String := "1g"
  pidsLimit : ℤ := 200
  soulMd : String := ""
  rulesMd : String := ""
  modelPolicyId : Option Uuid := none
  containerProfileId : Option Uuid := none
  tags : List String := []
  createdBy : String
  deriving DecidableEq, Repr

structure Assignment where
  agentId : Uuid
  skillId : Uuid
  assignedBy : String
  deriving DecidableEq, Repr

def Assignment.key (a : Assignment) : Uuid × Uuid := (a.agentId, a.skillId)

structure Store where
  agents : Table Agent.id := Table.empty
  skills : Table Skill.id := Table.empty
  assignments : Table Assignment.key := Table.empty
  policies : Table Policies.Policy.id := Table.empty
  models : Table Policies.ModelEntry.id := Table.empty
  profiles : List Uuid := []
  nextId : Uuid := 0

namespace Store

variable (s : Store)

def skillsOf (agentId : Uuid) : List Skill :=
  (s.assignments.rows.filter fun a => a.agentId = agentId).filterMap fun a => s.skills.get? a.skillId

def modelsOf (policyId : Option Uuid) : List String :=
  ((policyId.bind s.policies.get?).map (·.allowedModels)).getD []

def defaultPolicy : Option Uuid :=
  (s.policies.rows.find? fun p => p.name = "default" && p.createdBy = none).map (·.id)

def Elevated (skillId : Uuid) : Prop := ∃ k ∈ s.skills.rows, k.id = skillId ∧ k.scope.elevated = true

end Store

end Hill90.Skills
