import Hill90.Agentbox.Policy

/-! # What the skills of an agent permit together

The merge of the skills' configurations, and the policies that are made from it and from each of
them.
-/

namespace Hill90.Agentbox

open Skills (ShellConfig FilesystemConfig ToolsConfig dedupe mergeToolsConfigs defaultToolsConfig)

variable {Regex : Type} {boot now : Host Regex} {configs : List ToolsConfig} {c : ToolsConfig}

def PermitsCommand (boot now : Host Regex) (config : ShellConfig) (command : String) : Prop :=
  ∃ policy, CommandPolicy.init boot config = some policy ∧ policy.check now command = .allowed

def PermitsRead (boot now : Host Regex) (config : FilesystemConfig) (path : String) : Prop :=
  ∃ policy, PathPolicy.init boot config = some policy ∧ policy.checkRead now path = .allowed

def PermitsWrite (boot now : Host Regex) (config : FilesystemConfig) (path : String) : Prop :=
  ∃ policy, PathPolicy.init boot config = some policy ∧ policy.checkWrite now path = .allowed

def pathsOf (config : FilesystemConfig) : List String :=
  if config.allowedPaths = [] then ["/workspace"] else config.allowedPaths

section Lists

variable {α β : Type} {f : α → Option β} {xs : List α} {ys : List β}

theorem mem_of_mapM (h : xs.mapM f = some ys) (y : β) : y ∈ ys ↔ ∃ x ∈ xs, f x = some y := by
  induction xs generalizing ys with
  | nil =>
    cases h
    simp
  | cons x xs ih =>
    rw [List.mapM_cons] at h
    obtain ⟨z, hz, h⟩ := Option.bind_eq_some_iff.mp h
    obtain ⟨zs, hzs, h⟩ := Option.bind_eq_some_iff.mp h
    cases h
    simp [ih hzs, hz, eq_comm]

theorem mapM_isSome_iff : (∃ ys, xs.mapM f = some ys) ↔ ∀ x ∈ xs, ∃ y, f x = some y := by
  induction xs with
  | nil => simp
  | cons x xs ih =>
    simp only [List.mapM_cons, Option.bind_eq_bind, Option.bind_eq_some_iff, List.forall_mem_cons,
      ← ih]
    constructor
    · rintro ⟨_, y, hy, ys, hys, _⟩
      exact ⟨⟨y, hy⟩, ys, hys⟩
    · rintro ⟨⟨y, hy⟩, ys, hys⟩
      exact ⟨_, y, hy, ys, hys, rfl⟩

theorem mem_dedupe {x : String} {xs : List String} : x ∈ dedupe xs ↔ x ∈ xs := by
  induction xs with
  | nil => simp [dedupe]
  | cons y ys ih =>
    by_cases hxy : x = y
    · simp [dedupe, hxy]
    · simp [dedupe, hxy, ih]

end Lists

section Policies

variable {shell : ShellConfig} {filesystem : FilesystemConfig} {command path : String}

theorem commandInit_eq_some_iff {policy : CommandPolicy Regex} :
    CommandPolicy.init boot shell = some policy ↔ ∃ allowed denied,
      shell.allowedBinaries.mapM boot.resolveBinary = some allowed ∧
        shell.deniedPatterns.mapM boot.compile = some denied ∧
          policy = ⟨allowed, denied, shell.maxTimeout⟩ := by
  simp only [CommandPolicy.init, Option.bind_eq_bind, Option.bind_eq_some_iff, Option.pure_def,
    Option.some.injEq]
  constructor
  · rintro ⟨allowed, hallowed, denied, hdenied, rfl⟩
    exact ⟨allowed, denied, hallowed, hdenied, rfl⟩
  · rintro ⟨allowed, denied, hallowed, hdenied, rfl⟩
    exact ⟨allowed, hallowed, denied, hdenied, rfl⟩

theorem pathInit_eq_some_iff {policy : PathPolicy} :
    PathPolicy.init boot filesystem = some policy ↔ ∃ allowed denied,
      (pathsOf filesystem).mapM boot.realpath = some allowed ∧
        filesystem.deniedPaths.mapM boot.realpath = some denied ∧
          policy = ⟨allowed, denied, filesystem.readOnly⟩ := by
  simp only [PathPolicy.init, pathsOf, Option.bind_eq_bind, Option.bind_eq_some_iff, Option.pure_def,
    Option.some.injEq]
  constructor
  · rintro ⟨allowed, hallowed, denied, hdenied, rfl⟩
    exact ⟨allowed, denied, hallowed, hdenied, rfl⟩
  · rintro ⟨allowed, denied, hallowed, hdenied, rfl⟩
    exact ⟨allowed, hallowed, denied, hdenied, rfl⟩

theorem permitsCommand_iff : PermitsCommand boot now shell command ↔
    (∀ b ∈ shell.allowedBinaries, ∃ r, boot.resolveBinary b = some r) ∧
      (∀ p ∈ shell.deniedPatterns, ∃ re, boot.compile p = some re ∧ now.search re command = false) ∧
        ∃ binary args, now.shlexSplit command = some (binary :: args) ∧
          (shell.allowedBinaries ≠ [] → ∃ b ∈ shell.allowedBinaries, ∃ r,
            boot.resolveBinary b = some r ∧
              now.realpath ((now.which binary).getD binary) = some r) := by
  constructor
  · rintro ⟨policy, hinit, hcheck⟩
    obtain ⟨allowed, denied, hallowed, hdenied, rfl⟩ := commandInit_eq_some_iff.mp hinit
    obtain ⟨hclear, binary, args, hsplit, hlisted⟩ := check_eq_allowed_iff.mp hcheck
    refine ⟨mapM_isSome_iff.mp ⟨_, hallowed⟩, fun p hp => ?_, binary, args, hsplit, fun hne => ?_⟩
    · obtain ⟨re, hre⟩ := mapM_isSome_iff.mp ⟨_, hdenied⟩ p hp
      exact ⟨re, hre, hclear re ((mem_of_mapM hdenied re).mpr ⟨p, hp, hre⟩)⟩
    · have hallowed' : allowed ≠ [] := by
        obtain ⟨b, hb⟩ := List.exists_mem_of_ne_nil _ hne
        obtain ⟨r, hr⟩ := mapM_isSome_iff.mp ⟨_, hallowed⟩ b hb
        exact List.ne_nil_of_mem ((mem_of_mapM hallowed r).mpr ⟨b, hb, hr⟩)
      obtain ⟨r, hr, hreal⟩ := hlisted hallowed'
      obtain ⟨b, hb, hres⟩ := (mem_of_mapM hallowed r).mp hr
      exact ⟨b, hb, r, hres, hreal⟩
  · rintro ⟨hresolves, hclear, binary, args, hsplit, hlisted⟩
    obtain ⟨allowed, hallowed⟩ := mapM_isSome_iff.mpr hresolves
    obtain ⟨denied, hdenied⟩ : ∃ denied, shell.deniedPatterns.mapM boot.compile = some denied :=
      mapM_isSome_iff.mpr fun p hp => (hclear p hp).imp fun _ h => h.1
    refine ⟨_, commandInit_eq_some_iff.mpr ⟨allowed, denied, hallowed, hdenied, rfl⟩,
      check_eq_allowed_iff.mpr ⟨fun re hre => ?_, binary, args, hsplit, fun hne => ?_⟩⟩
    · obtain ⟨p, hp, hcompile⟩ := (mem_of_mapM hdenied re).mp hre
      obtain ⟨re', hcompile', hsearch⟩ := hclear p hp
      cases hcompile.symm.trans hcompile'
      exact hsearch
    · have hne' : shell.allowedBinaries ≠ [] := by
        intro hnil
        rw [hnil] at hallowed
        cases hallowed
        exact hne rfl
      obtain ⟨b, hb, r, hres, hreal⟩ := hlisted hne'
      exact ⟨r, (mem_of_mapM hallowed r).mpr ⟨b, hb, hres⟩, hreal⟩

theorem permitsRead_iff : PermitsRead boot now filesystem path ↔
    (∀ p ∈ pathsOf filesystem, ∃ d, boot.realpath p = some d) ∧
      ∃ real, now.realpath path = some real ∧
        (∀ p ∈ filesystem.deniedPaths, ∃ d, boot.realpath p = some d ∧ within real d = false) ∧
          ∃ p ∈ pathsOf filesystem, ∃ d, boot.realpath p = some d ∧ within real d = true := by
  constructor
  · rintro ⟨policy, hinit, hcheck⟩
    obtain ⟨allowed, denied, hallowed, hdenied, rfl⟩ := pathInit_eq_some_iff.mp hinit
    obtain ⟨real, hreal, hclear, d, hd, hwithin⟩ := checkRead_eq_allowed_iff.mp hcheck
    refine ⟨mapM_isSome_iff.mp ⟨_, hallowed⟩, real, hreal, fun p hp => ?_, ?_⟩
    · obtain ⟨d, hd⟩ := mapM_isSome_iff.mp ⟨_, hdenied⟩ p hp
      exact ⟨d, hd, hclear d ((mem_of_mapM hdenied d).mpr ⟨p, hp, hd⟩)⟩
    · obtain ⟨p, hp, hpd⟩ := (mem_of_mapM hallowed d).mp hd
      exact ⟨p, hp, d, hpd, hwithin⟩
  · rintro ⟨hresolves, real, hreal, hclear, p, hp, d, hpd, hwithin⟩
    obtain ⟨allowed, hallowed⟩ := mapM_isSome_iff.mpr hresolves
    obtain ⟨denied, hdenied⟩ : ∃ denied, filesystem.deniedPaths.mapM boot.realpath = some denied :=
      mapM_isSome_iff.mpr fun p hp => (hclear p hp).imp fun _ h => h.1
    refine ⟨_, pathInit_eq_some_iff.mpr ⟨allowed, denied, hallowed, hdenied, rfl⟩,
      checkRead_eq_allowed_iff.mpr ⟨real, hreal, fun d' hd' => ?_, d, ?_, hwithin⟩⟩
    · obtain ⟨p', hp', hpd'⟩ := (mem_of_mapM hdenied d').mp hd'
      obtain ⟨d'', hd'', hout⟩ := hclear p' hp'
      cases hpd'.symm.trans hd''
      exact hout
    · exact (mem_of_mapM hallowed d).mpr ⟨p, hp, hpd⟩

theorem permitsWrite_iff : PermitsWrite boot now filesystem path ↔
    filesystem.readOnly = false ∧ PermitsRead boot now filesystem path := by
  constructor
  · rintro ⟨policy, hinit, hcheck⟩
    have hreadOnly : policy.readOnly = filesystem.readOnly := by
      obtain ⟨_, _, _, _, rfl⟩ := pathInit_eq_some_iff.mp hinit
      rfl
    rw [PathPolicy.checkWrite, hreadOnly] at hcheck
    cases hflag : filesystem.readOnly with
    | true => simp [hflag] at hcheck
    | false => exact ⟨rfl, policy, hinit, by simpa [hflag] using hcheck⟩
  · rintro ⟨hflag, policy, hinit, hcheck⟩
    have hreadOnly : policy.readOnly = filesystem.readOnly := by
      obtain ⟨_, _, _, _, rfl⟩ := pathInit_eq_some_iff.mp hinit
      rfl
    exact ⟨policy, hinit, by simpa [PathPolicy.checkWrite, hreadOnly, hflag] using hcheck⟩

end Policies

section Merge

theorem mem_denied_of_mem (hc : c ∈ configs) :
    (∀ p ∈ c.shell.deniedPatterns, p ∈ (mergeToolsConfigs configs).shell.deniedPatterns) ∧
      ∀ p ∈ c.filesystem.deniedPaths, p ∈ (mergeToolsConfigs configs).filesystem.deniedPaths := by
  match configs, hc with
  | [_], hc =>
    cases List.mem_singleton.mp hc
    exact ⟨fun _ h => h, fun _ h => h⟩
  | _ :: _ :: _, hc =>
    constructor
    · intro p hp
      exact mem_dedupe.mpr (List.mem_flatMap.mpr ⟨c, hc, hp⟩)
    · intro p hp
      exact mem_dedupe.mpr (List.mem_flatMap.mpr ⟨c, hc, hp⟩)

theorem merged_binaries (hne : configs ≠ []) :
    ((mergeToolsConfigs configs).shell.allowedBinaries = [] ∧
        ∃ c ∈ configs, c.shell.allowedBinaries = []) ∨
      (∀ c ∈ configs, c.shell.allowedBinaries ≠ []) ∧
        ∀ b, b ∈ (mergeToolsConfigs configs).shell.allowedBinaries ↔
          ∃ c ∈ configs, b ∈ c.shell.allowedBinaries := by
  match configs, hne with
  | [c], _ =>
    by_cases hnil : c.shell.allowedBinaries = []
    · exact .inl ⟨hnil, c, by simp, hnil⟩
    · exact .inr ⟨by simpa using hnil, by simp [mergeToolsConfigs]⟩
  | c :: c' :: cs, _ =>
    by_cases hany : ∃ x ∈ c :: c' :: cs, x.shell.allowedBinaries = []
    · refine .inl ⟨?_, hany⟩
      have hany' : ((c :: c' :: cs).any fun x => x.shell.allowedBinaries = []) = true := by
        simpa only [List.any_eq_true, decide_eq_true_eq] using hany
      exact if_pos hany'
    · refine .inr ⟨fun x hx hnil => hany ⟨x, hx, hnil⟩, fun b => ?_⟩
      have hany' : ¬((c :: c' :: cs).any fun x => x.shell.allowedBinaries = []) = true := by
        simpa only [List.any_eq_true, decide_eq_true_eq] using hany
      have heq : (mergeToolsConfigs (c :: c' :: cs)).shell.allowedBinaries =
          dedupe ((c :: c' :: cs).flatMap (·.shell.allowedBinaries)) := if_neg hany'
      rw [heq, mem_dedupe, List.mem_flatMap]

theorem mem_merged_paths (hne : configs ≠ []) (p : String) :
    p ∈ (mergeToolsConfigs configs).filesystem.allowedPaths ↔
      ∃ c ∈ configs, p ∈ c.filesystem.allowedPaths := by
  match configs, hne with
  | [c], _ => simp [mergeToolsConfigs]
  | c :: c' :: cs, _ =>
    change p ∈ dedupe _ ↔ _
    rw [mem_dedupe, List.mem_flatMap]

theorem merged_flags (configs : List ToolsConfig) :
    ((mergeToolsConfigs configs).shell.enabled = true → ∃ c ∈ configs, c.shell.enabled = true) ∧
      ((mergeToolsConfigs configs).filesystem.enabled = true →
        ∃ c ∈ configs, c.filesystem.enabled = true) ∧
        (configs ≠ [] → (mergeToolsConfigs configs).filesystem.readOnly = false →
          ∃ c ∈ configs, c.filesystem.readOnly = false) := by
  match configs with
  | [] => simp [mergeToolsConfigs, defaultToolsConfig]
  | [c] => simp [mergeToolsConfigs]
  | c :: c' :: cs =>
    refine ⟨fun h => ?_, fun h => ?_, fun _ h => ?_⟩
    · exact List.any_eq_true.mp h
    · exact List.any_eq_true.mp h
    · obtain ⟨x, hx, hflag⟩ := List.all_eq_false.mp h
      exact ⟨x, hx, by simpa using hflag⟩

variable {command path : String}

theorem permitsCommand_of_merged (hne : configs ≠ [])
    (h : PermitsCommand boot now (mergeToolsConfigs configs).shell command) :
    ∃ c ∈ configs, PermitsCommand boot now c.shell command := by
  obtain ⟨hresolves, hclear, binary, args, hsplit, hlisted⟩ := permitsCommand_iff.mp h
  have hdenied : ∀ c ∈ configs, ∀ p ∈ c.shell.deniedPatterns,
      ∃ re, boot.compile p = some re ∧ now.search re command = false :=
    fun c hc p hp => hclear p ((mem_denied_of_mem hc).1 p hp)
  obtain ⟨_, c, hc, hnil⟩ | ⟨hall, hmem⟩ := merged_binaries hne
  · refine ⟨c, hc, permitsCommand_iff.mpr ⟨?_, hdenied c hc, binary, args, hsplit, ?_⟩⟩
    · simp [hnil]
    · exact fun hne => absurd hnil hne
  · have hmerged : (mergeToolsConfigs configs).shell.allowedBinaries ≠ [] := by
      obtain ⟨c, hc⟩ := List.exists_mem_of_ne_nil _ hne
      obtain ⟨b, hb⟩ := List.exists_mem_of_ne_nil _ (hall c hc)
      exact List.ne_nil_of_mem ((hmem b).mpr ⟨c, hc, hb⟩)
    obtain ⟨b, hb, r, hres, hreal⟩ := hlisted hmerged
    obtain ⟨c, hc, hbc⟩ := (hmem b).mp hb
    refine ⟨c, hc, permitsCommand_iff.mpr ⟨?_, hdenied c hc, binary, args, hsplit, ?_⟩⟩
    · exact fun b' hb' => hresolves b' ((hmem b').mpr ⟨c, hc, hb'⟩)
    · exact fun _ => ⟨b, hbc, r, hres, hreal⟩

theorem permitsRead_of_merged (hne : configs ≠ [])
    (h : PermitsRead boot now (mergeToolsConfigs configs).filesystem path) :
    ∃ c ∈ configs, PermitsRead boot now c.filesystem path := by
  obtain ⟨hresolves, real, hreal, hclear, p, hp, d, hpd, hwithin⟩ := permitsRead_iff.mp h
  have hdenied : ∀ c ∈ configs, ∀ p ∈ c.filesystem.deniedPaths,
      ∃ d, boot.realpath p = some d ∧ within real d = false :=
    fun c hc p hp => hclear p ((mem_denied_of_mem hc).2 p hp)
  -- the skill whose list the path is in; where no skill has a list, any of them
  obtain ⟨c, hc, hpc, hsub⟩ : ∃ c ∈ configs, p ∈ pathsOf c.filesystem ∧
      ∀ q ∈ pathsOf c.filesystem, q ∈ pathsOf (mergeToolsConfigs configs).filesystem := by
    by_cases hnil : (mergeToolsConfigs configs).filesystem.allowedPaths = []
    · obtain ⟨c, hc⟩ := List.exists_mem_of_ne_nil _ hne
      have hcnil : c.filesystem.allowedPaths = [] := by
        refine List.eq_nil_iff_forall_not_mem.mpr fun q hq => ?_
        have hmerged := (mem_merged_paths hne q).mpr ⟨c, hc, hq⟩
        rw [hnil] at hmerged
        cases hmerged
      refine ⟨c, hc, ?_⟩
      simpa [pathsOf, hnil, hcnil] using hp
    · rw [pathsOf, if_neg hnil] at hp
      obtain ⟨c, hc, hpc⟩ := (mem_merged_paths hne p).mp hp
      refine ⟨c, hc, ?_⟩
      rw [pathsOf, if_neg (List.ne_nil_of_mem hpc), pathsOf, if_neg hnil]
      exact ⟨hpc, fun q hq => (mem_merged_paths hne q).mpr ⟨c, hc, hq⟩⟩
  exact ⟨c, hc, permitsRead_iff.mpr ⟨fun q hq => hresolves q (hsub q hq), real, hreal,
    hdenied c hc, p, hpc, d, hpd, hwithin⟩⟩

end Merge

/-- What a merge permits, one of the skills permits by its lists; its flags may come from others. -/
theorem mergeToolsConfigs_permits (boot now : Host Regex) (configs : List ToolsConfig)
    (command path : String) :
    ((mergeToolsConfigs configs).shell.enabled = true →
        PermitsCommand boot now (mergeToolsConfigs configs).shell command →
        (∃ c ∈ configs, c.shell.enabled = true) ∧
          ∃ c ∈ configs, PermitsCommand boot now c.shell command) ∧
      ((mergeToolsConfigs configs).filesystem.enabled = true →
        (PermitsRead boot now (mergeToolsConfigs configs).filesystem path →
          (∃ c ∈ configs, c.filesystem.enabled = true) ∧
            ∃ c ∈ configs, PermitsRead boot now c.filesystem path) ∧
        (PermitsWrite boot now (mergeToolsConfigs configs).filesystem path →
          (∃ c ∈ configs, c.filesystem.enabled = true) ∧
            (∃ c ∈ configs, c.filesystem.readOnly = false) ∧
              ∃ c ∈ configs, PermitsRead boot now c.filesystem path)) := by
  obtain ⟨hshell, hfilesystem, hreadOnly⟩ := merged_flags configs
  have hne_of : ∀ {f : ToolsConfig → Bool}, (∃ c ∈ configs, f c = true) → configs ≠ [] :=
    fun ⟨_, hc, _⟩ => List.ne_nil_of_mem hc
  refine ⟨fun henabled h => ?_, fun henabled => ⟨fun h => ?_, fun h => ?_⟩⟩
  · have hsome := hshell henabled
    exact ⟨hsome, permitsCommand_of_merged (hne_of hsome) h⟩
  · have hsome := hfilesystem henabled
    exact ⟨hsome, permitsRead_of_merged (hne_of hsome) h⟩
  · have hsome := hfilesystem henabled
    obtain ⟨hflag, hread⟩ := permitsWrite_iff.mp h
    exact ⟨hsome, hreadOnly (hne_of hsome) hflag, permitsRead_of_merged (hne_of hsome) hread⟩

/-- A container without links, where a pattern matches the command it spells. -/
def plainHost : Host String where
  compile := some
  search pattern command := pattern = command
  shlexSplit command := if command = "" then some [] else some [command]
  which name := some ("/usr/bin/" ++ name)
  realpath := some

def gitSkill : ToolsConfig where
  shell := { enabled := true, allowedBinaries := ["git"] }
  filesystem := { enabled := true, readOnly := true, allowedPaths := ["/data"] }

/-- Its shell is off, and its list of binaries empty. -/
def filesSkill : ToolsConfig where
  shell := { enabled := false }
  filesystem := { enabled := true, allowedPaths := ["/workspace"] }

/-- Its file system is off. -/
def logsSkill : ToolsConfig where
  shell := { enabled := false }
  filesystem := { enabled := false, allowedPaths := ["/logs"] }

theorem mergeToolsConfigs_widens :
    (((mergeToolsConfigs [gitSkill, filesSkill]).shell.enabled = true ∧
        PermitsCommand plainHost plainHost (mergeToolsConfigs [gitSkill, filesSkill]).shell "rm") ∧
      ¬∃ c ∈ [gitSkill, filesSkill], c.shell.enabled = true ∧
        PermitsCommand plainHost plainHost c.shell "rm") ∧
    (((mergeToolsConfigs [gitSkill, logsSkill]).filesystem.enabled = true ∧
        PermitsRead plainHost plainHost (mergeToolsConfigs [gitSkill, logsSkill]).filesystem
          "/logs/a") ∧
      ¬∃ c ∈ [gitSkill, logsSkill], c.filesystem.enabled = true ∧
        PermitsRead plainHost plainHost c.filesystem "/logs/a") ∧
    (((mergeToolsConfigs [gitSkill, filesSkill]).filesystem.enabled = true ∧
        PermitsWrite plainHost plainHost (mergeToolsConfigs [gitSkill, filesSkill]).filesystem
          "/data/a") ∧
      ¬∃ c ∈ [gitSkill, filesSkill], c.filesystem.enabled = true ∧
        PermitsWrite plainHost plainHost c.filesystem "/data/a") := by
  refine ⟨⟨⟨rfl, _, rfl, by decide⟩, ?_⟩, ⟨⟨rfl, _, rfl, by decide⟩, ?_⟩, ⟨rfl, _, rfl, by decide⟩, ?_⟩
  · simp only [List.mem_cons, List.not_mem_nil, or_false]
    rintro ⟨c, rfl | rfl, henabled, policy, ⟨⟩, hcheck⟩
    · revert hcheck
      decide
    · cases henabled
  · simp only [List.mem_cons, List.not_mem_nil, or_false]
    rintro ⟨c, rfl | rfl, henabled, policy, ⟨⟩, hcheck⟩
    · revert hcheck
      decide
    · cases henabled
  · simp only [List.mem_cons, List.not_mem_nil, or_false]
    rintro ⟨c, rfl | rfl, _, policy, ⟨⟩, hcheck⟩
    · revert hcheck
      decide
    · revert hcheck
      decide

theorem mergeToolsConfigs_permits_git :
    (∃ c ∈ [gitSkill, filesSkill], c.shell.enabled = true) ∧
      ∃ c ∈ [gitSkill, filesSkill], PermitsCommand plainHost plainHost c.shell "rm" :=
  (mergeToolsConfigs_permits plainHost plainHost [gitSkill, filesSkill] "rm" "/data/a").1 rfl
    ⟨_, rfl, by decide⟩

end Hill90.Agentbox
