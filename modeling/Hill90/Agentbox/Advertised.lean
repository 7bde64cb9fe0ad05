import Hill90.Agentbox.Authority
import Hill90.Agentbox.Tools

/-! # Tools that are not advertised

What a call may do, by the configuration the definitions were built from.
-/

namespace Hill90.Agentbox

open Skills (ToolsConfig)
open Router (Json)
open Program

variable {Regex : Type} {py : Python} {boot host : Host Regex} {modules : Modules Regex}
  {env : Environ} {args : Arguments} {config : ToolsConfig} {name : String} {logOpens : Bool}

def unguardedTools : List String := ["tmux", "browser", "http_request", "git"]

def Quiet {α : Type} (p : Handler α) : Prop := p.Only fun st => st.effect = false

def EffectAdvertised (py : Python) (host : Host Regex) (modules : Modules Regex) (env : Environ)
    (config : ToolsConfig) (name : String) (args : Arguments) : Prop :=
  (executeToolCall py host modules env args name).Only fun st =>
    st.effect = true → name ∈ buildToolDefinitions config env

theorem only_of_forall {α : Type} {A : Statement → Prop} (hA : ∀ st, A st) (p : Handler α) :
    Only A p := by
  induction p with
  | reply a => exact trivial
  | raise e => exact trivial
  | await st k r ihk ihr => exact ⟨hA st, ihk, ihr⟩

theorem quiet_asText (v : Json) : Quiet (asText v) := by
  cases v <;> exact trivial

/-! ## What each handler needs -/

theorem quiet_executeCommand (h : modules.shellPolicy = none) (command : Json) :
    Quiet (executeCommand host modules command) := by
  rw [executeCommand, h]
  exact trivial

theorem quiet_guarded {check : PathPolicy → String → Verdict} {path : Json}
    {body : String → Handler ToolResult}
    (h : ∀ policy, modules.pathPolicy = some policy → ∀ p, check policy p ≠ .allowed) :
    Quiet (guarded modules check path body) := by
  unfold guarded
  cases hpolicy : modules.pathPolicy with
  | none => exact trivial
  | some policy =>
    refine only_bind (quiet_asText path) fun p => ?_
    cases hcheck : check policy p with
    | allowed => exact absurd hcheck (h policy hpolicy p)
    | refused reason => exact trivial
    | raised => exact trivial

theorem quiet_withAkm {message : String} {body : Handler ToolResult}
    (h : ¬(env.akmToken ≠ "" ∧ env.akmServiceUrl ≠ "")) : Quiet (withAkm env message body) := by
  have hunset : env.akmServiceUrl = "" ∨ env.akmToken = "" := by
    by_contra hset
    rw [not_or] at hset
    exact h ⟨hset.2, hset.1⟩
  rw [withAkm, if_pos hunset]
  exact trivial

theorem quiet_executeWebSearch (h : env.tavilyApiKey = "") :
    Quiet (executeWebSearch py env args) := by
  refine only_bind (quiet_asText _) fun q => ?_
  refine only_ite (fun _ => trivial) fun _ => ?_
  simp only [h, if_true]
  exact trivial

/-! ## The modules as the application leaves them -/

theorem modules_of_createApp (h : createApp boot logOpens config = some modules) :
    (config.shell.enabled = false → modules.shellPolicy = none ∧ modules.terminal = false) ∧
      ∀ policy, modules.pathPolicy = some policy →
        config.filesystem.enabled = true ∧ policy.readOnly = config.filesystem.readOnly := by
  simp only [createApp, Option.bind_eq_bind, Option.bind_eq_some_iff, Option.pure_def,
    Option.some.injEq] at h
  obtain ⟨shellPolicy, hshell, pathPolicy, hpath, rfl⟩ := h
  constructor
  · intro hoff
    rw [hoff] at hshell
    cases hshell
    exact ⟨rfl, by simp [hoff]⟩
  · rintro policy rfl
    rw [configure] at hpath
    split at hpath
    · rename_i hon
      obtain ⟨policy', hinit, heq⟩ := Option.map_eq_some_iff.mp hpath
      cases heq
      simp only [PathPolicy.init, Option.bind_eq_bind, Option.bind_eq_some_iff, Option.pure_def,
        Option.some.injEq] at hinit
      obtain ⟨_, _, _, _, rfl⟩ := hinit
      exact ⟨hon, rfl⟩
    · cases hpath

theorem checkWrite_readOnly {policy : PathPolicy} (h : policy.readOnly = true) (path : String) :
    policy.checkWrite host path ≠ .allowed := by
  simp [PathPolicy.checkWrite, h]

theorem quiet_of_not_advertised (happ : createApp boot logOpens config = some modules)
    (hname : name ∉ buildToolDefinitions config env) (hguarded : name ∉ unguardedTools) :
    Quiet (executeToolCall py host modules env args name) := by
  obtain ⟨hshell, hfiles⟩ := modules_of_createApp happ
  unfold executeToolCall
  dsimp only
  split
  · have hoff : config.shell.enabled = false := by simpa [buildToolDefinitions] using hname
    obtain ⟨hpolicy, hterminal⟩ := hshell hoff
    rw [hterminal]
    exact quiet_executeCommand hpolicy _
  · have hoff : config.filesystem.enabled = false := by simpa [buildToolDefinitions] using hname
    refine quiet_guarded fun policy hpolicy => ?_
    rw [(hfiles policy hpolicy).1] at hoff
    cases hoff
  · have hoff : config.filesystem.enabled = true → config.filesystem.readOnly = true := by
      simpa [buildToolDefinitions] using hname
    refine quiet_guarded fun policy hpolicy => ?_
    obtain ⟨hon, hreadOnly⟩ := hfiles policy hpolicy
    exact checkWrite_readOnly (hreadOnly.trans (hoff hon))
  · have hoff : config.filesystem.enabled = false := by simpa [buildToolDefinitions] using hname
    refine quiet_guarded fun policy hpolicy => ?_
    rw [(hfiles policy hpolicy).1] at hoff
    cases hoff
  · simp [unguardedTools] at hguarded
  · simp [unguardedTools] at hguarded
  · have hoff : ¬(env.akmToken ≠ "" ∧ env.akmServiceUrl ≠ "") := by
      simpa [buildToolDefinitions] using hname
    exact only_ite (fun _ => trivial) fun _ => quiet_withAkm hoff
  · have hoff : ¬(env.akmToken ≠ "" ∧ env.akmServiceUrl ≠ "") := by
      simpa [buildToolDefinitions] using hname
    exact only_ite (fun _ => trivial) fun _ => quiet_withAkm hoff
  · have hoff : ¬(env.akmToken ≠ "" ∧ env.akmServiceUrl ≠ "") := by
      simpa [buildToolDefinitions] using hname
    exact only_ite (fun _ => trivial) fun _ => quiet_withAkm hoff
  · simp [unguardedTools] at hguarded
  · simp [unguardedTools] at hguarded
  · have hoff : env.tavilyApiKey = "" := by simpa [buildToolDefinitions] using hname
    exact quiet_executeWebSearch hoff
  · have hoff : ¬(env.akmToken ≠ "" ∧ env.akmServiceUrl ≠ "") := by
      simpa [buildToolDefinitions] using hname
    refine only_bind (quiet_asText _) fun content => ?_
    exact only_ite (fun _ => trivial) fun _ => quiet_withAkm hoff
  · have hoff : ¬(env.akmToken ≠ "" ∧ env.akmServiceUrl ≠ "") := by
      simpa [buildToolDefinitions] using hname
    refine only_bind (quiet_asText _) fun content => ?_
    exact only_ite (fun _ => trivial) fun _ => quiet_withAkm hoff
  · exact trivial

/-! ## Which calls have an effect -/

theorem not_mem_definitions (hoff : config.shell.enabled = false) (hname : name ∈ unguardedTools) :
    name ∉ buildToolDefinitions config env := by
  obtain rfl | rfl | rfl | rfl : name = "tmux" ∨ name = "browser" ∨ name = "http_request" ∨ name = "git" := by
    simpa [unguardedTools] using hname
  all_goals simp [buildToolDefinitions, hoff]

def effectiveArguments (name : String) : Arguments := fun key =>
  match name, key with
  | "tmux", "action" => some (.text "list_windows")
  | "browser", "action" => some (.text "screenshot")
  | "git", "action" => some (.text "status")
  | "http_request", "url" => some (.text "http://example.com")
  | _, _ => none

theorem not_quiet_sendChecked (method url hostname : String) (payload : List (String × Json)) :
    ¬Quiet (sendChecked method url hostname payload) := by
  rintro ⟨_, hrows, _⟩
  obtain ⟨heffect, _⟩ := hrows (some [])
  cases heffect

theorem asText_bind {α : Type} (s : String) (f : String → Handler α) :
    (asText (.text s) >>= f) = f s := rfl

theorem lift_bind {α β : Type} (a : α) (f : α → Handler β) : (lift (.ok a) >>= f) = f a := rfl

theorem executeToolCall_request :
    executeToolCall py host modules env (effectiveArguments "http_request") "http_request" =
      if py.upper "GET" = "GET" then
        requestUrl py (py.upper "GET") (.text "http://example.com") [("headers", .object [])]
      else if py.upper "GET" = "POST" then
        requestUrl py (py.upper "GET") (.text "http://example.com")
          [("headers", .object []), ("content", .text "")]
      else pure (.error "method must be GET or POST") := rfl

theorem requestUrl_eq (hhost : py.hostname "http://example.com" = .ok "example.com")
    (method : String) (payload : List (String × Json)) :
    requestUrl py method (.text "http://example.com") payload =
      sendChecked method "http://example.com" "example.com" payload := by
  have htruthy : truthy (.text "http://example.com") = true := by decide
  have hweb : webUrl "http://example.com" = true := by decide
  rw [requestUrl, if_pos htruthy, asText_bind, if_pos hweb, hhost, lift_bind, if_neg (by decide)]

theorem not_quiet_effectiveArguments (hupper : py.upper "GET" = "GET")
    (hhost : py.hostname "http://example.com" = .ok "example.com") (hname : name ∈ unguardedTools) :
    ¬Quiet (executeToolCall py host modules env (effectiveArguments name) name) := by
  obtain rfl | rfl | rfl | rfl : name = "tmux" ∨ name = "browser" ∨ name = "http_request" ∨ name = "git" := by
    simpa [unguardedTools] using hname
  · rintro ⟨heffect, _⟩
    cases heffect
  · rintro ⟨heffect, _⟩
    cases heffect
  · intro hquiet
    rw [executeToolCall_request, if_pos hupper, requestUrl_eq hhost] at hquiet
    exact not_quiet_sendChecked _ _ _ _ hquiet
  · rintro ⟨_, hrows, _⟩
    obtain ⟨heffect, _⟩ := hrows true
    cases heffect

/-- A tool has an effect only where it is advertised, whatever its arguments, just if the shell is
enabled or the tool is none of the four. -/
theorem effectAdvertised_iff (happ : createApp boot logOpens config = some modules)
    (hupper : py.upper "GET" = "GET")
    (hhost : py.hostname "http://example.com" = .ok "example.com") :
    (∀ args, EffectAdvertised py host modules env config name args) ↔
      config.shell.enabled = true ∨ name ∉ unguardedTools := by
  constructor
  · intro hall
    by_contra hnot
    obtain ⟨hoff, hname⟩ : config.shell.enabled = false ∧ name ∈ unguardedTools := by
      simpa using hnot
    refine not_quiet_effectiveArguments hupper hhost hname
      ((hall (effectiveArguments name)).mono fun st hst => ?_)
    exact Bool.eq_false_iff.mpr fun heffect => not_mem_definitions hoff hname (hst heffect)
  · intro hcond args
    by_cases hname : name ∈ buildToolDefinitions config env
    · exact only_of_forall (fun _ _ => hname) _
    · have hguarded : name ∉ unguardedTools := by
        obtain hon | hguarded := hcond
        · intro hmem
          refine hname ?_
          obtain rfl | rfl | rfl | rfl : name = "tmux" ∨ name = "browser" ∨ name = "http_request" ∨
              name = "git" := by
            simpa [unguardedTools] using hmem
          all_goals simp [buildToolDefinitions, hon]
        · exact hguarded
      refine (quiet_of_not_advertised happ hname hguarded).mono fun st hst heffect => ?_
      rw [hst] at heffect
      cases heffect

/-- The strings of a container whose URLs have one host. -/
def plainPython : Python where
  str _ := ""
  strip := id
  upper := id
  title := id
  split s := [s]
  int _ := .error "invalid literal for int()"
  hostname _ := .ok "example.com"

/-- With nothing enabled, a model's call of `tmux` runs a process. -/
theorem tmux_not_advertised :
    ¬∀ (config : ToolsConfig) (env : Environ) (modules : Modules String) (name : String)
      (args : Arguments), createApp plainHost true config = some modules →
        EffectAdvertised plainPython plainHost modules env config name args := by
  intro h
  obtain ⟨heffect, _⟩ := h Skills.defaultToolsConfig {} {} "tmux" (effectiveArguments "tmux") rfl
  exact absurd (heffect rfl) (not_mem_definitions rfl (by decide))

theorem effectAdvertised_iff_git :
    (∀ args, EffectAdvertised plainPython plainHost {} {} Skills.defaultToolsConfig "git" args) ↔
      Skills.defaultToolsConfig.shell.enabled = true ∨ "git" ∉ unguardedTools :=
  effectAdvertised_iff (show createApp plainHost true Skills.defaultToolsConfig = some {} from rfl) rfl rfl

end Hill90.Agentbox
