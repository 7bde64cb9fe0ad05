import Hill90.Agentbox.Authority
import Hill90.Agentbox.Tools

/-! # The ways a command of the model runs

The tool loop types a command into the visible terminal where there is one, and else runs it through
the policy.
-/

namespace Hill90.Agentbox.Commands

open Router (Json)
open Program

/-- A check of the policy counts as a statement, as its answer depends on the host.  The keys that
are sent are those of a command line. -/
inductive Statement where
  | whichTmux
  | hasSession
  | newSession
  | sendKeys (command keys : String)
  | waitAndCapture
  | check (command : String)
  | execute (command : String) (argv : List String)
  | executePty (command : String) (argv : List String)

/-- A checked command is split; a captured pane is read up to the exit status. -/
def Statement.Rows : Statement → Type
  | whichTmux => Bool
  | hasSession | newSession | sendKeys _ _ | execute _ _ | executePty _ _ => Exit
  | waitAndCapture => Option ℕ × String
  | check _ => Except String (List String)

def Statement.handed : Statement → Option String
  | sendKeys command _ | execute command _ | executePty command _ => some command
  | _ => none

abbrev Handler (α : Type) := Program Statement Statement.Rows String α

/-- The container of one agent: `AGENT_USE_TERMINAL`, its policy, and whether the log is open. -/
structure Agent (Regex : Type) where
  useTerminal : Bool
  policy : Option (CommandPolicy Regex)
  terminal : Bool

variable {Regex : Type} (agent : Agent Regex) (str : Json → String)

def whichTmux : Handler Bool := query Statement.whichTmux

def shouldUseTerminal : Handler Bool := if agent.useTerminal then whichTmux else pure false

def ensureTmuxSession : Handler Unit := do
  let found : Exit ← query Statement.hasSession
  if found.returncode = 0 then pure ()
  else do
    let created : Exit ← query Statement.newSession
    if created.returncode = 0 then pure ()
    else throw ("tmux new-session failed: " ++ created.stderr)

/-- The keys end with the marker for the exit status. -/
def wrapped (cmd : String) : String := cmd ++ "; echo \"__HILL90_EXIT:$?\""

def runVisibleCommand (cmd : String) : Handler ToolResult := do
  ensureTmuxSession
  let sent : Exit ← query (Statement.sendKeys cmd (wrapped cmd))
  if sent.returncode = 0 then do
    let captured : Option ℕ × String ← query Statement.waitAndCapture
    match captured with
    | (some 0, output) => pure (.success output)
    | (some _, output) => pure (.error output)
    | (none, _) => pure (.error "The command's exit status could not be determined")
  else pure (.error ("Could not send the command to the terminal: " ++ sent.stderr))

def executeAndLog (command : String) (argv : List String) : Handler Exit :=
  query (Statement.executePty command argv)

def executeStreaming (command : String) (argv : List String) : Handler Exit :=
  query (Statement.execute command argv)

def runProcess (command : String) (argv : List String) : Handler Exit :=
  if agent.terminal then executeAndLog command argv else executeStreaming command argv

/-- `execute_command_pty` where the log is open, `execute_command` where it is not. -/
def executeToolCall (command : Json) : Handler ToolResult :=
  match agent.policy, command with
  | none, _ => pure (.error "Shell tools not configured")
  | some _, .text command => do
    let checked : Except String (List String) ← query (Statement.check command)
    match checked with
    | .error reason => pure (.error reason)
    | .ok argv => do
      let exit ← runProcess agent command argv
      pure (exited exit)
  | some _, _ => throw "expected string or bytes-like object"

def formatted : Json → String
  | .text s => s
  | v => str v

def dispatch (args : Arguments) : Handler ToolResult := do
  let command := args.getD "command" (.text "")
  if ← shouldUseTerminal agent then
    if truthy command then runVisibleCommand (formatted str command)
    else pure (.error "No command provided")
  else executeToolCall agent command

def runToolCall (args : Arguments) : Handler PUnit := do
  let _ ← tryCatch (dispatch agent str args) fun exc => pure (.error (clip 500 exc))
  pure ()

def runToolLoop (calls : List Arguments) : Handler PUnit := calls.forM (runToolCall agent str)

/-- A mode is the command lines that the policy has accepted.  A check answers as the policy does on
some host. -/
def accepting : Discipline Statement Statement.Rows String (List String) where
  may m st := ∀ command, st.handed = some command → command ∈ m
  returns
    | .check command, .ok argv => ∃ (policy : CommandPolicy Regex) (host : Host Regex),
        agent.policy = some policy ∧ policy.check host command = .allowed ∧
          host.shlexSplit command = some argv
    | _, _ => True
  returned
    | m, .check command, .ok _ => command :: m
    | m, _, _ => m
  rejected m _ _ := m

/-- Every command line that is handed over has been accepted before. -/
def Checked (calls : List Arguments) : Prop :=
  (runToolLoop agent str calls).Meets (accepting agent) (fun _ _ => True) (fun _ _ => True) []

def Blank (args : Arguments) : Prop := truthy (args.getD "command" (.text "")) = false

section

variable {agent : Agent Regex} {str : Json → String} {args : Arguments} {calls : List Arguments}
  {m : List String}

theorem meets_runProcess {command : String} {argv : List String} {Q : Exit → List String → Prop}
    (hmay : ∀ c, some command = some c → c ∈ m) (hQ : ∀ exit, Q exit m) :
    (runProcess agent command argv).Meets (accepting agent) Q (fun _ _ => True) m := by
  unfold runProcess
  split
  · exact ⟨hmay, fun exit _ => hQ exit, fun _ => trivial⟩
  · exact ⟨hmay, fun exit _ => hQ exit, fun _ => trivial⟩

theorem meets_executeToolCall (command : Json) :
    (executeToolCall agent command).Meets (accepting agent) (fun _ _ => True) (fun _ _ => True) m := by
  unfold executeToolCall
  split
  · trivial
  · rename_i command hpolicy
    refine ⟨(fun _ h => by cases h), fun checked _ => ?_, fun _ => trivial⟩
    cases checked with
    | error reason => trivial
    | ok argv =>
      have hmay : ∀ c, some command = some c → c ∈ command :: m := by
        rintro c ⟨⟩
        exact List.mem_cons_self
      change (runProcess agent command argv >>= fun exit => pure (exited exit)).Meets
        (accepting agent) (fun _ _ => True) (fun _ _ => True) (command :: m)
      exact meets_then (fun _ _ => True) (meets_runProcess hmay fun _ => trivial) fun _ _ _ => trivial
  · trivial

theorem shouldUseTerminal_eq (h : agent.useTerminal = true) : shouldUseTerminal agent = whichTmux :=
  if_pos h

theorem meets_dispatch (h : agent.useTerminal = false ∨ Blank args) :
    (dispatch agent str args).Meets (accepting agent) (fun _ _ => True) (fun _ _ => True) m := by
  unfold dispatch
  cases hterminal : agent.useTerminal with
  | false =>
    have hdirect : shouldUseTerminal agent = pure false := if_neg (by simp [hterminal])
    rw [hdirect]
    exact meets_executeToolCall _
  | true =>
    have hblank : Blank args := by simpa [hterminal] using h
    rw [shouldUseTerminal_eq hterminal]
    refine ⟨(fun _ h => by cases h), fun found _ => ?_, fun _ => trivial⟩
    cases found with
    | false => exact meets_executeToolCall _
    | true =>
      change Meets _ (if truthy _ = true then _ else _) _ _ _
      rw [if_neg (by rw [hblank]; exact Bool.false_ne_true)]
      trivial

theorem checked_of_forall (h : agent.useTerminal = false ∨ ∀ args ∈ calls, Blank args) :
    Checked agent str calls := by
  refine meets_forM (I := fun _ => True) trivial fun args hargs m _ => ?_
  rw [runToolCall, meets_bind, meets_tryCatch]
  refine (meets_dispatch (h.imp id fun hall => hall args hargs)).mono ?_ ?_
  · exact fun _ _ _ => trivial
  · exact fun _ _ _ => trivial

theorem checked_cons (hterminal : agent.useTerminal = true) (h : Checked agent str (args :: calls)) :
    Blank args ∧ Checked agent str calls := by
  have hbind : (runToolCall agent str args >>= fun _ => runToolLoop agent str calls).Meets
      (accepting agent) (fun _ _ => True) (fun _ _ => True) [] := h
  rw [meets_bind, runToolCall, meets_bind, meets_tryCatch, dispatch,
    shouldUseTerminal_eq hterminal] at hbind
  -- tmux is found
  have hfound := hbind.2.1 true trivial
  by_cases hblank : Blank args
  · refine ⟨hblank, ?_⟩
    change Meets _ (if truthy _ = true then _ else _) _ _ _ at hfound
    rw [if_neg (by rw [hblank]; exact Bool.false_ne_true)] at hfound
    exact hfound
  · have htruthy : truthy (args.getD "command" (.text "")) = true := by simpa [Blank] using hblank
    change Meets _ (if truthy _ = true then _ else _) _ _ _ at hfound
    rw [if_pos htruthy] at hfound
    -- the session is there, so the keys are sent
    obtain ⟨hmay, _⟩ := hfound.2.1 ⟨0, "", ""⟩ trivial
    cases hmay _ rfl

/-- The first command that is typed into the terminal has not been accepted. -/
theorem blank_of_checked (hterminal : agent.useTerminal = true) (h : Checked agent str calls) :
    ∀ args ∈ calls, Blank args := by
  induction calls with
  | nil => exact fun _ hmem => by cases hmem
  | cons args calls ih =>
    obtain ⟨hblank, hrest⟩ := checked_cons hterminal h
    exact List.forall_mem_cons.mpr ⟨hblank, ih hrest⟩

end

/-- Whatever the container answers, every command line handed over has been accepted just if the
agent does not use the terminal or no call has a command. -/
theorem checked_iff (agent : Agent Regex) (str : Json → String) (calls : List Arguments) :
    Checked agent str calls ↔ agent.useTerminal = false ∨ ∀ args ∈ calls, Blank args := by
  refine ⟨fun h => ?_, checked_of_forall⟩
  cases hterminal : agent.useTerminal with
  | false => exact .inl rfl
  | true => exact .inr (blank_of_checked hterminal h)

/-- A policy with one binary, and a visible terminal. -/
def visibleAgent : Agent String where
  useTerminal := true
  policy := some ⟨["/usr/bin/git"], [], 300⟩
  terminal := true

theorem visible_command_unchecked :
    ¬∀ (agent : Agent String) (str : Json → String) (calls : List Arguments),
      Checked agent str calls := by
  intro h
  have hblank := blank_of_checked rfl (h visibleAgent (fun _ => "")
    [fun key => if key = "command" then some (.text "rm -rf /workspace") else none]) _
      List.mem_cons_self
  revert hblank
  change ¬(truthy (.text "rm -rf /workspace") = false)
  decide

end Hill90.Agentbox.Commands
