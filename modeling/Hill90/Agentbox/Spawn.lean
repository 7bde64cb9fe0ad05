import Hill90.Agentbox.Authority

/-! # The binary that is started

A command is checked in the directory and with the search path of the server, and started in another
directory with another search path.
-/

namespace Hill90.Agentbox

/-- The programs on the disk, by absolute path: where links lead, what `_access_check` lets pass, and
what the kernel starts. -/
structure Programs where
  serverDirectory : String
  realpath : String → Option String
  access : String → Bool
  starts : String → Bool
  isDirectory : String → Bool
  access_of_starts (path : String) : starts path = true → access path = true

inductive Spawner where
  | subprocess
  | terminal
  deriving DecidableEq

def serverPath : List String :=
  ["/home/agentuser/.local/bin", "/data/tools/bin", "/usr/local/sbin", "/usr/local/bin", "/usr/sbin",
    "/usr/bin", "/sbin", "/bin"]

def safePath : List String := ["/usr/local/bin", "/usr/bin", "/bin"]

def isAbsolute (path : String) : Bool := path.toList.head? = some '/'

def absolute (directory path : String) : String :=
  if isAbsolute path then path else directory ++ "/" ++ path

def hasDirectory (binary : String) : Bool := decide ('/' ∈ binary.toList)

def candidates (path : List String) (binary : String) : List String :=
  path.map fun directory => directory ++ "/" ++ binary

namespace Programs

variable (programs : Programs)

def which (binary : String) : Option String :=
  if hasDirectory binary then
    if programs.access (absolute programs.serverDirectory binary) then some binary else none
  else (candidates serverPath binary).find? programs.access

def host {Regex : Type} (base : Host Regex) : Host Regex :=
  { base with
    which := programs.which
    realpath := fun path => programs.realpath (absolute programs.serverDirectory path) }

/-- Where a process is started; a terminal stays where it is when it cannot change to `cwd`. -/
def directory (cwd : String) : Spawner → Option String
  | .subprocess => if programs.isDirectory cwd then some cwd else none
  | .terminal => some (if programs.isDirectory cwd then cwd else programs.serverDirectory)

/-- The file that is started of those that `exec` tries in turn. -/
def started (spawner : Spawner) (cwd binary : String) : Option String :=
  (programs.directory cwd spawner).bind fun directory =>
    if hasDirectory binary then
      let path := absolute directory binary
      if programs.starts path then some path else none
    else (candidates safePath binary).find? programs.starts

end Programs

variable {Regex : Type}

/-- What is started of a command is the file that the check has found in its list. -/
def Verified (programs : Programs) (base : Host Regex) (policy : CommandPolicy Regex)
    (spawner : Spawner) (cwd command : String) : Prop :=
  ∀ binary args, base.shlexSplit command = some (binary :: args) →
    ∀ file, programs.started spawner cwd binary = some file →
      ∃ resolved ∈ policy.allowed, programs.realpath file = some resolved ∧
        (programs.host base).realpath ((programs.which binary).getD binary) = some resolved

/-- The name leads to the same file for the server and for the process: an absolute name; a path that
does so from both directories; a bare name that does so along both search paths. -/
def Unambiguous (programs : Programs) (spawner : Spawner) (cwd binary : String) : Prop :=
  if hasDirectory binary then
    isAbsolute binary = true ∨
      ∀ directory, programs.directory cwd spawner = some directory →
        programs.starts (absolute directory binary) = true →
          programs.realpath (absolute directory binary) =
            programs.realpath (absolute programs.serverDirectory binary)
  else
    ∀ directory, programs.directory cwd spawner = some directory →
      ∀ file, (candidates safePath binary).find? programs.starts = some file →
        ∀ found, (candidates serverPath binary).find? programs.access = some found →
          programs.realpath file = programs.realpath found

section Spawn

variable {programs : Programs} {base : Host Regex} {policy : CommandPolicy Regex}
  {spawner : Spawner} {cwd command binary file : String}

theorem absolute_of_isAbsolute {directory path : String} (h : isAbsolute path = true) :
    absolute directory path = path := if_pos h

theorem isAbsolute_candidate {path : List String} (hpath : ∀ d ∈ path, isAbsolute d = true)
    (h : file ∈ candidates path binary) : isAbsolute file = true := by
  obtain ⟨directory, hmem, rfl⟩ := List.mem_map.mp h
  have hslash : directory.toList.head? = some '/' := of_decide_eq_true (hpath directory hmem)
  simp [isAbsolute, String.toList_append, List.head?_append, hslash]

/-- What can be started on the safe path, the server finds on its own. -/
theorem which_of_found (hbare : hasDirectory binary = false)
    (h : (candidates safePath binary).find? programs.starts = some file) :
    ∃ found, programs.which binary = some found ∧
      (candidates serverPath binary).find? programs.access = some found ∧ isAbsolute found = true := by
  have hstarts := List.find?_some h
  have hmem : file ∈ candidates serverPath binary := by
    have hsafe := List.mem_of_find?_eq_some h
    obtain ⟨directory, hdirectory, rfl⟩ := List.mem_map.mp hsafe
    have hsub : ∀ d ∈ safePath, d ∈ serverPath := by decide
    exact List.mem_map_of_mem (hsub directory hdirectory)
  have hsome : ((candidates serverPath binary).find? programs.access).isSome := by
    rw [List.find?_isSome]
    exact ⟨file, hmem, programs.access_of_starts file hstarts⟩
  obtain ⟨found, hfound⟩ := Option.isSome_iff_exists.mp hsome
  refine ⟨found, ?_, hfound, ?_⟩
  · rw [Programs.which, if_neg (by simp [hbare]), hfound]
  · exact isAbsolute_candidate (by decide) (List.mem_of_find?_eq_some hfound)

theorem getD_which (hpath : hasDirectory binary = true) : (programs.which binary).getD binary = binary := by
  rw [Programs.which, if_pos hpath]
  split <;> rfl

/-- The file that is started resolves to what the check has resolved exactly where the name is
unambiguous. -/
theorem same_file_iff (base : Host Regex) : (∀ file, programs.started spawner cwd binary = some file →
    programs.realpath file = (programs.host base).realpath ((programs.which binary).getD binary)) ↔
      Unambiguous programs spawner cwd binary := by
  unfold Programs.started Unambiguous
  cases hkind : hasDirectory binary with
  | true =>
    rw [getD_which hkind]
    simp only [if_true, Option.bind_eq_some_iff, Option.ite_none_right_eq_some]
    constructor
    · intro h
      refine .inr fun directory hdirectory hstarts => ?_
      exact h _ ⟨directory, hdirectory, hstarts, rfl⟩
    · rintro h file ⟨directory, hdirectory, hstarts, hfile⟩
      cases hfile
      obtain habsolute | hsame := h
      · change _ = programs.realpath (absolute programs.serverDirectory binary)
        rw [absolute_of_isAbsolute habsolute, absolute_of_isAbsolute habsolute]
      · exact hsame directory hdirectory hstarts
  | false =>
    simp only [Bool.false_eq_true, if_false, Option.bind_eq_some_iff]
    constructor
    · intro h directory hdirectory file hfile found hfound
      obtain ⟨found', hwhich, hfound', habsolute⟩ := which_of_found hkind hfile
      cases hfound.symm.trans hfound'
      have hsame := h file ⟨directory, hdirectory, hfile⟩
      rw [hwhich, Option.getD_some] at hsame
      change _ = programs.realpath (absolute programs.serverDirectory found) at hsame
      rwa [absolute_of_isAbsolute habsolute] at hsame
    · rintro h file ⟨directory, hdirectory, hfile⟩
      obtain ⟨found, hwhich, hfound, habsolute⟩ := which_of_found hkind hfile
      rw [hwhich, Option.getD_some]
      change _ = programs.realpath (absolute programs.serverDirectory found)
      rw [absolute_of_isAbsolute habsolute]
      exact h directory hdirectory file hfile found hfound

/-- Of a command that passes a list, the binary checked is the binary run exactly where its name is
unambiguous. -/
theorem verified_iff (hcheck : policy.check (programs.host base) command = .allowed)
    (hlist : policy.allowed ≠ []) :
    Verified programs base policy spawner cwd command ↔
      ∀ binary args, base.shlexSplit command = some (binary :: args) →
        Unambiguous programs spawner cwd binary := by
  obtain ⟨-, binary, args, hsplit, hlisted⟩ := check_eq_allowed_iff.mp hcheck
  obtain ⟨resolved, hmem, hresolved⟩ := hlisted hlist
  change base.shlexSplit command = some (binary :: args) at hsplit
  change (programs.host base).realpath ((programs.which binary).getD binary) = some resolved at hresolved
  have hsame : (∀ file, programs.started spawner cwd binary = some file →
      programs.realpath file = some resolved) ↔ Unambiguous programs spawner cwd binary := by
    rw [← hresolved]
    exact same_file_iff base
  constructor
  · intro h binary' args' hsplit'
    cases hsplit.symm.trans hsplit'
    refine hsame.mp fun file hfile => ?_
    obtain ⟨resolved', -, hreal, heq⟩ := h binary args hsplit file hfile
    cases hresolved.symm.trans heq
    exact hreal
  · intro h binary' args' hsplit' file hfile
    cases hsplit.symm.trans hsplit'
    exact ⟨resolved, hmem, hsame.mpr (h binary args hsplit) file hfile, hresolved⟩

end Spawn

section Examples

/-- `git` and `ls` in the system, where the server has another `git` in its directory for tools. -/
def shadowed : Programs where
  serverDirectory := "/app"
  realpath := some
  access path := path = "/usr/bin/git" || path = "/data/tools/bin/git" || path = "/usr/bin/ls"
  starts path := path = "/usr/bin/git" || path = "/data/tools/bin/git" || path = "/usr/bin/ls"
  isDirectory path := path = "/home/agentuser"
  access_of_starts _ h := h

def toolsPolicy : CommandPolicy String where
  allowed := ["/data/tools/bin/git", "/usr/bin/ls"]
  denied := []
  maxTimeout := 300

theorem verified_bare :
    Verified shadowed plainHost toolsPolicy .terminal "/home/agentuser" "ls" ↔
      ∀ binary args, plainHost.shlexSplit "ls" = some (binary :: args) →
        Unambiguous shadowed .terminal "/home/agentuser" binary :=
  verified_iff (by decide) (by decide)

theorem unlisted_binary_run : ¬∀ (programs : Programs) (policy : CommandPolicy String)
    (spawner : Spawner) (cwd command : String),
      policy.check (programs.host plainHost) command = .allowed → policy.allowed ≠ [] →
        Verified programs plainHost policy spawner cwd command := by
  intro h
  have hverified := h shadowed toolsPolicy .subprocess "/home/agentuser" "git" (by decide) (by decide)
  have hstarted : shadowed.started .subprocess "/home/agentuser" "git" = some "/usr/bin/git" := by
    decide
  obtain ⟨resolved, hmem, hreal, -⟩ := hverified "git" [] (by decide) "/usr/bin/git" hstarted
  cases hreal
  revert hmem
  decide

end Examples

end Hill90.Agentbox
