import Hill90.Agentbox.Paths

/-! # The workspace endpoints

`files_endpoint` and `file_read_endpoint` of `server.py`: a path is resolved, compared with the roots
by its text, and then listed or read.
-/

namespace Hill90.Agentbox.Workspace

open Segments

inductive DiskError where
  | notFound
  | permission
  | isADirectory
  | other
  deriving DecidableEq

/-- The file system.  `stat` and `isdir` follow links; `read` is the text of a file, with replacement
characters. -/
structure Disk where
  realpath : String → Option Directory
  listdir : Directory → Except DiskError (List String)
  stat : String → Option ℕ
  isdir : String → Bool
  getsize : Directory → Except DiskError ℕ
  read : Directory → Except DiskError String

structure Entry where
  name : String
  type : String
  size : ℕ
  deriving DecidableEq

/-- The answer of an endpoint; `raised` is an exception that it does not handle. -/
inductive Reply where
  | entries (path : String) (entries : List Entry)
  | content (path content : String) (size : ℕ)
  | error (status : ℕ) (message : String)
  | raised
  deriving DecidableEq

section Source

variable (disk : Disk) (path : Option String)

def startsWith (text start : String) : Bool := start.toList.isPrefixOf text.toList

def allowed (real : Directory) : Bool :=
  startsWith real.path "/home/agentuser" || startsWith real.path "/workspace"

def join (real : Directory) (name : String) : String :=
  if real = [] then "/" ++ name else real.path ++ "/" ++ name

def entry (real : Directory) (name : String) : Entry :=
  let full := join real name
  match disk.stat full with
  | some size => ⟨name, if disk.isdir full then "directory" else "file", size⟩
  | none => ⟨name, "unknown", 0⟩

end Source

section Roots

def home : Name where
  text := ['h', 'o', 'm', 'e']
  nonempty := by decide
  single := by decide

def agentuser : Name where
  text := ['a', 'g', 'e', 'n', 't', 'u', 's', 'e', 'r']
  nonempty := by decide
  single := by decide

def workspace : Name where
  text := ['w', 'o', 'r', 'k', 's', 'p', 'a', 'c', 'e']
  nonempty := by decide
  single := by decide

def roots : List (Directory × Name) := [([home], agentuser), ([], workspace)]

/-- The path leads through a name beside a root that begins as the root does. -/
def Beside (real : Directory) : Prop :=
  ∃ root ∈ roots, ∃ name rest, real = root.1 ++ name :: rest ∧ root.2.text <+: name.text ∧
    name ≠ root.2

end Roots

variable {disk : Disk} {real : Directory}

end Hill90.Agentbox.Workspace
