import Mathlib.Data.List.Infix
import Mathlib.Logic.Function.Basic
import Hill90.Knowledge.Frontmatter

/-! # The entries of the knowledge service

`knowledge_store.py` over one table, in which an agent has one row for a path, and the path policy.
A row is never deleted and never changes its path, so its key stands for its id.
-/

namespace Hill90.Knowledge

inductive Status where
  | active
  | archived
  deriving DecidableEq, Repr

inductive SyncStatus where
  | pending
  | synced
  | error
  deriving DecidableEq, Repr

structure Entry where
  body : String
  title : String
  status : Status := .active
  syncStatus : SyncStatus := .pending
  syncAttempts : ℕ := 0
  deriving DecidableEq, Repr

abbrev Key := String × String

abbrev Entries := Key → Option Entry

section Paths

def maxDepth : ℕ := 3

def collapse : List Char → List Char
  | [] => []
  | c :: s => if c = '/' ∧ s.head? = some '/' then collapse s else c :: collapse s

def stripSlashes (s : List Char) : List Char := (s.dropWhile (· = '/')).rdropWhile (· = '/')

variable (lower : String → String)

def canonicalizePath (path : String) : List Char := collapse (stripSlashes (lower path).toList)

def isPathChar (c : Char) : Bool :=
  ('a' ≤ c ∧ c ≤ 'z') ∨ ('0' ≤ c ∧ c ≤ '9') ∨ c = '_' ∨ c = '-' ∨ c = '/'

/-- `_VALID_PATH_RE`; its `$` also matches before a newline at the end. -/
def validChars (path : List Char) : Bool :=
  match path with
  | [] => false
  | c :: s =>
    let s := if s.getLast? = some '\n' then s.dropLast else s
    isPathChar c && s.all fun c => isPathChar c || c = '.'

def validatePath (path : String) : Except String String :=
  if path.toList.head? = some '/' then .error "absolute paths are not allowed"
  else if ['.', '.'] <:+: path.toList then .error "path traversal (..) is not allowed"
  else if (path.toList.splitOn '/').any fun segment => segment.head? = some '.' then
    .error "hidden files/directories (starting with .) are not allowed"
  else
    let path := canonicalizePath lower path
    let text := String.ofList path
    if !validChars path then .error s!"path contains invalid characters: {text}"
    else if ¬".md".toList <:+ path then .error "path must have .md extension"
    else if (path.splitOn '/').length > maxDepth then
      .error s!"path depth exceeds maximum of {maxDepth}: {text}"
    else .ok text

end Paths

section Table

variable (t : Entries) (k : Key)

def selectEntry : Option Entry := (t k).filter fun e => e.status = .active

/-- No row where the key is taken, whatever the status of its row. -/
def insertEntry (body title : String) : Option Entries :=
  match t k with
  | some _ => none
  | none => some (Function.update t k (some ⟨body, title, .active, .pending, 0⟩))

def updateEntry (body title : String) : Option Entries :=
  (selectEntry t k).map fun e =>
    Function.update t k (some { e with body := body, title := title, syncStatus := .pending })

def archiveEntry : Option Entries :=
  (selectEntry t k).map fun e => Function.update t k (some { e with status := .archived })

def setSync (s : SyncStatus) : Entries :=
  Function.update t k ((t k).map fun e => { e with syncStatus := s })

def bumpAttempts : Entries :=
  Function.update t k ((t k).map fun e => { e with syncAttempts := e.syncAttempts + 1 })

variable {t k}

@[simp]
theorem setSync_of_ne {j : Key} (h : j ≠ k) (s : SyncStatus) : setSync t k s j = t j :=
  Function.update_of_ne h _ _

theorem insertEntry_eq_some {body title : String} {u : Entries}
    (h : insertEntry t k body title = some u) :
    t k = none ∧ u = Function.update t k (some ⟨body, title, .active, .pending, 0⟩) := by
  unfold insertEntry at h
  split at h
  · cases h
  · cases h
    exact ⟨‹_›, rfl⟩

theorem selectEntry_eq_some {e : Entry} :
    selectEntry t k = some e ↔ t k = some e ∧ e.status = .active := by
  simp [selectEntry, Option.filter_eq_some_iff]

theorem updateEntry_eq_some {body title : String} {u : Entries}
    (h : updateEntry t k body title = some u) :
    ∃ e, t k = some e ∧ e.status = .active ∧
      u = Function.update t k (some { e with body := body, title := title, syncStatus := .pending }) := by
  obtain ⟨e, he, rfl⟩ := Option.map_eq_some_iff.mp h
  obtain ⟨hk, hactive⟩ := selectEntry_eq_some.mp he
  exact ⟨e, hk, hactive, rfl⟩

theorem archiveEntry_eq_some {u : Entries} (h : archiveEntry t k = some u) :
    ∃ e, t k = some e ∧ e.status = .active ∧
      u = Function.update t k (some { e with status := .archived }) := by
  obtain ⟨e, he, rfl⟩ := Option.map_eq_some_iff.mp h
  obtain ⟨hk, hactive⟩ := selectEntry_eq_some.mp he
  exact ⟨e, hk, hactive, rfl⟩

end Table

/-- The document a write stores, and the title of its row: a title that is no text, or tags that are
no list of texts, are no arguments of the statement. -/
def rowTitle (lib : Loader) (content : String) : Except Failure String :=
  match parseFrontmatter lib content with
  | .error e => .error e
  | .ok (fields, _) =>
    let tagged := match Meta.get fields "tags" with
      | none | some .null => true
      | some (.sequence items) => items.all fun v => match v with
        | .text _ => true
        | _ => false
      | some _ => false
    match Meta.get fields "title" with
    | some (.text title) =>
      if tagged then .ok title else .error (.valueError "invalid input for query argument $7")
    | _ => .error (.valueError "invalid input for query argument $3")

end Hill90.Knowledge
