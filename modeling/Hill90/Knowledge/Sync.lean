import Hill90.Foundation.Machine
import Hill90.Knowledge.Store
import Hill90.Knowledge.Wrapping

/-! # The table of entries and their files

`knowledge_store.py` writes a row and then its file, `reconciler.py` promotes and retries what is
pending and records the files that have no row.  Calls and the cycles of the reconciler go side by
side, one statement at a time; a file is written without a wait.
-/

namespace Hill90.Knowledge.Sync

structure Write where
  agent : String
  path : String
  content : String
  deriving DecidableEq, Repr

/-- A call of `create_entry` or `update_entry`: before its row is written, before its file is, and
before its row is marked. -/
inductive Call where
  | asked (update : Bool) (k : Key) (content title : String)
  | stored (k : Key) (content : String)
  | filed (k : Key)
  deriving DecidableEq, Repr

structure Row where
  key : Key
  body : String
  attempts : ℕ
  deriving DecidableEq, Repr

inductive Stage where
  | idle
  | pending (rows : List Row)
  | promoting (k : Key) (rows : List Row)
  | quarantining (row : Row) (rows : List Row)
  | failing (k : Key) (rows : List Row)
  | filed (k : Key) (rows : List Row)
  | bumping (k : Key) (rows : List Row)
  | sweeping
  | listed (agent : String) (disk : String → Bool)
  | known (agent : String) (disk db : String → Bool)
  | orphans (agent : String) (paths : String → Bool)

structure Quarantine where
  key : Key
  reason : String
  attempts : ℕ
  deriving DecidableEq, Repr

/-- `dirs` are the directories, as a path `a.md/b.md` makes one of `a.md`. -/
structure State where
  entries : Entries
  files : Key → Option String
  dirs : Key → Bool := fun _ => false
  quarantine : List Quarantine := []
  calls : ℕ → Option Call := fun _ => none
  stage : Stage := .idle

/-- A statement returns, has no effect, or has one but returns an error. -/
inductive Outcome where
  | done
  | refused
  | unheard
  deriving DecidableEq, Repr

def Outcome.effect : Outcome → Bool
  | done | unheard => true
  | refused => false

def Outcome.heard : Outcome → Bool
  | done => true
  | refused | unheard => false

inductive Event where
  | arrive (i : ℕ) (update : Bool) (w : Write)
  | store (i : ℕ) (heard : Bool)
  | mkdir (i : Option ℕ)
  | file (i : ℕ) (written : Bool)
  | mark (i : ℕ) (outcome : Outcome)
  | drop (i : ℕ)
  | archive (agent path : String)
  | fetch (keys : List Key)
  | examine (written : Bool)
  | settle (outcome : Outcome)
  | list (agent : String)
  | query
  | compare
  | record (path : String) (outcome : Outcome)
  | rest

def maxAttempts : ℕ := 3

def maxRows : ℕ := 100

section Source

variable (lib : Loader) (lower : String → String)

def accept (w : Write) : Option (Key × String) :=
  match validatePath lower w.path, rowTitle lib w.content with
  | .ok path, .ok title => some ((w.agent, path), title)
  | _, _ => none

def parents (k : Key) : List Key :=
  ((List.range k.2.length).filter fun n => k.2.toList[n]? = some '/').map fun n =>
    (k.1, String.ofList (k.2.toList.take n))

def fetched (t : Entries) (keys : List Key) : Option (List Row) :=
  keys.mapM fun k =>
    match t k with
    | some e => if e.syncStatus = .pending then some ⟨k, e.body, e.syncAttempts⟩ else none
    | none => none

namespace State

variable (s : State)

def setCall (i : ℕ) (call : Option Call) : State :=
  { s with calls := Function.update s.calls i call }

def present (k : Key) : Bool := (s.files k).isSome || s.dirs k

def makes (k : Key) : State := { s with dirs := fun d => s.dirs d || (parents k).contains d }

/-- No parent of the path is a file, and the path is not a directory. -/
def writable (k : Key) : Bool := (parents k).all (fun d => (s.files d).isNone) && !s.dirs k

def setFile (k : Key) (content : String) : State :=
  { s.makes k with files := Function.update s.files k (some content) }

def settled (k : Key) (status : SyncStatus) (effect : Bool) : State :=
  if effect then { s with entries := setSync s.entries k status } else s

def examined (row : Row) (rows : List Row) (written : Bool) : State :=
  if s.present row.key then { s with stage := .promoting row.key rows }
  else if row.attempts ≥ maxAttempts then { s with stage := .quarantining row rows }
  else if written && s.writable row.key then { s.setFile row.key row.body with stage := .filed row.key rows }
  else { s with stage := .bumping row.key rows }

/-- The statement the reconciler is at; an error ends the cycle, but that of the mark of a row whose
file it has written is caught. -/
def settles (outcome : Outcome) : Option State :=
  match s.stage with
  | .promoting k rows =>
    some { s.settled k .synced outcome.effect with
      stage := if outcome.heard then .pending rows else .idle }
  | .quarantining row rows =>
    some { s with
      quarantine := if outcome.effect then
          s.quarantine ++ [⟨row.key, "max attempts exceeded for file sync", row.attempts⟩]
        else s.quarantine
      stage := if outcome.heard then .failing row.key rows else .idle }
  | .failing k rows =>
    some { s.settled k .error outcome.effect with
      stage := if outcome.heard then .pending rows else .idle }
  | .filed k rows =>
    some { s.settled k .synced outcome.effect with
      stage := if outcome.heard then .pending rows else .bumping k rows }
  | .bumping k rows =>
    some { s with
      entries := if outcome.effect then bumpAttempts s.entries k else s.entries
      stage := if outcome.heard then .pending rows else .idle }
  | _ => none

def step : Event → Option State
  | .arrive i update w =>
    match s.calls i with
    | some _ => none
    | none =>
      match accept lib lower w with
      | some (k, title) => some (s.setCall i (some (.asked update k w.content title)))
      | none => some s
  | .store i heard =>
    match s.calls i with
    | some (.asked update k content title) =>
      match if update then updateEntry s.entries k content title
        else insertEntry s.entries k content title with
      | some entries =>
        some { s.setCall i (if heard then some (.stored k content) else none) with entries }
      | none => some (s.setCall i none)
    | _ => none
  | .mkdir i =>
    match i.bind s.calls, i, s.stage with
    | some (.stored k _), _, _ => some (s.makes k)
    | _, none, .pending (row :: _) => some (s.makes row.key)
    | _, _, _ => none
  | .file i written =>
    match s.calls i with
    | some (.stored k content) =>
      some (if written && s.writable k then (s.setFile k content).setCall i (some (.filed k)) else s.setCall i none)
    | _ => none
  | .mark i outcome =>
    match s.calls i with
    | some (.filed k) => some ((s.settled k .synced outcome.effect).setCall i none)
    | _ => none
  | .drop i => (s.calls i).map fun _ => s.setCall i none
  | .archive agent path =>
    match validatePath lower path with
    | .ok path => (archiveEntry s.entries (agent, path)).map fun entries => { s with entries }
    | .error _ => some s
  | .fetch keys =>
    match s.stage with
    | .idle =>
      if keys.Nodup ∧ keys.length ≤ maxRows then
        (fetched s.entries keys).map fun rows => { s with stage := .pending rows }
      else none
    | _ => none
  | .examine written =>
    match s.stage with
    | .pending (row :: rows) => some (s.examined row rows written)
    | .pending [] => some { s with stage := .sweeping }
    | _ => none
  | .settle outcome => s.settles outcome
  | .list agent =>
    match s.stage with
    | .sweeping =>
      some { s with
        stage := .listed agent fun p =>
          ".md".toList.isSuffixOf p.toList && s.present (agent, p) }
    | _ => none
  | .query =>
    match s.stage with
    | .listed agent disk =>
      some { s with stage := .known agent disk fun p => (s.entries (agent, p)).isSome }
    | _ => none
  | .compare =>
    match s.stage with
    | .known agent disk db =>
      some { s with
        stage := .orphans agent fun p =>
          disk p && !db p && !s.quarantine.any fun q => q.key = (agent, p) }
    | _ => none
  | .record path outcome =>
    match s.stage with
    | .orphans agent paths =>
      if paths path then
        some { s with
          quarantine := if outcome.effect then
              s.quarantine ++
                [⟨(agent, path), "orphan file: exists on disk but not in database", 0⟩]
            else s.quarantine
          stage := if outcome.heard then .orphans agent (fun p => paths p && p ≠ path) else .idle }
      else none
    | _ => none
  | .rest =>
    match s.stage with
    | .orphans _ _ => some { s with stage := .sweeping }
    | _ => some { s with stage := .idle }

end State

end Source

def machine (lib : Loader) (lower : String → String) : Machine State Event where
  initial s := s.calls = (fun _ => none) ∧ s.stage = .idle ∧ s.quarantine = []
  step := State.step lib lower

section Definitions

def bodyAt (t : Entries) (k : Key) : Option String := (t k).map Entry.body

def State.Fits (s : State) (k : Key) : Prop :=
  ∃ e, s.entries k = some e ∧ s.files k = some e.body

def State.Synced (s : State) : Prop :=
  ∀ k e, s.entries k = some e → e.syncStatus = .synced → s.files k = some e.body

/-- The row a call is between the write and the mark of. -/
def Call.holds : Call → Option Key
  | asked _ _ _ _ => none
  | stored k _ => some k
  | filed k => some k

def Stage.rows : Stage → List Row
  | pending rows | promoting _ rows | quarantining _ rows | failing _ rows | filed _ rows
  | bumping _ rows => rows
  | _ => []

def Stage.current : Stage → Option Key
  | promoting k _ | failing k _ | filed k _ | bumping k _ => some k
  | quarantining row _ => some row.key
  | _ => none

def Stage.keys (g : Stage) : List Key := g.current.toList ++ g.rows.map Row.key

def Stage.marking : Stage → Option Key
  | promoting k _ | filed k _ => some k
  | _ => none

def State.Free (s : State) (k : Key) : Prop :=
  (∀ i call, s.calls i = some call → call.holds ≠ some k) ∧ k ∉ s.stage.keys

/-- No update is written while another call or the reconciler is between the write (or the fetch)
and the mark of the same row, no row is fetched so, and what the reconciler finds at the path of a
pending row is the file of its body. -/
def State.Orderly (s : State) : Event → Prop
  | .store i _ => ∀ k content title, s.calls i = some (.asked true k content title) → s.Free k
  | .fetch keys => ∀ i call k, s.calls i = some call → call.holds = some k → k ∉ keys
  | .examine _ => ∀ row rows, s.stage = .pending (row :: rows) → s.present row.key = true →
    ∃ content, s.files row.key = some content ∧ bodyAt s.entries row.key = some content
  | _ => True

def State.CallFits (s : State) : Call → Prop
  | .asked _ _ _ _ => True
  | .stored k content => bodyAt s.entries k = some content
  | .filed k => s.Fits k

structure State.StageFits (s : State) (g : Stage) : Prop where
  rows : ∀ row ∈ g.rows, bodyAt s.entries row.key = some row.body
  current : ∀ k, g.current = some k → (s.entries k).isSome
  marking : ∀ k, g.marking = some k → s.Fits k

structure State.Kept (s : State) : Prop where
  synced : s.Synced
  calls : ∀ i call, s.calls i = some call → s.CallFits call
  stage : s.StageFits s.stage
  alone : ∀ i j call call' k, s.calls i = some call → s.calls j = some call' →
    call.holds = some k → call'.holds = some k → i = j
  apart : ∀ i call k, s.calls i = some call → call.holds = some k → k ∉ s.stage.keys
  nodup : s.stage.keys.Nodup

end Definitions

section Synced

variable {lib : Loader} {lower : String → String} {s t : State} {i : ℕ} {e : Event} {k : Key}

theorem calls_setCall (s : State) (i j : ℕ) (call : Option Call) :
    (s.setCall i call).calls j = if j = i then call else s.calls j :=
  Function.update_apply _ _ _ _

theorem Fits_iff : s.Fits k ↔ ∃ content, bodyAt s.entries k = some content ∧ s.files k = some content := by
  simp [State.Fits, bodyAt]

/-- The rows keep their bodies, and none is marked whose file does not fit. -/
structure Remarked (s : State) (u : Entries) : Prop where
  body : ∀ k, bodyAt u k = bodyAt s.entries k
  synced : ∀ k e, u k = some e → e.syncStatus = .synced →
    (∃ e', s.entries k = some e' ∧ e'.syncStatus = .synced) ∨ s.Fits k

theorem State.Kept.remark (h : s.Kept) {u : Entries} (hu : Remarked s u) :
    ({ s with entries := u } : State).Kept := by
  have hfits : ∀ k, s.Fits k → ({ s with entries := u } : State).Fits k := by
    intro k hk
    rw [Fits_iff] at hk ⊢
    obtain ⟨content, hbody, hfile⟩ := hk
    exact ⟨content, (hu.body k).trans hbody, hfile⟩
  refine ⟨?_, ?_, ⟨?_, ?_, ?_⟩, h.alone, h.apart, h.nodup⟩
  · intro k e he hsynced
    change u k = some e at he
    have hbody : bodyAt s.entries k = some e.body := by
      rw [← hu.body k, bodyAt, he]
      rfl
    obtain ⟨e', he', hsynced'⟩ | hk := hu.synced k e he hsynced
    · have hsame : e'.body = e.body := by simpa [bodyAt, he'] using hbody
      rw [← hsame]
      exact h.synced k e' he' hsynced'
    · obtain ⟨content, hbody', hfile⟩ := Fits_iff.mp hk
      rw [hbody] at hbody'
      cases hbody'
      exact hfile
  · intro i call hcall
    have hcallFits := h.calls i call hcall
    cases call with
    | asked update k content title => trivial
    | stored k content => exact (hu.body k).trans hcallFits
    | filed k => exact hfits k hcallFits
  · intro row hrow
    exact (hu.body row.key).trans (h.stage.rows row hrow)
  · intro k hk
    have hsome := h.stage.current k hk
    have hbody := congrArg Option.isSome (hu.body k)
    simp only [bodyAt, Option.isSome_map] at hbody
    exact hbody.trans hsome
  · intro k hk
    exact hfits k (h.stage.marking k hk)

theorem State.Kept.makes (h : s.Kept) (k : Key) : (s.makes k).Kept where
  synced := h.synced
  calls := fun i call hcall => by
    have hcallFits := h.calls i call hcall
    cases call <;> exact hcallFits
  stage := ⟨h.stage.rows, h.stage.current, h.stage.marking⟩
  alone := h.alone
  apart := h.apart
  nodup := h.nodup

theorem State.Kept.setFile (h : s.Kept) {content : String} (hbody : bodyAt s.entries k = some content) :
    (s.setFile k content).Kept := by
  have hfits : ∀ j, s.Fits j → (s.setFile k content).Fits j := by
    intro j hj
    rw [Fits_iff] at hj ⊢
    obtain ⟨content', hbody', hfile⟩ := hj
    refine ⟨content', hbody', ?_⟩
    change Function.update s.files k (some content) j = some content'
    by_cases hjk : j = k
    · subst hjk
      rw [Function.update_self, ← hbody, hbody']
    · rw [Function.update_of_ne hjk, hfile]
  refine ⟨?_, ?_, ⟨h.stage.rows, h.stage.current, ?_⟩, h.alone, h.apart, h.nodup⟩
  · intro j e he hsynced
    have hj : s.Fits j := ⟨e, he, h.synced j e he hsynced⟩
    obtain ⟨e', he', hfile⟩ := hfits j hj
    rw [show (s.setFile k content).entries = s.entries from rfl] at he he'
    rw [he] at he'
    cases he'
    exact hfile
  · intro i call hcall
    have hcallFits := h.calls i call hcall
    cases call with
    | asked update j content title => trivial
    | stored j content => exact hcallFits
    | filed j => exact hfits j hcallFits
  · intro j hj
    exact hfits j (h.stage.marking j hj)

theorem State.Kept.setCall (h : s.Kept) {new : Option Call}
    (hfits : ∀ call, new = some call → s.CallFits call)
    (hholds : ∀ call k, new = some call → call.holds = some k →
      (∀ j call', j ≠ i → s.calls j = some call' → call'.holds ≠ some k) ∧ k ∉ s.stage.keys) :
    (s.setCall i new).Kept where
  synced := h.synced
  calls j call hcall := by
    rw [calls_setCall] at hcall
    split at hcall
    · exact hfits call hcall
    · exact h.calls j call hcall
  stage := ⟨h.stage.rows, h.stage.current, h.stage.marking⟩
  alone j m call call' k hj hm hk hk' := by
    rw [calls_setCall] at hj hm
    split at hj
    · split at hm
      · rename_i hji hmi
        rw [hji, hmi]
      · rename_i hmi
        exact absurd hk' ((hholds call k hj hk).1 m call' hmi hm)
    · split at hm
      · rename_i hji _
        exact absurd hk ((hholds call' k hm hk').1 j call hji hj)
      · exact h.alone j m call call' k hj hm hk hk'
  apart j call k hj hk := by
    rw [calls_setCall] at hj
    split at hj
    · exact (hholds call k hj hk).2
    · exact h.apart j call k hj hk
  nodup := h.nodup

theorem State.Kept.endCall (h : s.Kept) : (s.setCall i none).Kept :=
  h.setCall (fun _ hcall => by cases hcall) fun _ _ hcall => by cases hcall

theorem State.Kept.setStage (h : s.Kept) {g : Stage} (hfits : s.StageFits g)
    (hkeys : g.keys.Sublist s.stage.keys) : ({ s with stage := g } : State).Kept where
  synced := h.synced
  calls := fun i call hcall => by
    have hcallFits := h.calls i call hcall
    cases call <;> exact hcallFits
  stage := ⟨hfits.rows, hfits.current, hfits.marking⟩
  alone := h.alone
  apart i call k hi hk hmem := h.apart i call k hi hk (hkeys.subset hmem)
  nodup := hkeys.nodup h.nodup

theorem State.Kept.setQuarantine (h : s.Kept) (q : List Quarantine) :
    ({ s with quarantine := q } : State).Kept where
  synced := h.synced
  calls := fun i call hcall => by
    have hcallFits := h.calls i call hcall
    cases call <;> exact hcallFits
  stage := ⟨h.stage.rows, h.stage.current, h.stage.marking⟩
  alone := h.alone
  apart := h.apart
  nodup := h.nodup

theorem bodyAt_setSync (u : Entries) (k j : Key) (status : SyncStatus) :
    bodyAt (setSync u k status) j = bodyAt u j := by
  by_cases hj : j = k
  · subst hj
    cases h : u j <;> simp [bodyAt, setSync, h]
  · simp [bodyAt, hj]

/-- A mark of a row whose file fits, and any other change of its status. -/
theorem remarked_setSync {status : SyncStatus} (hfits : status = .synced → s.Fits k) :
    Remarked s (setSync s.entries k status) where
  body j := bodyAt_setSync s.entries k j status
  synced j e he hsynced := by
    by_cases hj : j = k
    · subst hj
      simp only [setSync, Function.update_self, Option.map_eq_some_iff] at he
      obtain ⟨e', he', rfl⟩ := he
      exact .inr (hfits hsynced)
    · rw [setSync_of_ne hj] at he
      exact .inl ⟨e, he, hsynced⟩

theorem remarked_bumpAttempts : Remarked s (bumpAttempts s.entries k) where
  body j := by
    by_cases hj : j = k
    · subst hj
      cases h : s.entries j <;> simp [bodyAt, bumpAttempts, h]
    · simp [bodyAt, bumpAttempts, hj]
  synced j e he hsynced := by
    left
    by_cases hj : j = k
    · subst hj
      simp only [bumpAttempts, Function.update_self, Option.map_eq_some_iff] at he
      obtain ⟨e', he', rfl⟩ := he
      exact ⟨e', he', hsynced⟩
    · rw [bumpAttempts, Function.update_of_ne hj] at he
      exact ⟨e, he, hsynced⟩

theorem remarked_archive {u : Entries} (h : archiveEntry s.entries k = some u) : Remarked s u := by
  obtain ⟨e, hrow, -, rfl⟩ := archiveEntry_eq_some h
  constructor
  · intro j
    by_cases hj : j = k
    · subst hj
      simp [bodyAt, hrow]
    · simp [bodyAt, hj]
  · intro j e' he' hsynced
    left
    by_cases hj : j = k
    · subst hj
      rw [Function.update_self] at he'
      cases he'
      exact ⟨e, hrow, hsynced⟩
    · rw [Function.update_of_ne hj] at he'
      exact ⟨e', he', hsynced⟩

theorem State.Kept.settled (h : s.Kept) (status : SyncStatus) (effect : Bool)
    (hfits : status = .synced → s.Fits k) : (s.settled k status effect).Kept := by
  unfold State.settled
  split
  · exact h.remark (remarked_setSync hfits)
  · exact h

theorem State.Kept.put (h : s.Kept) (hfree : s.Free k) {e : Entry} (he : e.syncStatus = .pending) :
    ({ s with entries := Function.update s.entries k (some e) } : State).Kept := by
  have hbody : ∀ j, j ≠ k → bodyAt (Function.update s.entries k (some e)) j = bodyAt s.entries j := by
    intro j hj
    simp [bodyAt, hj]
  have hfits : ∀ j, j ≠ k → s.Fits j →
      ({ s with entries := Function.update s.entries k (some e) } : State).Fits j := by
    rintro j hj ⟨e', he', hfile⟩
    exact ⟨e', (Function.update_of_ne hj _ _).trans he', hfile⟩
  have hne : ∀ j, j ∈ s.stage.keys → j ≠ k := by
    rintro j hj rfl
    exact hfree.2 hj
  refine ⟨?_, ?_, ⟨?_, ?_, ?_⟩, h.alone, h.apart, h.nodup⟩
  · intro j e' he' hsynced
    change Function.update s.entries k (some e) j = some e' at he'
    by_cases hj : j = k
    · subst hj
      rw [Function.update_self] at he'
      cases he'
      rw [he] at hsynced
      cases hsynced
    · rw [Function.update_of_ne hj] at he'
      exact h.synced j e' he' hsynced
  · intro i call hcall
    have hcallFits := h.calls i call hcall
    have hcallFree := hfree.1 i call hcall
    cases call with
    | asked update j content title => trivial
    | stored j content =>
      exact (hbody j fun hj => hcallFree (congrArg some hj)).trans hcallFits
    | filed j => exact hfits j (fun hj => hcallFree (congrArg some hj)) hcallFits
  · intro row hrow
    have hmem : row.key ∈ s.stage.keys :=
      List.mem_append_right _ (List.mem_map_of_mem hrow)
    exact (hbody row.key (hne _ hmem)).trans (h.stage.rows row hrow)
  · intro j hj
    have hmem : j ∈ s.stage.keys := List.mem_append_left _ (by simp [hj])
    change (Function.update s.entries k (some e) j).isSome
    rw [Function.update_of_ne (hne j hmem)]
    exact h.stage.current j hj
  · intro j hj
    have hmem : j ∈ s.stage.keys := by
      apply List.mem_append_left
      revert hj
      cases s.stage <;> simp [Stage.marking, Stage.current, eq_comm]
    exact hfits j (hne j hmem) (h.stage.marking j hj)

/-- A key without a row is held by nobody. -/
theorem State.Kept.free_of_none (h : s.Kept) (hk : s.entries k = none) : s.Free k := by
  constructor
  · intro i call hcall hholds
    have hcallFits := h.calls i call hcall
    cases call with
    | asked update j content title => cases hholds
    | stored j content =>
      cases hholds
      simp [State.CallFits, bodyAt, hk] at hcallFits
    | filed j =>
      cases hholds
      obtain ⟨e, he, -⟩ := hcallFits
      rw [hk] at he
      cases he
  · intro hmem
    rw [Stage.keys, List.mem_append] at hmem
    obtain hmem | hmem := hmem
    · have hsome := h.stage.current k (by simpa using hmem)
      rw [hk] at hsome
      cases hsome
    · obtain ⟨row, hrow, rfl⟩ := List.mem_map.mp hmem
      have hbody := h.stage.rows row hrow
      simp [bodyAt, hk] at hbody

theorem fetched_eq_some {u : Entries} {keys : List Key} {rows : List Row}
    (h : fetched u keys = some rows) :
    rows.map Row.key = keys ∧ ∀ row ∈ rows, bodyAt u row.key = some row.body := by
  induction keys generalizing rows with
  | nil =>
    cases h
    exact ⟨rfl, fun _ hrow => by cases hrow⟩
  | cons k keys ih =>
    simp only [fetched, List.mapM_cons, Option.bind_eq_bind, Option.bind_eq_some_iff] at h
    obtain ⟨row, hrow, rest, hrest, hrows⟩ := h
    cases hrows
    obtain ⟨hkeys, hbody⟩ := ih hrest
    split at hrow
    · rename_i e he
      split at hrow
      · cases hrow
        refine ⟨by rw [List.map_cons, hkeys], ?_⟩
        intro row hmem
        obtain rfl | hmem := List.mem_cons.mp hmem
        · simp [bodyAt, he]
        · exact hbody row hmem
      · cases hrow
    · cases hrow

theorem State.Kept.fetch (h : s.Kept) {keys : List Key} {rows : List Row}
    (hfetched : fetched s.entries keys = some rows) (hnodup : keys.Nodup)
    (hapart : ∀ i call k, s.calls i = some call → call.holds = some k → k ∉ keys) :
    ({ s with stage := .pending rows } : State).Kept := by
  obtain ⟨hkeys, hbody⟩ := fetched_eq_some hfetched
  have hstage : (Stage.pending rows).keys = keys := by
    simpa [Stage.keys, Stage.current, Stage.rows] using hkeys
  refine ⟨h.synced, ?_, ⟨hbody, ?_, ?_⟩, h.alone, ?_, ?_⟩
  · intro i call hcall
    have hcallFits := h.calls i call hcall
    cases call <;> exact hcallFits
  · rintro k ⟨⟩
  · rintro k ⟨⟩
  · intro i call k hcall hholds
    change k ∉ (Stage.pending rows).keys
    rw [hstage]
    exact hapart i call k hcall hholds
  · change (Stage.pending rows).keys.Nodup
    rw [hstage]
    exact hnodup

theorem State.Kept.sweep (h : s.Kept) {g : Stage} (hrows : g.rows = []) (hcurrent : g.current = none)
    (hmarking : g.marking = none) : ({ s with stage := g } : State).Kept := by
  apply h.setStage
  · refine ⟨?_, ?_, ?_⟩
    · rw [hrows]
      rintro row ⟨⟩
    · rw [hcurrent]
      rintro k ⟨⟩
    · rw [hmarking]
      rintro k ⟨⟩
  · simp [Stage.keys, hrows, hcurrent]

theorem State.Kept.idle (h : s.Kept) : ({ s with stage := .idle } : State).Kept :=
  h.sweep rfl rfl rfl

theorem State.Kept.examined (h : s.Kept) {row : Row} {rows : List Row}
    (hstage : s.stage = .pending (row :: rows))
    (hfile : s.present row.key = true →
      ∃ content, s.files row.key = some content ∧ bodyAt s.entries row.key = some content)
    (written : Bool) : (s.examined row rows written).Kept := by
  have hstageFits := h.stage
  rw [hstage] at hstageFits
  have hbody : bodyAt s.entries row.key = some row.body := hstageFits.rows row (by simp [Stage.rows])
  have hrest : ∀ r ∈ rows, bodyAt s.entries r.key = some r.body := fun r hr =>
    hstageFits.rows r (by simp [Stage.rows, hr])
  have hsome : (s.entries row.key).isSome := by
    simpa [bodyAt] using congrArg Option.isSome hbody
  have hkeys : s.stage.keys = row.key :: rows.map Row.key := by
    rw [hstage]
    rfl
  unfold State.examined
  split
  · rename_i hpresent
    obtain ⟨content, hcontent, hfits⟩ := hfile hpresent
    apply h.setStage
    · refine ⟨hrest, ?_, ?_⟩
      · rintro k ⟨⟩
        exact hsome
      · rintro k ⟨⟩
        exact Fits_iff.mpr ⟨content, hfits, hcontent⟩
    · rw [hkeys]
      exact List.Sublist.refl _
  · split
    · apply h.setStage
      · refine ⟨hrest, ?_, ?_⟩
        · rintro k ⟨⟩
          exact hsome
        · rintro k ⟨⟩
      · rw [hkeys]
        exact List.Sublist.refl _
    · split
      · apply (h.setFile hbody).setStage
        · refine ⟨hrest, ?_, ?_⟩
          · rintro k ⟨⟩
            exact hsome
          · rintro k ⟨⟩
            exact Fits_iff.mpr ⟨row.body, hbody, Function.update_self _ _ _⟩
        · change (Stage.filed row.key rows).keys.Sublist s.stage.keys
          rw [hkeys]
          exact List.Sublist.refl _
      · apply h.setStage
        · refine ⟨hrest, ?_, ?_⟩
          · rintro k ⟨⟩
            exact hsome
          · rintro k ⟨⟩
        · rw [hkeys]
          exact List.Sublist.refl _

theorem State.Kept.next (h : s.Kept) {g : Stage} (hrows : g.rows = s.stage.rows ∨ g.rows = [])
    (hcurrent : g.current = s.stage.current ∨ g.current = none) (hmarking : g.marking = none) :
    ({ s with stage := g } : State).Kept := by
  apply h.setStage
  · refine ⟨?_, ?_, ?_⟩
    · intro row hrow
      obtain hrows | hrows := hrows <;> rw [hrows] at hrow
      · exact h.stage.rows row hrow
      · cases hrow
    · intro k hk
      obtain hcurrent | hcurrent := hcurrent <;> rw [hcurrent] at hk
      · exact h.stage.current k hk
      · cases hk
    · rw [hmarking]
      rintro k ⟨⟩
  · unfold Stage.keys
    apply List.Sublist.append
    · obtain hcurrent | hcurrent := hcurrent <;> simp [hcurrent]
    · obtain hrows | hrows := hrows <;> simp [hrows]

theorem stage_settled (k : Key) (status : SyncStatus) (effect : Bool) :
    (s.settled k status effect).stage = s.stage := by
  unfold State.settled
  split <;> rfl

theorem State.Kept.settles (h : s.Kept) {outcome : Outcome} (hstep : s.settles outcome = some t) :
    t.Kept := by
  unfold State.settles at hstep
  split at hstep
  · rename_i k rows hstage
    cases hstep
    have hmark : s.Fits k := h.stage.marking k (by rw [hstage]; rfl)
    apply (h.settled .synced outcome.effect fun _ => hmark).next
    all_goals cases outcome.heard <;>
      simp [stage_settled, hstage, Stage.rows, Stage.current, Stage.marking]
  · rename_i row rows hstage
    cases hstep
    have hnext : ({ s with
        stage := if outcome.heard then .failing row.key rows else .idle } : State).Kept := by
      apply h.next
      all_goals cases outcome.heard <;> simp [hstage, Stage.rows, Stage.current, Stage.marking]
    exact hnext.setQuarantine _
  · rename_i k rows hstage
    cases hstep
    apply (h.settled .error outcome.effect (by rintro ⟨⟩)).next
    all_goals cases outcome.heard <;>
      simp [stage_settled, hstage, Stage.rows, Stage.current, Stage.marking]
  · rename_i k rows hstage
    cases hstep
    have hmark : s.Fits k := h.stage.marking k (by rw [hstage]; rfl)
    apply (h.settled .synced outcome.effect fun _ => hmark).next
    all_goals cases outcome.heard <;>
      simp [stage_settled, hstage, Stage.rows, Stage.current, Stage.marking]
  · rename_i k rows hstage
    cases hstep
    have hbumped : ({ s with
        entries := if outcome.effect then bumpAttempts s.entries k else s.entries } : State).Kept := by
      split
      · exact h.remark remarked_bumpAttempts
      · exact h
    apply hbumped.next
    all_goals cases outcome.heard <;> simp [hstage, Stage.rows, Stage.current, Stage.marking]
  · cases hstep

theorem State.Kept.store (h : s.Kept) {heard : Bool}
    (hok : ∀ k content title, s.calls i = some (.asked true k content title) → s.Free k)
    (hstep : (machine lib lower).step s (.store i heard) = some t) : t.Kept := by
  simp only [machine, State.step] at hstep
  split at hstep
  · rename_i update k content title hcall
    split at hstep
    · rename_i u hstore
      cases hstep
      have hput : s.Free k ∧ ({ s with entries := u } : State).Kept ∧ bodyAt u k = some content := by
        cases update with
        | true =>
          obtain ⟨e, -, -, rfl⟩ := updateEntry_eq_some hstore
          have hfree := hok k content title hcall
          exact ⟨hfree, h.put hfree rfl, by simp [bodyAt]⟩
        | false =>
          obtain ⟨hnone, rfl⟩ := insertEntry_eq_some hstore
          have hfree := h.free_of_none hnone
          exact ⟨hfree, h.put hfree rfl, by simp [bodyAt]⟩
      obtain ⟨hfree, hkept, hbody⟩ := hput
      apply hkept.setCall
      · intro call hnew
        cases heard <;> cases hnew
        exact hbody
      · intro call j hnew hholds
        cases heard <;> cases hnew
        cases hholds
        exact ⟨fun m call' _ hm => hfree.1 m call' hm, hfree.2⟩
    · cases hstep
      exact h.endCall
  · cases hstep

theorem State.Kept.file (h : s.Kept) {written : Bool}
    (hstep : (machine lib lower).step s (.file i written) = some t) : t.Kept := by
  simp only [machine, State.step] at hstep
  split at hstep
  · rename_i k content hcall
    cases hstep
    have hbody : bodyAt s.entries k = some content := h.calls i _ hcall
    split
    · apply (h.setFile hbody).setCall
      · rintro call ⟨⟩
        exact Fits_iff.mpr ⟨content, hbody, Function.update_self _ _ _⟩
      · rintro call j ⟨⟩ hholds
        cases hholds
        refine ⟨?_, h.apart i _ k hcall rfl⟩
        intro m call' hm hcall' hholds'
        exact hm (h.alone m i call' _ k hcall' hcall hholds' rfl)
    · exact h.endCall
  · cases hstep

theorem kept_step (h : s.Kept) (hok : s.Orderly e)
    (hstep : (machine lib lower).step s e = some t) : t.Kept := by
  cases e with
  | arrive i update w =>
    simp only [machine, State.step] at hstep
    split at hstep
    · cases hstep
    · split at hstep
      · cases hstep
        apply h.setCall
        · rintro call ⟨⟩
          trivial
        · rintro call k ⟨⟩ ⟨⟩
      · cases hstep
        exact h
  | store i heard => exact h.store hok hstep
  | mkdir i =>
    simp only [machine, State.step] at hstep
    split at hstep <;> cases hstep <;> exact h.makes _
  | file i written => exact h.file hstep
  | mark i outcome =>
    simp only [machine, State.step] at hstep
    split at hstep
    · rename_i k hcall
      cases hstep
      exact (h.settled .synced outcome.effect fun _ => h.calls i _ hcall).endCall
    · cases hstep
  | drop i =>
    obtain ⟨call, -, rfl⟩ := Option.map_eq_some_iff.mp hstep
    exact h.endCall
  | archive agent path =>
    simp only [machine, State.step] at hstep
    split at hstep
    · obtain ⟨u, harchive, rfl⟩ := Option.map_eq_some_iff.mp hstep
      exact h.remark (remarked_archive harchive)
    · cases hstep
      exact h
  | fetch keys =>
    simp only [machine, State.step] at hstep
    split at hstep
    · split at hstep
      · rename_i hkeys
        obtain ⟨rows, hrows, rfl⟩ := Option.map_eq_some_iff.mp hstep
        exact h.fetch hrows hkeys.1 hok
      · cases hstep
    · cases hstep
  | examine written =>
    simp only [machine, State.step] at hstep
    split at hstep
    · rename_i row rows hstage
      cases hstep
      exact h.examined hstage (hok row rows hstage) written
    · cases hstep
      exact h.sweep rfl rfl rfl
    · cases hstep
  | settle outcome => exact h.settles hstep
  | list agent =>
    simp only [machine, State.step] at hstep
    split at hstep
    · cases hstep
      exact h.sweep rfl rfl rfl
    · cases hstep
  | query =>
    simp only [machine, State.step] at hstep
    split at hstep
    · cases hstep
      exact h.sweep rfl rfl rfl
    · cases hstep
  | compare =>
    simp only [machine, State.step] at hstep
    split at hstep
    · cases hstep
      exact h.sweep rfl rfl rfl
    · cases hstep
  | record path outcome =>
    simp only [machine, State.step] at hstep
    split at hstep
    · rename_i agent paths hstage
      split at hstep
      · cases hstep
        have hnext : ({ s with
            stage := if outcome.heard then .orphans agent (fun p => paths p && p ≠ path)
              else .idle } : State).Kept := by
          apply h.sweep <;> cases outcome.heard <;> rfl
        exact hnext.setQuarantine _
      · cases hstep
    · cases hstep
  | rest =>
    simp only [machine, State.step] at hstep
    split at hstep
    · cases hstep
      exact h.sweep rfl rfl rfl
    · cases hstep
      exact h.idle

theorem kept_initial (h : (machine lib lower).initial s) (hsynced : s.Synced) : s.Kept := by
  obtain ⟨hcalls, hstage, -⟩ := h
  refine ⟨hsynced, ?_, ?_, ?_, ?_, ?_⟩
  · intro i call hcall
    rw [hcalls] at hcall
    cases hcall
  · rw [hstage]
    refine ⟨?_, ?_, ?_⟩
    · rintro row ⟨⟩
    · rintro k ⟨⟩
    · rintro k ⟨⟩
  · intro i j call call' k hcall
    rw [hcalls] at hcall
    cases hcall
  · intro i call k hcall
    rw [hcalls] at hcall
    cases hcall
  · rw [hstage]
    exact List.nodup_nil

/-- From a store whose synced rows have their files, the runs that overlap on no row keep it so. -/
theorem synced_of_orderly {es : List Event} (hinitial : (machine lib lower).initial s)
    (hsynced : s.Synced) (hrun : (machine lib lower).RunIf State.Orderly s es t) : t.Synced :=
  (hrun.invariant (kept_initial hinitial hsynced) fun _ _ _ hs hok hstep =>
    kept_step hs hok hstep).synced

end Synced

section Runs

def noteAt (path content : String) : Write :=
  ⟨"agent", path, "---\ntitle: A\ntype: note\n---\n" ++ content⟩

def note (content : String) : Write := noteAt "a.md" content

def noteKey : Key := ("agent", "a.md")

def empty : State where
  entries _ := none
  files _ := none

/-- An update whose file cannot be written, before the reconciler finds the file of the old body. -/
def staleFile : List Event :=
  [.arrive 0 false (note "old"), .store 0 true, .file 0 true, .mark 0 .done,
    .arrive 1 true (note "new"), .store 1 true, .file 1 false,
    .fetch [noteKey], .examine true, .settle .done]

/-- Two updates that write their rows in one order and their files in the other. -/
def crossedFiles : List Event :=
  [.arrive 0 false (note "old"), .store 0 true, .file 0 true, .mark 0 .done,
    .arrive 1 true (note "one"), .arrive 2 true (note "two"), .store 1 true, .store 2 true,
    .file 2 true, .file 1 true, .mark 2 .done, .mark 1 .done]

/-- A file whose path makes a directory of the path of another. -/
def directoryFound : List Event :=
  [.arrive 0 false (noteAt "a.md/b.md" "in it"), .store 0 true, .file 0 true, .mark 0 .done,
    .arrive 1 false (note "text"), .store 1 true, .file 1 true,
    .fetch [noteKey], .examine true, .settle .done]

theorem not_synced_of_differs {s : State} {k : Key}
    (h : (s.entries k).any (fun e => e.syncStatus = .synced && s.files k ≠ some e.body) = true) :
    ¬s.Synced := by
  intro hsynced
  cases he : s.entries k with
  | none =>
    rw [he] at h
    cases h
  | some e =>
    rw [he] at h
    simp only [Option.any_some, Bool.and_eq_true, decide_eq_true_eq] at h
    exact h.2 (hsynced k e he h.1)

theorem initial_empty : (machine loader id).initial empty := ⟨rfl, rfl, rfl⟩

theorem stale_files_synced :
    ((machine loader id).Reachable ((machine loader id).after empty staleFile) ∧
        ¬((machine loader id).after empty staleFile).Synced) ∧
      ((machine loader id).Reachable ((machine loader id).after empty crossedFiles) ∧
        ¬((machine loader id).after empty crossedFiles).Synced) ∧
      (machine loader id).Reachable ((machine loader id).after empty directoryFound) ∧
        ¬((machine loader id).after empty directoryFound).Synced := by
  refine ⟨⟨⟨empty, staleFile, initial_empty, Machine.run_after (by decide)⟩, ?_⟩,
    ⟨⟨empty, crossedFiles, initial_empty, Machine.run_after (by decide)⟩, ?_⟩,
    ⟨empty, directoryFound, initial_empty, Machine.run_after (by decide)⟩, ?_⟩
  · exact not_synced_of_differs (k := noteKey) (by decide)
  · exact not_synced_of_differs (k := noteKey) (by decide)
  · exact not_synced_of_differs (k := noteKey) (by decide)

def unwritten : State where
  entries := Function.update (fun _ => none) noteKey (some ⟨"body", "A", .active, .pending, 1⟩)
  files _ := none

theorem synced_unwritten : unwritten.Synced := by
  intro k e he hsynced
  by_cases hk : k = noteKey
  · subst hk
    simp only [unwritten, Function.update_self, Option.some.injEq] at he
    subst he
    cases hsynced
  · simp [unwritten, hk] at he

theorem synced_after_retry :
    ((machine loader id).after unwritten [.fetch [noteKey], .examine true, .settle .done]).Synced := by
  apply @synced_of_orderly loader id unwritten _ _ ⟨rfl, rfl, rfl⟩ synced_unwritten
  have hfetch := @Machine.step_after _ _ (machine loader id) unwritten [] (.fetch [noteKey])
    (by decide)
  have hexamine := @Machine.step_after _ _ (machine loader id) unwritten [.fetch [noteKey]]
    (.examine true) (by decide)
  have hsettle := @Machine.step_after _ _ (machine loader id) unwritten
    [.fetch [noteKey], .examine true] (.settle .done) (by decide)
  refine .cons ?_ hfetch (.cons ?_ hexamine (.cons ?_ hsettle (.nil _)))
  · rintro i call k ⟨⟩
  · rintro row rows hstage hpresent
    cases hstage
    exact absurd hpresent (by decide)
  · trivial

end Runs

end Hill90.Knowledge.Sync
