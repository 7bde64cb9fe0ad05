import Hill90.Foundation.Fate
import Hill90.Knowledge.Store
import Hill90.Knowledge.Wrapping

/-! # The entries an agent saves

`save_knowledge` posts to the route that creates an entry and puts to the one that updates it where
the answer is a conflict; `entries.py` maps the errors of the store to answers.
-/

namespace Hill90.Knowledge.Saving

open Agentbox (Python Environ Arguments Statement HttpAnswer ToolResult executeSaveKnowledge)
open Router (Json)

structure Host where
  py : Python
  lower : String → String
  lib : Loader
  env : Environ

section Routes

variable (H : Host) (agent : String)

/-- A text with a null character is no text of the database. -/
def storable (s : String) : Bool := '\x00' ∉ s.toList

abbrev Disk := Key → Bool

def synced (disk : Disk) (t : Entries) (k : Key) : Entries :=
  if disk k then setSync t k .synced else t

def failed : Failure → HttpAnswer
  | .valueError message => ⟨400, message⟩
  | .typeError _ => ⟨500, "Internal Server Error"⟩

def createEntry (disk : Disk) (t : Entries) (path content : String) : HttpAnswer × Entries :=
  match validatePath H.lower path with
  | .error e => (⟨400, e⟩, t)
  | .ok path =>
    match rowTitle H.lib content with
    | .error e => (failed e, t)
    | .ok title =>
      if !(storable content && storable title) then (⟨500, "Internal Server Error"⟩, t)
      else
        match insertEntry t (agent, path) content title with
        | none => (⟨500, "Internal Server Error"⟩, t)
        | some u => (⟨201, content⟩, synced disk u (agent, path))

def updateEntryRoute (disk : Disk) (t : Entries) (path content : String) : HttpAnswer × Entries :=
  match validatePath H.lower path with
  | .error e => (⟨400, e⟩, t)
  | .ok path =>
    match rowTitle H.lib content with
    | .error e => (failed e, t)
    | .ok title =>
      if !(storable content && storable title) then (⟨500, "Internal Server Error"⟩, t)
      else
        match updateEntry t (agent, path) content title with
        | none => (⟨404, "entry not found"⟩, t)
        | some u => (⟨200, content⟩, synced disk u (agent, path))

def readEntry (t : Entries) (path : String) : HttpAnswer :=
  match validatePath H.lower path with
  | .error _ => ⟨500, "Internal Server Error"⟩
  | .ok path =>
    match selectEntry t (agent, path) with
    | none => ⟨404, "entry not found"⟩
    | some e => ⟨200, e.body⟩

def archiveRoute (t : Entries) (path : String) : HttpAnswer × Entries :=
  match validatePath H.lower path with
  | .error e => (⟨400, e⟩, t)
  | .ok path =>
    match archiveEntry t (agent, path) with
    | none => (⟨404, "entry not found"⟩, t)
    | some u => (⟨200, path⟩, u)

def pathOf (base url : String) : Option String :=
  let route := (base ++ "/api/v1/entries/").toList
  if route.isPrefixOf url.toList then some (String.ofList (url.toList.drop route.length)) else none

/-- The routes under `/api/v1/entries` that the tool asks; a member that is no text is refused. -/
def serve (t : Entries) (disk : Disk) : (st : Statement) → Except String (st.Rows × Entries)
  | .request "POST" url payload =>
    if url = H.env.akmServiceUrl ++ "/api/v1/entries" then
      match payload with
      | [("path", .text path), ("content", .text content)] =>
        .ok (createEntry H agent disk t path content)
      | _ => .ok (⟨422, "Input should be a valid string"⟩, t)
    else .ok (⟨404, "Not Found"⟩, t)
  | .request "PUT" url payload =>
    match pathOf H.env.akmServiceUrl url, payload with
    | some path, [("content", .text content)] =>
      .ok (updateEntryRoute H agent disk t path content)
    | some _, _ => .ok (⟨422, "Input should be a valid string"⟩, t)
    | none, _ => .ok (⟨404, "Not Found"⟩, t)
  | .request _ _ _ => .ok (⟨405, "Method Not Allowed"⟩, t)
  | _ => .error ""

def save (disk : Disk) (t : Entries) (args : Arguments) : Except String ToolResult × Entries :=
  (executeSaveKnowledge H.py H.env args).against (serve H agent) (fun _ => .answered disk) t

end Routes

section Save

open Program

variable (H : Host) (agent : String)

def succeeded : Except String ToolResult → Bool
  | .ok (.success _) => true
  | _ => false

def posted (path content : String) : String :=
  if "---".toList.isPrefixOf content.toList then content else Agentbox.frontmatter H.py path content

def exchange (path : Json) (entry : String) : Agentbox.Handler ToolResult :=
  Agentbox.catching 200 do
    let res ← Agentbox.http "POST" (H.env.akmServiceUrl ++ "/api/v1/entries")
      [("path", path), ("content", .text entry)]
    if res.status = 201 then return .success "Knowledge entry saved"
    if res.status = 409 then
      let res2 ← Agentbox.http "PUT" (H.env.akmServiceUrl ++ "/api/v1/entries/" ++ H.py.str path)
        [("content", .text entry)]
      if res2.status = 200 then return .success "Knowledge entry updated"
      return .error s!"Update failed: {res2.status} {Agentbox.clip 200 res2.text}"
    return .error s!"AKM returned {res.status}: {Agentbox.clip 200 res.text}"

theorem executeSaveKnowledge_eq (args : Arguments) :
    executeSaveKnowledge H.py H.env args =
      if (!Agentbox.truthy (args.getD "path" (.text "")) ||
          !Agentbox.truthy (args.getD "content" (.text ""))) = true then
        pure (.error "path and content are required")
      else
        Agentbox.withAkm H.env "AKM not configured" (do
          let text ← Agentbox.asText (args.getD "content" (.text ""))
          if "---".toList.isPrefixOf text.toList = true then
            exchange H (args.getD "path" (.text "")) text
          else do
            let path ← Agentbox.asText (args.getD "path" (.text ""))
            exchange H (args.getD "path" (.text "")) (Agentbox.frontmatter H.py path text)) := rfl

/-- Two texts are posted, where the tool is configured and neither is empty. -/
theorem executeSaveKnowledge_text {args : Arguments} {path content : String}
    (hpath : args.getD "path" (.text "") = .text path)
    (hcontent : args.getD "content" (.text "") = .text content) :
    executeSaveKnowledge H.py H.env args =
      if (!Agentbox.truthy (.text path) || !Agentbox.truthy (.text content)) = true then
        pure (.error "path and content are required")
      else
        Agentbox.withAkm H.env "AKM not configured" (exchange H (.text path) (posted H path content)) := by
  rw [executeSaveKnowledge_eq, hpath, hcontent]
  unfold posted
  split
  · rfl
  · congr 1
    change (if "---".toList.isPrefixOf content.toList = true then _ else _) = _
    split <;> rfl

theorem http_against {disk : Disk} {t u : Entries} {method url : String}
    {payload : List (String × Json)} {ans : HttpAnswer}
    (h : serve H agent t disk (.request method url payload) = .ok (ans, u)) :
    (Agentbox.http method url payload).against (serve H agent) (fun _ => .answered disk) t =
      (.ok ans, u) := by
  have hsettle : (Hill90.Outcome.answered disk).settle (serve H agent) t
      (.request method url payload) = (.ok ans, u) := by
    simp only [Outcome.settle, h]
  exact (against_query _).trans hsettle

theorem exchange_against {disk : Disk} {t u : Entries} {path : Json} {entry : String}
    {ans : HttpAnswer}
    (h : serve H agent t disk (.request "POST" (H.env.akmServiceUrl ++ "/api/v1/entries")
      [("path", path), ("content", .text entry)]) = .ok (ans, u)) (hconflict : ans.status ≠ 409) :
    (exchange H path entry).against (serve H agent) (fun _ => .answered disk) t =
      (.ok (if ans.status = 201 then .success "Knowledge entry saved"
        else .error s!"AKM returned {ans.status}: {Agentbox.clip 200 ans.text}"), u) := by
  unfold exchange Agentbox.catching
  rw [against_tryCatch, against_bind, http_against H agent h]
  by_cases hcreated : ans.status = 201
  · simp only [if_pos hcreated]
    rfl
  · simp only [if_neg hcreated, if_neg hconflict]
    rfl

theorem createEntry_cases (disk : Disk) (t : Entries) (path content : String) :
    (∃ p title, validatePath H.lower path = .ok p ∧ t (agent, p) = none ∧
      createEntry H agent disk t path content = (⟨201, content⟩,
        synced disk (Function.update t (agent, p) (some ⟨content, title, .active, .pending, 0⟩))
          (agent, p))) ∨
      ((createEntry H agent disk t path content).1.status ∈ [400, 500] ∧
        (createEntry H agent disk t path content).2 = t) := by
  unfold createEntry
  cases validatePath H.lower path with
  | error e => exact .inr ⟨by simp, rfl⟩
  | ok p =>
    cases rowTitle H.lib content with
    | error e => cases e <;> exact .inr ⟨by simp [failed], rfl⟩
    | ok title =>
      by_cases hstorable : (!(storable content && storable title)) = true
      · right
        simp only [if_pos hstorable]
        exact ⟨by simp, trivial⟩
      · simp only [if_neg hstorable]
        cases hinsert : insertEntry t (agent, p) content title with
        | none => exact .inr ⟨by simp, rfl⟩
        | some u =>
          obtain ⟨hfree, rfl⟩ := insertEntry_eq_some hinsert
          exact .inl ⟨p, title, rfl, hfree, rfl⟩

/-- The key the tool saves under, where its path is one. -/
def target (args : Arguments) : Option Key :=
  match args.getD "path" (.text "") with
  | .text path =>
    match validatePath H.lower path with
    | .ok p => some (agent, p)
    | .error _ => none
  | _ => none

def saved (args : Arguments) : String :=
  match args.getD "path" (.text ""), args.getD "content" (.text "") with
  | .text path, .text content => posted H path content
  | _, _ => ""

/-- A call saves under a key that has no row, or it fails and changes nothing. -/
inductive Outcome (t : Entries) (args : Arguments) : Except String ToolResult × Entries → Prop where
  | saved {k : Key} {u : Entries} {e : Entry} (key : target H agent args = some k)
      (free : t k = none) (row : u k = some e) (active : e.status = .active)
      (body : e.body = saved H args) (frame : ∀ j, j ≠ k → u j = t j) :
      Outcome t args (.ok (.success "Knowledge entry saved"), u)
  | failed {res : Except String ToolResult} (h : succeeded res = false) : Outcome t args (res, t)

theorem synced_apply (disk : Disk) (t : Entries) {k : Key} {e : Entry} (h : t k = some e) :
    ∃ e', synced disk t k k = some e' ∧ e'.status = e.status ∧ e'.body = e.body := by
  unfold synced
  split
  · exact ⟨{ e with syncStatus := .synced }, by simp [setSync, h], rfl, rfl⟩
  · exact ⟨e, h, rfl, rfl⟩

theorem synced_of_ne (disk : Disk) (t : Entries) {j k : Key} (h : j ≠ k) :
    synced disk t k j = t j := by
  unfold synced
  split
  · exact setSync_of_ne h .synced
  · rfl

theorem save_of_text {disk : Disk} {t : Entries} {args : Arguments} {path content : String}
    (hpath : args.getD "path" (.text "") = .text path)
    (hcontent : args.getD "content" (.text "") = .text content) :
    Outcome H agent t args (save H agent disk t args) := by
  unfold save
  rw [executeSaveKnowledge_text H hpath hcontent]
  split
  · exact .failed rfl
  · unfold Agentbox.withAkm
    split
    · exact .failed rfl
    · have hserve : serve H agent t disk (.request "POST" (H.env.akmServiceUrl ++ "/api/v1/entries")
          [("path", .text path), ("content", .text (posted H path content))]) =
          .ok (createEntry H agent disk t path (posted H path content)) := by
        simp [serve]
      obtain ⟨p, title, hvalid, hfree, hcreate⟩ | ⟨hstatus, hsame⟩ :=
        createEntry_cases H agent disk t path (posted H path content)
      · rw [hcreate] at hserve
        rw [exchange_against H agent hserve (by simp)]
        obtain ⟨e, he, hactive, hbody⟩ := synced_apply disk
          (Function.update t (agent, p) (some ⟨posted H path content, title, .active, .pending, 0⟩))
          (Function.update_self (agent, p) _ t)
        refine .saved (k := (agent, p)) ?_ hfree he hactive ?_ ?_
        · simp [target, hpath, hvalid]
        · rw [hbody]
          simp [saved, hpath, hcontent]
        · intro j hj
          rw [synced_of_ne disk _ hj, Function.update_of_ne hj]
      · rcases hcreate : createEntry H agent disk t path (posted H path content) with ⟨ans, u⟩
        rw [hcreate] at hserve hstatus hsame
        cases hsame
        have hne : ans.status ≠ 201 ∧ ans.status ≠ 409 := by
          simp only [List.mem_cons, List.not_mem_nil, or_false] at hstatus
          omega
        rw [exchange_against H agent hserve hne.2, if_neg hne.1]
        exact .failed rfl

/-- A path that is no text is refused by the service. -/
theorem exchange_of_not_text {disk : Disk} {t : Entries} {path : Json}
    (h : ∀ p, path ≠ .text p) (entry : String) :
    ∃ message, (exchange H path entry).against (serve H agent) (fun _ => .answered disk) t =
      (.ok (.error message), t) := by
  have hserve : serve H agent t disk (.request "POST" (H.env.akmServiceUrl ++ "/api/v1/entries")
      [("path", path), ("content", .text entry)]) =
      .ok (⟨422, "Input should be a valid string"⟩, t) := by
    cases path with
    | text p => exact absurd rfl (h p)
    | _ => simp [serve]
  rw [exchange_against H agent hserve (by decide)]
  exact ⟨_, rfl⟩

theorem save_of_not_text {disk : Disk} {t : Entries} {args : Arguments}
    (h : ¬∃ path content, args.getD "path" (.text "") = .text path ∧
      args.getD "content" (.text "") = .text content) :
    Outcome H agent t args (save H agent disk t args) := by
  unfold save
  rw [executeSaveKnowledge_eq]
  split
  · exact .failed rfl
  · unfold Agentbox.withAkm
    split
    · exact .failed rfl
    · cases hcontent : args.getD "content" (.text "") with
      | text content =>
        have hpath : ∀ p, args.getD "path" (.text "") ≠ .text p := by
          intro p hp
          exact h ⟨p, content, hp, hcontent⟩
        change Outcome H agent t args (against _ _
          (if "---".toList.isPrefixOf content.toList = true then _ else _) t)
        split
        · obtain ⟨message, hexchange⟩ := exchange_of_not_text H agent hpath content
          rw [hexchange]
          exact .failed rfl
        · cases hp : args.getD "path" (.text "") with
          | text p => exact absurd hp (hpath p)
          | _ =>
            change Outcome H agent t args (.error "object has no such attribute", t)
            exact .failed rfl
      | _ =>
        change Outcome H agent t args (.error "object has no such attribute", t)
        exact .failed rfl

theorem save_outcome (disk : Disk) (t : Entries) (args : Arguments) :
    Outcome H agent t args (save H agent disk t args) := by
  by_cases h : ∃ path content, args.getD "path" (.text "") = .text path ∧
      args.getD "content" (.text "") = .text content
  · obtain ⟨path, content, hpath, hcontent⟩ := h
    exact save_of_text H agent hpath hcontent
  · exact save_of_not_text H agent h

end Save

section Map

variable (H : Host) (agent : String)

/-- What the agent does with its entries. -/
inductive Op where
  | save (disk : Disk) (args : Arguments)
  | archive (path : String)
  | read (path : String)

abbrev Contents := Key → Option String

def contents (t : Entries) : Contents := fun k => (selectEntry t k).map Entry.body

def answer (m : Contents) (path : String) : HttpAnswer :=
  match validatePath H.lower path with
  | .error _ => ⟨500, "Internal Server Error"⟩
  | .ok path =>
    match m (agent, path) with
    | none => ⟨404, "entry not found"⟩
    | some content => ⟨200, content⟩

def Contents.afterSave (m : Contents) (args : Arguments) (res : Except String ToolResult) : Contents :=
  match succeeded res, target H agent args with
  | true, some k => Function.update m k (some (saved H args))
  | _, _ => m

def Contents.afterArchive (m : Contents) (path : String) (ans : HttpAnswer) : Contents :=
  match ans.status, validatePath H.lower path with
  | 200, .ok path => Function.update m (agent, path) none
  | _, _ => m

/-- The run behaves as a map: a save succeeds where its key has a row already and changes no other
key, and a read gives what was last saved. -/
def Behaves (t : Entries) (m : Contents) : List Op → Prop
  | [] => True
  | .save disk args :: ops =>
    let (res, u) := save H agent disk t args
    (∀ k, target H agent args = some k → (t k).isSome → succeeded res = true) ∧
      (∀ j, target H agent args ≠ some j → u j = t j) ∧ Behaves u (m.afterSave H agent args res) ops
  | .archive path :: ops =>
    let (ans, u) := archiveRoute H agent t path
    Behaves u (m.afterArchive H agent path ans) ops
  | .read path :: ops => readEntry H agent t path = answer H agent m path ∧ Behaves t m ops

/-- Every save of the run is to a key without a row, active or archived. -/
def FreshSaves (t : Entries) : List Op → Prop
  | [] => True
  | .save disk args :: ops =>
    (∀ k, target H agent args = some k → t k = none) ∧ FreshSaves (save H agent disk t args).2 ops
  | .archive path :: ops => FreshSaves (archiveRoute H agent t path).2 ops
  | .read _ :: ops => FreshSaves t ops

theorem readEntry_eq_answer (t : Entries) (path : String) :
    readEntry H agent t path = answer H agent (contents t) path := by
  unfold readEntry answer contents
  cases validatePath H.lower path with
  | error e => rfl
  | ok p =>
    cases h : selectEntry t (agent, p) <;> simp [h]

theorem contents_archive (t : Entries) (path : String) :
    contents (archiveRoute H agent t path).2 =
      (contents t).afterArchive H agent path (archiveRoute H agent t path).1 := by
  unfold archiveRoute Contents.afterArchive
  cases validatePath H.lower path with
  | error e => rfl
  | ok p =>
    cases harchive : archiveEntry t (agent, p) with
    | none => simp only [harchive]
    | some u =>
      simp only [harchive]
      obtain ⟨e, he, -, rfl⟩ := archiveEntry_eq_some harchive
      funext j
      by_cases hj : j = (agent, p)
      · subst hj
        simp [contents, selectEntry]
      · simp [contents, selectEntry, hj]

theorem contents_save (disk : Disk) (t : Entries) (args : Arguments) :
    contents (save H agent disk t args).2 =
      (contents t).afterSave H agent args (save H agent disk t args).1 := by
  have hout := save_outcome H agent disk t args
  generalize save H agent disk t args = r at hout ⊢
  cases hout with
  | @saved k u e hkey hfree hrow hactive hbody hframe =>
    funext j
    simp only [Contents.afterSave, succeeded, hkey]
    by_cases hj : j = k
    · subst hj
      simp [contents, selectEntry, hrow, hactive, hbody]
    · simp [contents, selectEntry, hframe j hj, hj]
  | failed hres => simp only [Contents.afterSave, hres]

theorem save_frame (disk : Disk) (t : Entries) (args : Arguments) (j : Key)
    (h : target H agent args ≠ some j) : (save H agent disk t args).2 j = t j := by
  have hout := save_outcome H agent disk t args
  generalize save H agent disk t args = r at hout ⊢
  cases hout with
  | @saved k u e hkey hfree hrow hactive hbody hframe =>
    exact hframe j fun hj => h (hj ▸ hkey)
  | failed hres => rfl

/-- No save replaces a row. -/
theorem fresh_of_replaces {disk : Disk} {t : Entries} {args : Arguments}
    (h : ∀ k, target H agent args = some k → (t k).isSome →
      succeeded (save H agent disk t args).1 = true) (k : Key)
    (hk : target H agent args = some k) : t k = none := by
  cases hrow : t k with
  | none => rfl
  | some e =>
    have hsucceeded := h k hk (by rw [hrow]; rfl)
    have hout := save_outcome H agent disk t args
    generalize save H agent disk t args = r at hout hsucceeded
    cases hout with
    | @saved k' u e hkey hfree _ _ _ _ =>
      rw [hkey] at hk
      cases hk
      rw [hfree] at hrow
      cases hrow
    | failed hres =>
      rw [hres] at hsucceeded
      cases hsucceeded

theorem behaves_iff_freshSaves (t : Entries) (ops : List Op) :
    Behaves H agent t (contents t) ops ↔ FreshSaves H agent t ops := by
  induction ops generalizing t with
  | nil => exact Iff.rfl
  | cons op ops ih =>
    cases op with
    | save disk args =>
      simp only [Behaves, FreshSaves]
      constructor
      · rintro ⟨hreplaces, -, hrest⟩
        have hfresh := fresh_of_replaces H agent hreplaces
        rw [← contents_save, ih] at hrest
        exact ⟨hfresh, hrest⟩
      · rintro ⟨hfresh, hrest⟩
        refine ⟨?_, save_frame H agent disk t args, ?_⟩
        · intro k hk hrow
          rw [hfresh k hk] at hrow
          cases hrow
        · rw [← contents_save, ih]
          exact hrest
    | archive path =>
      simp only [Behaves, FreshSaves]
      rw [← contents_archive, ih]
    | read path =>
      simp only [Behaves, FreshSaves]
      rw [readEntry_eq_answer, ih]
      simp

/-- An agent with both variables set. -/
def host : Host where
  py := capitalised "A"
  lower s := s
  lib := loader
  env := { akmToken := "token", akmServiceUrl := "http://knowledge:8002" }

def textArguments (path content : String) : Arguments
  | "path" => some (.text path)
  | "content" => some (.text content)
  | _ => none

def oneRow (k : Key) (status : Status) : Entries :=
  Function.update (fun _ => none) k (some ⟨"---\ntitle: A\ntype: note\n---\nold", "A", status, .synced, 0⟩)

/-- A save fails where the path has an entry, be it active or archived. -/
theorem saves_not_behave :
    ¬Behaves host "agent" (oneRow ("agent", "a.md") .active)
        (contents (oneRow ("agent", "a.md") .active))
        [.save (fun _ => true) (textArguments "a.md" "new")] ∧
      ¬Behaves host "agent" (oneRow ("agent", "a.md") .archived)
        (contents (oneRow ("agent", "a.md") .archived))
        [.save (fun _ => true) (textArguments "a.md" "new")] := by
  have htarget : target host "agent" (textArguments "a.md" "new") = some ("agent", "a.md") := rfl
  constructor
  · rintro ⟨hreplaces, -⟩
    exact absurd (fresh_of_replaces host "agent" hreplaces _ htarget) (by simp [oneRow])
  · rintro ⟨hreplaces, -⟩
    exact absurd (fresh_of_replaces host "agent" hreplaces _ htarget) (by simp [oneRow])

end Map

end Hill90.Knowledge.Saving
