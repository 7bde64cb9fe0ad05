import Hill90.Foundation.Fate
import Hill90.Knowledge.Chunker
import Hill90.Knowledge.Shared

/-! # The ingestion of a source

`ingest_source` writes a source and its job, and then, in a `try`, the document, its chunks and the
two states; an exception there is recorded in the job and in the source.
-/

namespace Hill90.Knowledge.Ingest

open Shared Program

structure Request where
  collectionId : ℕ
  title : String
  sourceType : String
  rawContent : String
  sourceUrl : Option String := none
  createdBy : String
  deriving DecidableEq

structure Page where
  content : String
  title : Option String
  deriving DecidableEq

structure Env where
  re : Splitter
  strip : String → String
  sha256 : String → String

/-- Each statement is one transaction, `executemany` too. -/
inductive Statement where
  | createSource (q : Request) (rawContent contentHash : String)
  | createIngestJob (sourceId : ℕ)
  | startJob (jobId : ℕ)
  | fetchAndExtract (url : Option String)
  | createDocument (sourceId jobId : ℕ) (title contentHash : String) (chunkCount : ℕ)
  | generateEmbeddings (texts : List String) (owner : String)
  | insertChunks (documentId : ℕ) (rows : List (Chunk × Option (List ℚ)))
  | setEmbeddingStatus (documentId : ℕ) (status : EmbeddingStatus)
  | completeJob (jobId chunkCount : ℕ)
  | failJob (jobId : ℕ) (message : String)
  | activateSource (sourceId : ℕ)
  | errorSource (sourceId : ℕ) (message : String)
  deriving DecidableEq

def Statement.Rows : Statement → Type
  | createSource _ _ _ | createIngestJob _ | createDocument _ _ _ _ _ => ℕ
  | fetchAndExtract _ => Page
  | generateEmbeddings _ _ => Option (List (List ℚ))
  | startJob _ | insertChunks _ _ | setEmbeddingStatus _ _ | completeJob _ _ | failJob _ _
  | activateSource _ | errorSource _ _ => Unit

structure Answers where
  page : Page := ⟨"", none⟩
  embeddings : Option (List (List ℚ)) := none

inductive Response where
  | completed (source job document chunkCount : ℕ) (status : EmbeddingStatus) (embedded : ℕ)
  | failed (source job : ℕ) (message : String)
  deriving DecidableEq

abbrev Handler (α : Type) := Program Statement Statement.Rows String α

section Tables

variable (t : Store)

def setSource (id : ℕ) (f : Source → Source) : Store :=
  { t with sources := t.sources.map fun r => if r.id = id then f r else r }

def setJob (id : ℕ) (f : Job → Job) : Store :=
  { t with jobs := t.jobs.map fun r => if r.id = id then f r else r }

def setDocument (id : ℕ) (f : Document → Document) : Store :=
  { t with documents := t.documents.map fun r => if r.id = id then f r else r }

def newChunk (documentId id : ℕ) (row : Chunk × Option (List ℚ)) : ChunkRow where
  id := id
  documentId := documentId
  index := row.1.index
  content := .ofList row.1.content
  tokenEstimate := row.1.tokenEstimate
  embedding := row.2

/-- A row that refers to no row is refused. -/
def Statement.run (c : Answers) : (s : Statement) → Except String (s.Rows × Store)
  | .createSource q rawContent contentHash =>
    if t.collections.any fun r => r.id = q.collectionId then
      .ok (t.nextId, { t with
        sources := t.sources ++
          [{ id := t.nextId, collectionId := q.collectionId, title := q.title,
             sourceType := q.sourceType, sourceUrl := q.sourceUrl, rawContent, contentHash,
             createdBy := q.createdBy }]
        nextId := t.nextId + 1 })
    else .error "violates foreign key constraint"
  | .createIngestJob sourceId =>
    if t.sources.any fun r => r.id = sourceId then
      .ok (t.nextId, { t with
        jobs := t.jobs ++ [{ id := t.nextId, sourceId }]
        nextId := t.nextId + 1 })
    else .error "violates foreign key constraint"
  | .startJob jobId => .ok ((), setJob t jobId fun r => { r with status := .running })
  | .fetchAndExtract _ => .ok (c.page, t)
  | .createDocument sourceId jobId title contentHash chunkCount =>
    if t.sources.any fun r => r.id = sourceId then
      .ok (t.nextId, { t with
        documents := t.documents ++
          [{ id := t.nextId, sourceId, jobId, title, contentHash, chunkCount }]
        nextId := t.nextId + 1 })
    else .error "violates foreign key constraint"
  | .generateEmbeddings _ _ => .ok (c.embeddings, t)
  | .insertChunks documentId rows =>
    if t.documents.any fun r => r.id = documentId then
      .ok ((), { t with
        chunks := t.chunks ++ rows.mapIdx fun i row => newChunk documentId (t.nextId + i) row
        nextId := t.nextId + rows.length })
    else .error "violates foreign key constraint"
  | .setEmbeddingStatus documentId status =>
    .ok ((), setDocument t documentId fun r => { r with embeddingStatus := status })
  | .completeJob jobId chunkCount =>
    .ok ((), setJob t jobId fun r => { r with status := .completed, chunkCount })
  | .failJob jobId message =>
    .ok ((), setJob t jobId fun r => { r with status := .failed, errorMessage := some message })
  | .activateSource sourceId =>
    .ok ((), setSource t sourceId fun r => { r with status := .active, errorMessage := none })
  | .errorSource sourceId message =>
    .ok ((), setSource t sourceId fun r => { r with status := .error, errorMessage := some message })

end Tables

section Source

variable (env : Env) (q : Request)

def validate : Except String (String × String) :=
  if q.sourceType ∉ ["text", "markdown", "web_page"] then
    .error ("unsupported source_type: " ++ q.sourceType)
  else if q.sourceType = "web_page" then
    if q.sourceUrl.all fun url => env.strip url = "" then
      .error "source_url is required for web_page sources"
    else .ok ("", "")
  else if env.strip q.rawContent = "" then
    .error "content is required for text/markdown sources"
  else if q.rawContent.utf8ByteSize > maxSourceSize then
    .error "content exceeds maximum size of 100KB"
  else .ok (q.rawContent, env.sha256 q.rawContent)

structure Content where
  title : String
  raw : String
  hash : String

def fetchContent : Handler Content :=
  if q.sourceType = "web_page" then do
    let page : Page ← query (Statement.fetchAndExtract q.sourceUrl)
    let title := if q.title = "" ∨ some (env.strip q.title) = q.sourceUrl then
        page.title.getD q.title
      else q.title
    if page.content.utf8ByteSize > maxSourceSize then
      throw "extracted content exceeds maximum size of 100KB"
    else pure ⟨title, page.content, env.sha256 page.content⟩
  else pure ⟨q.title, q.rawContent, env.sha256 q.rawContent⟩

def chunksOf (raw : String) : List Chunk :=
  if q.sourceType = "markdown" then chunkMarkdown env.re raw.toList else chunkText env.re raw.toList

def withVectors (chunks : List Chunk) (vectors : List (List ℚ)) : List (Chunk × Option (List ℚ)) :=
  (chunks.zip vectors).map fun p => (p.1, some p.2)

def withoutVectors (chunks : List Chunk) (vectors : List (List ℚ)) :
    List (Chunk × Option (List ℚ)) :=
  (chunks.drop vectors.length).map fun c => (c, none)

def insertChunks (documentId : ℕ) (rows : List (Chunk × Option (List ℚ))) : Handler Unit :=
  if rows = [] then pure () else query (Statement.insertChunks documentId rows)

def createChunks (documentId : ℕ) (chunks : List Chunk) (vectors : List (List ℚ)) :
    Handler (ℕ × ℕ) := do
  insertChunks documentId (withVectors chunks vectors)
  insertChunks documentId (withoutVectors chunks vectors)
  pure (chunks.length, (withVectors chunks vectors).length)

def embeddingStatusFor (total embedded : ℕ) : EmbeddingStatus :=
  if embedded ≥ total then .embedded else if embedded = 0 then .pending else .part

/-- The part of `ingest_source` in its `try`. -/
def process (source job : ℕ) : Handler Response := do
  let _ : Unit ← query (Statement.startJob job)
  let content ← fetchContent env q
  let chunks := chunksOf env q content.raw
  if chunks = [] then throw "content produced zero chunks after processing"
  else do
    let document : ℕ ← query
      (Statement.createDocument source job content.title content.hash chunks.length)
    let embeddings : Option (List (List ℚ)) ← query
      (Statement.generateEmbeddings (chunks.map fun c => .ofList c.content) q.createdBy)
    let counts ← createChunks document chunks (embeddings.getD [])
    let status := embeddingStatusFor counts.1 counts.2
    let _ : Unit ← query (Statement.setEmbeddingStatus document status)
    let _ : Unit ← query (Statement.completeJob job chunks.length)
    let _ : Unit ← query (Statement.activateSource source)
    pure (.completed source job document chunks.length status counts.2)

def recordFailure (source job : ℕ) (message : String) : Handler Response := do
  tryCatch (query (Statement.failJob job message) : Handler Unit) fun _ => pure ()
  tryCatch (query (Statement.errorSource source message) : Handler Unit) fun _ => pure ()
  pure (.failed source job message)

def ingestSource : Handler Response :=
  match validate env q with
  | .error message => throw message
  | .ok (rawContent, contentHash) => do
    let source : ℕ ← query (Statement.createSource q rawContent contentHash)
    let job : ℕ ← query (Statement.createIngestJob source)
    tryCatch (process env q source job) (recordFailure source job)

end Source

section Definitions

structure Wf (t : Store) : Prop where
  sources : ∀ r ∈ t.sources, r.id < t.nextId
  jobs : ∀ r ∈ t.jobs, r.sourceId < t.nextId
  documents : ∀ r ∈ t.documents, r.sourceId < t.nextId
  documentIds : ∀ r ∈ t.documents, r.id < t.nextId
  chunks : ∀ r ∈ t.chunks, r.documentId < t.nextId

structure Complete (t : Store) (sourceId : ℕ) : Prop where
  document : ∃ d ∈ t.documents, d.sourceId = sourceId
  chunks : ∀ d ∈ t.documents, d.sourceId = sourceId →
    ((t.chunks.filter fun c => c.documentId = d.id).map ChunkRow.index) = List.range d.chunkCount
  job : ∃ j ∈ t.jobs, j.sourceId = sourceId
  jobs : ∀ j ∈ t.jobs, j.sourceId = sourceId → j.status = .completed

structure Failed (t : Store) (r : Source) : Prop where
  status : r.status = .error
  job : ∃ j ∈ t.jobs, j.sourceId = r.id
  jobs : ∀ j ∈ t.jobs, j.sourceId = r.id → j.status = .failed
  hidden : ∀ h, Returned t h → h.source.id ≠ r.id

/-- A source may be marked active where it is complete. -/
def marks (t : Store) : Statement → Prop
  | .activateSource sourceId => Complete t sourceId
  | _ => True

/-- Every mark is right, and the source that a run creates is active and complete or failed. -/
structure Consistent (env : Env) (fate : Statement → Outcome Answers String) (q : Request)
    (t : Store) : Prop where
  marked : Upholds Statement.run fate marks (ingestSource env q) (fun _ _ => True)
    (fun _ _ => True) t
  settled : ∀ r ∈ ((ingestSource env q).against Statement.run fate t).2.sources, r ∉ t.sources →
    r.status = .active ∧ Complete ((ingestSource env q).against Statement.run fate t).2 r.id ∨
      Failed ((ingestSource env q).against Statement.run fate t).2 r

def Reachable (fate : Statement → Outcome Answers String) : Prop :=
  ∀ id message, (fate (.failJob id message)).isAnswered = true ∧
    (fate (.errorSource id message)).isAnswered = true

/-- The request is refused, or its collection is gone, or the source is not created, or it and its
job are and the answers arrive. -/
def Recorded (env : Env) (fate : Statement → Outcome Answers String) (q : Request) (t : Store) :
    Prop :=
  ∀ rawContent contentHash, validate env q = .ok (rawContent, contentHash) →
    (t.collections.any fun r => r.id = q.collectionId) = true →
    (fate (.createSource q rawContent contentHash)).takesEffect = true →
    (fate (.createSource q rawContent contentHash)).isAnswered = true ∧
      (fate (.createIngestJob t.nextId)).isAnswered = true

end Definitions

section Statements

variable {fate : Statement → Outcome Answers String} {t u u' : Store} {c : Answers} {st : Statement}
  {sid jid : ℕ}

def Statement.Of (sid jid : ℕ) : Statement → Prop
  | createSource _ _ _ | createIngestJob _ => False
  | startJob id | completeJob id _ | failJob id _ => id = jid
  | createDocument source job _ _ _ => source = sid ∧ job = jid
  | activateSource id | errorSource id _ => id = sid
  | fetchAndExtract _ | generateEmbeddings _ _ | insertChunks _ _ | setEmbeddingStatus _ _ => True

/-- What they keep: the other sources are those of before, and the job is the only one. -/
structure Kept (t : Store) (sid jid : ℕ) (u : Store) : Prop where
  others : ∀ r ∈ u.sources, r.id = sid ∨ r ∈ t.sources
  job : ∃ j ∈ u.jobs, j.sourceId = sid
  jobs : ∀ j ∈ u.jobs, j.sourceId = sid → j.id = jid
  documents : ∀ r ∈ u.documents, r.id < u.nextId
  chunks : ∀ r ∈ u.chunks, r.documentId < u.nextId

theorem Kept.setJob (h : Kept t sid jid u) {f : Job → Job} (id : ℕ)
    (hf : ∀ j, (f j).id = j.id ∧ (f j).sourceId = j.sourceId) : Kept t sid jid (setJob u id f) := by
  have hsame : ∀ j : Job, (if j.id = id then f j else j).id = j.id ∧
      (if j.id = id then f j else j).sourceId = j.sourceId := by
    intro j
    split
    · exact hf j
    · exact ⟨rfl, rfl⟩
  constructor
  · exact h.others
  · obtain ⟨j, hj, hsource⟩ := h.job
    exact ⟨_, List.mem_map_of_mem hj, (hsame j).2.trans hsource⟩
  · intro j hj hsource
    obtain ⟨j', hj', rfl⟩ := List.mem_map.mp hj
    rw [(hsame j').2] at hsource
    exact (hsame j').1.trans (h.jobs j' hj' hsource)
  · exact h.documents
  · exact h.chunks

theorem Kept.setSource (h : Kept t sid jid u) {f : Source → Source} (hf : ∀ r, (f r).id = r.id) :
    Kept t sid jid (setSource u sid f) := by
  constructor
  · intro r hr
    obtain ⟨r', hr', rfl⟩ := List.mem_map.mp hr
    split
    · rename_i hid
      exact .inl ((hf r').trans hid)
    · exact h.others r' hr'
  · exact h.job
  · exact h.jobs
  · exact h.documents
  · exact h.chunks

theorem kept_run (h : Kept t sid jid u) {rows : st.Rows} (hrun : st.run u c = .ok (rows, u'))
    (hof : st.Of sid jid) : Kept t sid jid u' := by
  cases st with
  | createSource q rawContent contentHash => cases hof
  | createIngestJob id => cases hof
  | startJob id =>
    cases hrun
    exact h.setJob id fun j => ⟨rfl, rfl⟩
  | fetchAndExtract url =>
    cases hrun
    exact h
  | createDocument source job title hash count =>
    simp only [Statement.run] at hrun
    split at hrun
    · cases hrun
      constructor
      · exact h.others
      · exact h.job
      · exact h.jobs
      · intro r hr
        obtain hr | hr := List.mem_append.mp hr
        · exact Nat.lt_succ_of_lt (h.documents r hr)
        · rw [List.mem_singleton.mp hr]
          exact Nat.lt_succ_self _
      · intro r hr
        exact Nat.lt_succ_of_lt (h.chunks r hr)
    · cases hrun
  | generateEmbeddings texts owner =>
    cases hrun
    exact h
  | insertChunks id rows =>
    simp only [Statement.run] at hrun
    split at hrun
    · rename_i hfound
      cases hrun
      obtain ⟨d, hd, hid⟩ := List.any_eq_true.mp hfound
      have hlt := h.documents d hd
      simp only [decide_eq_true_eq] at hid
      constructor
      · exact h.others
      · exact h.job
      · exact h.jobs
      · intro r hr
        exact Nat.lt_add_right _ (h.documents r hr)
      · intro r hr
        obtain hr | hr := List.mem_append.mp hr
        · exact Nat.lt_add_right _ (h.chunks r hr)
        · obtain ⟨i, hi, rfl⟩ := List.mem_mapIdx.mp hr
          change id < u.nextId + rows.length
          omega
    · cases hrun
  | setEmbeddingStatus id status =>
    cases hrun
    constructor
    · exact h.others
    · exact h.job
    · exact h.jobs
    · intro r hr
      obtain ⟨r', hr', rfl⟩ := List.mem_map.mp hr
      have hlt := h.documents r' hr'
      split <;> exact hlt
    · exact h.chunks
  | completeJob id count =>
    cases hrun
    exact h.setJob id fun j => ⟨rfl, rfl⟩
  | failJob id message =>
    cases hrun
    exact h.setJob id fun j => ⟨rfl, rfl⟩
  | activateSource id =>
    cases hof
    cases hrun
    exact h.setSource fun r => rfl
  | errorSource id message =>
    cases hof
    cases hrun
    exact h.setSource fun r => rfl

theorem kept_settle {e : String} (h : Kept t sid jid u)
    (hsettle : (fate st).settle Statement.run u st = (.error e, u')) (hof : st.Of sid jid) :
    Kept t sid jid u' := by
  obtain rfl | ⟨c, rows, hrun⟩ := Outcome.settle_error hsettle
  · exact h
  · exact kept_run h hrun hof

/-- Whatever becomes of a statement of the run, it keeps the rows; the rest goes on where it ran. -/
theorem upholds_statement (st : Statement) {β : Type} {f : st.Rows → Handler β}
    {Q : β → Store → Prop} (h : Kept t sid jid u) (hof : st.Of sid jid) (hmarks : marks u st)
    (hok : ∀ c rows v, st.run u c = .ok (rows, v) → Kept t sid jid v →
      Upholds Statement.run fate marks (f rows) Q (fun _ v => Kept t sid jid v) v) :
    Upholds Statement.run fate marks (query st >>= f) Q (fun _ v => Kept t sid jid v) u := by
  apply upholds_ask hmarks
  · intro rows v hsettle
    obtain ⟨c, -, hrun⟩ := Outcome.settle_ok hsettle
    exact hok c rows v hrun (kept_run h hrun hof)
  · intro e v hsettle
    exact kept_settle h hsettle hof

/-- The only document of the source, and the indexes of its chunks. -/
structure Filled (sid : ℕ) (u : Store) (d n : ℕ) (indexes : List ℕ) : Prop where
  document : ∃ r ∈ u.documents, r.sourceId = sid
  only : ∀ r ∈ u.documents, r.sourceId = sid → r.id = d ∧ r.chunkCount = n
  chunks : (u.chunks.filter fun r => r.documentId = d).map ChunkRow.index = indexes

variable {d n : ℕ} {indexes : List ℕ}

theorem Filled.congr (h : Filled sid u d n indexes) (hdocuments : u'.documents = u.documents)
    (hchunks : u'.chunks = u.chunks) : Filled sid u' d n indexes := by
  constructor
  · rw [hdocuments]
    exact h.document
  · rw [hdocuments]
    exact h.only
  · rw [hchunks]
    exact h.chunks

theorem filled_createDocument (h : Kept t sid jid u) (hnone : ∀ r ∈ u.documents, r.sourceId ≠ sid)
    {title hash : String} {rows : ℕ}
    (hrun : Statement.run u c (.createDocument sid jid title hash n) = .ok (rows, u')) :
    Filled sid u' rows n [] := by
  simp only [Statement.run] at hrun
  split at hrun
  · cases hrun
    constructor
    · exact ⟨_, List.mem_append_right _ (List.mem_singleton_self _), rfl⟩
    · intro r hr hsource
      obtain hr | hr := List.mem_append.mp hr
      · exact (hnone r hr hsource).elim
      · rw [List.mem_singleton.mp hr]
        exact ⟨rfl, rfl⟩
    · simp only [List.map_eq_nil_iff, List.filter_eq_nil_iff, decide_eq_true_eq]
      intro r hr
      have hlt := h.chunks r hr
      omega
  · cases hrun

theorem filled_insertChunks (h : Filled sid u d n indexes)
    {rows : List (Chunk × Option (List ℚ))} {x : Unit}
    (hrun : Statement.run u c (.insertChunks d rows) = .ok (x, u')) :
    Filled sid u' d n (indexes ++ rows.map fun row => row.1.index) := by
  simp only [Statement.run] at hrun
  split at hrun
  · cases hrun
    constructor
    · exact h.document
    · exact h.only
    · have hnew : (rows.mapIdx fun i row => newChunk d (u.nextId + i) row).filter
          (fun r => r.documentId = d) = rows.mapIdx fun i row => newChunk d (u.nextId + i) row := by
        rw [List.filter_eq_self]
        intro r hr
        obtain ⟨i, hi, rfl⟩ := List.mem_mapIdx.mp hr
        simp [newChunk]
      have hindexes : (rows.mapIdx fun i row => newChunk d (u.nextId + i) row).map ChunkRow.index =
          rows.map fun row => row.1.index := by
        apply List.ext_getElem
        · simp
        · intro i hi hi'
          simp [newChunk]
      rw [List.filter_append, List.map_append, h.chunks, hnew, hindexes]
  · cases hrun

theorem filled_setDocument (h : Filled sid u d n indexes) (id : ℕ) {f : Document → Document}
    (hf : ∀ r, (f r).id = r.id ∧ (f r).sourceId = r.sourceId ∧ (f r).chunkCount = r.chunkCount) :
    Filled sid (setDocument u id f) d n indexes := by
  have hsame : ∀ r : Document, (if r.id = id then f r else r).id = r.id ∧
      (if r.id = id then f r else r).sourceId = r.sourceId ∧
      (if r.id = id then f r else r).chunkCount = r.chunkCount := by
    intro r
    split
    · exact hf r
    · exact ⟨rfl, rfl, rfl⟩
  constructor
  · obtain ⟨r, hr, hsource⟩ := h.document
    exact ⟨_, List.mem_map_of_mem hr, (hsame r).2.1.trans hsource⟩
  · intro r hr hsource
    obtain ⟨r', hr', rfl⟩ := List.mem_map.mp hr
    rw [(hsame r').2.1] at hsource
    rw [(hsame r').1, (hsame r').2.2]
    exact h.only r' hr' hsource
  · exact h.chunks

theorem Kept.complete (hkept : Kept t sid jid u) (h : Filled sid u d n (List.range n))
    (hjobs : ∀ j ∈ u.jobs, j.id = jid → j.status = .completed) : Complete u sid := by
  constructor
  · exact h.document
  · intro r hr hsource
    obtain ⟨hid, hcount⟩ := h.only r hr hsource
    rw [hid, hcount]
    exact h.chunks
  · exact hkept.job
  · intro j hj hsource
    exact hjobs j hj (hkept.jobs j hj hsource)

end Statements

section Process

variable {env : Env} {fate : Statement → Outcome Answers String} {q : Request} {t u : Store}
  {sid jid d n : ℕ} {indexes : List ℕ}

theorem upholds_fetchContent (h : Kept t sid jid u) :
    Upholds Statement.run fate marks (fetchContent env q) (fun _ v => v = u)
      (fun _ v => Kept t sid jid v) u := by
  unfold fetchContent
  apply upholds_ite
  · intro _
    apply upholds_ask trivial
    · intro page v hsettle
      obtain ⟨c, -, hrun⟩ := Outcome.settle_ok hsettle
      cases hrun
      apply upholds_ite
      · intro _
        exact h
      · intro _
        rfl
    · intro e v hsettle
      exact kept_settle h hsettle trivial
  · intro _
    rfl

theorem upholds_insertChunks (h : Kept t sid jid u) (hfilled : Filled sid u d n indexes)
    (rows : List (Chunk × Option (List ℚ))) :
    Upholds Statement.run fate marks (insertChunks d rows)
      (fun _ v => Kept t sid jid v ∧ Filled sid v d n (indexes ++ rows.map fun row => row.1.index))
      (fun _ v => Kept t sid jid v) u := by
  unfold insertChunks
  apply upholds_ite
  · intro hnil
    rw [hnil]
    exact ⟨h, by simpa using hfilled⟩
  · intro _
    apply upholds_query trivial
    · intro x v hsettle
      obtain ⟨c, -, hrun⟩ := Outcome.settle_ok hsettle
      exact ⟨kept_run h hrun trivial, filled_insertChunks hfilled hrun⟩
    · intro e v hsettle
      exact kept_settle h hsettle trivial

theorem indexes_vectors (chunks : List Chunk) (vectors : List (List ℚ)) :
    (withVectors chunks vectors).map (fun row => row.1.index) ++
      (withoutVectors chunks vectors).map (fun row => row.1.index) = chunks.map Chunk.index := by
  induction chunks generalizing vectors with
  | nil => simp [withVectors, withoutVectors]
  | cons chunk chunks ih =>
    cases vectors with
    | nil => simp [withVectors, withoutVectors]
    | cons vector vectors =>
      have hrest := ih vectors
      simp only [withVectors, withoutVectors, List.map_map] at hrest
      simpa [withVectors, withoutVectors] using hrest

theorem upholds_createChunks {chunks : List Chunk} (h : Kept t sid jid u)
    (hfilled : Filled sid u d n []) (vectors : List (List ℚ)) :
    Upholds Statement.run fate marks (createChunks d chunks vectors)
      (fun _ v => Kept t sid jid v ∧ Filled sid v d n (chunks.map Chunk.index))
      (fun _ v => Kept t sid jid v) u := by
  unfold createChunks
  rw [upholds_bind]
  apply (upholds_insertChunks h hfilled (withVectors chunks vectors)).mono _ fun e v hv => hv
  rintro x v ⟨hv, hfilledv⟩
  rw [upholds_bind]
  apply (upholds_insertChunks hv hfilledv (withoutVectors chunks vectors)).mono _ fun e w hw => hw
  rintro y w ⟨hw, hfilledw⟩
  rw [List.nil_append, indexes_vectors] at hfilledw
  exact ⟨hw, hfilledw⟩

theorem indexed_chunksOf (raw : String) : Indexed (chunksOf env q raw) := by
  unfold chunksOf
  split
  · exact indexed_mergeParagraphs _
  · exact indexed_mergeParagraphs _

theorem status_setJob {f : Job → Job} {status : JobStatus} (hstatus : ∀ j, (f j).status = status) :
    ∀ j ∈ (setJob u jid f).jobs, j.id = jid → j.status = status := by
  intro j hj hid
  obtain ⟨j', hj', rfl⟩ := List.mem_map.mp hj
  split
  · exact hstatus j'
  · rename_i hne
    rw [if_neg hne] at hid
    exact (hne hid).elim

theorem status_setSource {f : Source → Source} {status : SourceStatus}
    (hstatus : ∀ r, (f r).status = status) :
    ∀ r ∈ (setSource u sid f).sources, r.id = sid → r.status = status := by
  intro r hr hid
  obtain ⟨r', hr', rfl⟩ := List.mem_map.mp hr
  split
  · exact hstatus r'
  · rename_i hne
    rw [if_neg hne] at hid
    exact (hne hid).elim

/-- The statements of the `try` keep the rows of the run, and the last leaves the source active. -/
theorem upholds_process (h : Kept t sid jid u) (hnone : ∀ r ∈ u.documents, r.sourceId ≠ sid) :
    Upholds Statement.run fate marks (process env q sid jid)
      (fun _ v => Kept t sid jid v ∧ Complete v sid ∧ ∀ r ∈ v.sources, r.id = sid → r.status = .active)
      (fun _ v => Kept t sid jid v) u := by
  unfold process
  apply upholds_statement (.startJob jid) h rfl trivial
  intro c x u1 hrun h1
  cases hrun
  rw [upholds_bind]
  apply (upholds_fetchContent h1).mono _ fun e v hv => hv
  rintro content v rfl
  generalize hchunks : chunksOf env q content.raw = chunks
  apply upholds_ite
  · intro _
    exact h1
  intro _
  apply upholds_statement (.createDocument ..) h1 ⟨rfl, rfl⟩ trivial
  intro c d u2 hrun h2
  have hfilled2 := filled_createDocument h1 hnone hrun
  apply upholds_statement (.generateEmbeddings ..) h2 trivial trivial
  intro c embeddings u3 hrun h3
  cases hrun
  rw [upholds_bind]
  apply (upholds_createChunks h2 hfilled2 (c.embeddings.getD [])).mono _ fun e v hv => hv
  rintro counts u4 ⟨h4, hfilled4⟩
  apply upholds_statement (.setEmbeddingStatus ..) h4 trivial trivial
  intro c x u5 hrun h5
  cases hrun
  have hfilled5 := filled_setDocument hfilled4 d
    (f := fun r => { r with embeddingStatus := embeddingStatusFor counts.1 counts.2 })
    fun r => ⟨rfl, rfl, rfl⟩
  apply upholds_statement (.completeJob ..) h5 rfl trivial
  intro c x u6 hrun h6
  cases hrun
  have hindexed : chunks.map Chunk.index = List.range chunks.length := by
    rw [← hchunks]
    exact indexed_chunksOf _
  rw [hindexed] at hfilled5
  have hcomplete := h6.complete (hfilled5.congr rfl rfl) (status_setJob fun j => rfl)
  apply upholds_statement (.activateSource sid) h6 rfl hcomplete
  intro c x u7 hrun h7
  cases hrun
  refine ⟨h7, ⟨hcomplete.document, hcomplete.chunks, hcomplete.job, hcomplete.jobs⟩, ?_⟩
  exact status_setSource fun r => rfl

theorem settle_of_isAnswered {st : Statement} {rows : st.Rows} {v : Store}
    (hanswered : (fate st).isAnswered = true) (hrun : ∀ c, st.run u c = .ok (rows, v)) :
    (fate st).settle Statement.run u st = (.ok rows, v) := by
  cases hfate : fate st with
  | answered c => simp only [Outcome.settle, hrun]
  | failed e =>
    rw [hfate] at hanswered
    cases hanswered
  | lost c e =>
    rw [hfate] at hanswered
    cases hanswered

theorem upholds_recordFailure (h : Kept t sid jid u) (hreach : Reachable fate) (message : String) :
    Upholds Statement.run fate marks (recordFailure sid jid message)
      (fun _ v => Kept t sid jid v ∧ (∀ j ∈ v.jobs, j.id = jid → j.status = .failed) ∧
        ∀ r ∈ v.sources, r.id = sid → r.status = .error) (fun _ _ => False) u := by
  have hjob := settle_of_isAnswered (u := u) (hreach jid message).1 fun c => rfl
  have h1 := h.setJob (f := fun r => { r with status := .failed, errorMessage := some message }) jid
    fun j => ⟨rfl, rfl⟩
  have hfailed : ∀ j ∈ (setJob u jid fun r =>
      { r with status := .failed, errorMessage := some message }).jobs,
      j.id = jid → j.status = .failed := status_setJob fun j => rfl
  generalize hu1 : setJob u jid (fun r => { r with status := .failed, errorMessage := some message }) =
    u1 at h1 hjob hfailed
  have hsource := settle_of_isAnswered (u := u1) (hreach sid message).2 fun c => rfl
  unfold recordFailure
  rw [upholds_bind]
  refine (upholds_tryCatch _ _).mpr ?_
  have hfail : marks u (.failJob jid message) := trivial
  apply upholds_query hfail
  · intro x v hsettle
    cases hjob.symm.trans hsettle
    rw [upholds_bind]
    refine (upholds_tryCatch _ _).mpr ?_
    have herror : marks u1 (.errorSource sid message) := trivial
    apply upholds_query herror
    · intro x v hsettle
      cases hsource.symm.trans hsettle
      exact ⟨h1.setSource fun r => rfl, hfailed, status_setSource fun r => rfl⟩
    · intro e v hsettle
      cases hsource.symm.trans hsettle
  · intro e v hsettle
    cases hjob.symm.trans hsettle

end Process

section Consistent

variable {env : Env} {fate : Statement → Outcome Answers String} {q : Request} {t u : Store}
  {sid jid : ℕ}

def Settled (t u : Store) : Prop :=
  ∀ r ∈ u.sources, r ∉ t.sources → r.status = .active ∧ Complete u r.id ∨ Failed u r

theorem settled_self (t : Store) : Settled t t := fun _ hr hnew => (hnew hr).elim

theorem Kept.settled_active (h : Kept t sid jid u) (hcomplete : Complete u sid)
    (hactive : ∀ r ∈ u.sources, r.id = sid → r.status = .active) : Settled t u := by
  intro r hr hnew
  obtain hid | hold := h.others r hr
  · rw [hid]
    exact .inl ⟨hactive r hr hid, hcomplete⟩
  · exact (hnew hold).elim

theorem Kept.settled_failed (h : Kept t sid jid u)
    (hjobs : ∀ j ∈ u.jobs, j.id = jid → j.status = .failed)
    (herror : ∀ r ∈ u.sources, r.id = sid → r.status = .error) : Settled t u := by
  intro r hr hnew
  obtain hid | hold := h.others r hr
  · right
    constructor
    · exact herror r hr hid
    · rw [hid]
      exact h.job
    · intro j hj hsource
      rw [hid] at hsource
      exact hjobs j hj (h.jobs j hj hsource)
    · intro x hx hsource
      obtain ⟨hhit, hactive⟩ := hx.active
      have hstatus := herror x.source (mem_hits.mp hhit).2.2.1 (hsource.trans hid)
      rw [hactive] at hstatus
      cases hstatus
  · exact (hnew hold).elim

def created (t : Store) (r : Source) (j : Job) : Store :=
  { t with sources := t.sources ++ [r], jobs := t.jobs ++ [j], nextId := t.nextId + 1 + 1 }

theorem kept_created (hwf : Wf t) {r : Source} {j : Job} (hr : r.id = t.nextId)
    (hj : j.sourceId = t.nextId) : Kept t t.nextId j.id (created t r j) := by
  constructor
  · intro r' hr'
    obtain hold | hnew := List.mem_append.mp hr'
    · exact .inr hold
    · rw [List.mem_singleton.mp hnew]
      exact .inl hr
  · exact ⟨j, List.mem_append_right _ (List.mem_singleton_self _), hj⟩
  · intro j' hj' hsource
    obtain hold | hnew := List.mem_append.mp hj'
    · have hlt := hwf.jobs j' hold
      omega
    · rw [List.mem_singleton.mp hnew]
  · intro d hd
    have hlt := hwf.documentIds d hd
    change d.id < t.nextId + 1 + 1
    omega
  · intro c hc
    have hlt := hwf.chunks c hc
    change c.documentId < t.nextId + 1 + 1
    omega

def sourceOf (t : Store) (q : Request) (rawContent contentHash : String) : Source where
  id := t.nextId
  collectionId := q.collectionId
  title := q.title
  sourceType := q.sourceType
  sourceUrl := q.sourceUrl
  rawContent := rawContent
  contentHash := contentHash
  createdBy := q.createdBy

def withSource (t : Store) (r : Source) : Store :=
  { t with sources := t.sources ++ [r], nextId := t.nextId + 1 }

theorem run_createSource {c : Answers} {rawContent contentHash : String}
    (hcollection : (t.collections.any fun r => r.id = q.collectionId) = true) :
    Statement.run t c (.createSource q rawContent contentHash) =
      .ok (t.nextId, withSource t (sourceOf t q rawContent contentHash)) := by
  simp only [Statement.run, hcollection, if_true]
  rfl

theorem run_createIngestJob {c : Answers} {r : Source} (hr : r.id = t.nextId) :
    Statement.run (withSource t r) c (.createIngestJob t.nextId) =
      .ok (t.nextId + 1, created t r { id := t.nextId + 1, sourceId := t.nextId }) := by
  have hany : ((withSource t r).sources.any fun r => r.id = t.nextId) = true := by
    rw [List.any_eq_true]
    exact ⟨r, List.mem_append_right _ (List.mem_singleton_self _), by simpa using hr⟩
  simp only [Statement.run, hany, if_true]
  rfl

theorem upholds_ingest (hwf : Wf t) (hreach : Reachable fate) (hrecorded : Recorded env fate q t) :
    Upholds Statement.run fate marks (ingestSource env q) (fun _ v => Settled t v)
      (fun _ v => Settled t v) t := by
  unfold ingestSource
  split
  · exact settled_self t
  rename_i raw hash hvalid
  cases hcollection : t.collections.any fun r => r.id = q.collectionId with
  | false =>
    have hrun : ∀ c, Statement.run t c (.createSource q raw hash) =
        .error "violates foreign key constraint" := by
      intro c
      simp [Statement.run, hcollection]
    apply upholds_ask trivial
    · intro x v hsettle
      obtain ⟨c, -, hok⟩ := Outcome.settle_ok hsettle
      cases (hrun c).symm.trans hok
    · intro e v hsettle
      obtain rfl | ⟨c, x, hok⟩ := Outcome.settle_error hsettle
      · exact settled_self v
      · cases (hrun c).symm.trans hok
  | true =>
    cases heffect : (fate (.createSource q raw hash)).takesEffect with
    | false =>
      cases hfate : fate (.createSource q raw hash) with
      | answered c =>
        rw [hfate] at heffect
        cases heffect
      | lost c e =>
        rw [hfate] at heffect
        cases heffect
      | failed e =>
        apply upholds_ask trivial
        · intro x v hsettle
          rw [hfate] at hsettle
          cases hsettle
        · intro e' v hsettle
          rw [hfate] at hsettle
          cases hsettle
          exact settled_self t
    | true =>
      obtain ⟨hsource, hjob⟩ := hrecorded raw hash hvalid hcollection heffect
      have hsettle1 := settle_of_isAnswered (u := t) hsource fun c => run_createSource hcollection
      have hsettle2 := settle_of_isAnswered (u := withSource t (sourceOf t q raw hash)) hjob
        fun c => run_createIngestJob (r := sourceOf t q raw hash) rfl
      apply upholds_ask trivial
      rotate_left
      · intro e v hsettle
        cases hsettle1.symm.trans hsettle
      intro x v hsettle
      cases hsettle1.symm.trans hsettle
      apply upholds_ask trivial
      rotate_left
      · intro e v hsettle
        cases hsettle2.symm.trans hsettle
      intro y v hsettle
      cases hsettle2.symm.trans hsettle
      have hkept := kept_created hwf (r := sourceOf t q raw hash)
        (j := { id := t.nextId + 1, sourceId := t.nextId }) rfl rfl
      have hnone : ∀ d ∈ (created t (sourceOf t q raw hash)
          { id := t.nextId + 1, sourceId := t.nextId }).documents, d.sourceId ≠ t.nextId := by
        intro d hd
        have hlt := hwf.documents d hd
        omega
      refine (upholds_tryCatch _ _).mpr ?_
      apply (upholds_process hkept hnone).mono
      · rintro a v ⟨hv, hcomplete, hactive⟩
        exact hv.settled_active hcomplete hactive
      · intro e v hv
        apply (upholds_recordFailure hv hreach e).mono
        · rintro a w ⟨hw, hjobs, herror⟩
          exact hw.settled_failed hjobs herror
        · rintro e' w ⟨⟩

theorem not_settled (hwf : Wf t) {raw hash : String} (hmem : sourceOf t q raw hash ∈ u.sources) :
    ¬Settled t u := by
  intro h
  have hnew : sourceOf t q raw hash ∉ t.sources := by
    intro hold
    have hlt := hwf.sources _ hold
    exact Nat.lt_irrefl _ hlt
  obtain ⟨hactive, -⟩ | hfailed := h _ hmem hnew
  · cases hactive
  · cases hfailed.status

/-- A source that is created and whose job is not, or not heard of, stays pending. -/
theorem against_unrecorded {raw hash : String} (hvalid : validate env q = .ok (raw, hash))
    (hcollection : (t.collections.any fun r => r.id = q.collectionId) = true)
    (heffect : (fate (.createSource q raw hash)).takesEffect = true)
    (hunheard : (fate (.createSource q raw hash)).isAnswered = false ∨
      (fate (.createIngestJob t.nextId)).isAnswered = false) :
    ∃ e u, (ingestSource env q).against Statement.run fate t = (.error e, u) ∧
      sourceOf t q raw hash ∈ u.sources := by
  have hmem : sourceOf t q raw hash ∈ t.sources ++ [sourceOf t q raw hash] :=
    List.mem_append_right _ (List.mem_singleton_self _)
  unfold ingestSource
  rw [hvalid]
  cases hsource : fate (.createSource q raw hash) with
  | failed e =>
    rw [hsource] at heffect
    cases heffect
  | lost c e =>
    refine ⟨e, withSource t (sourceOf t q raw hash), ?_, hmem⟩
    apply against_ask_error (s := Statement.createSource q raw hash)
    simp only [hsource, Outcome.settle, run_createSource hcollection]
  | answered c =>
    have hsettle : (fate (.createSource q raw hash)).settle Statement.run t (.createSource q raw hash) =
        (.ok t.nextId, withSource t (sourceOf t q raw hash)) := by
      simp only [hsource, Outcome.settle, run_createSource hcollection]
    rw [hsource] at hunheard
    cases hjob : fate (.createIngestJob t.nextId) with
    | answered c' =>
      rw [hjob] at hunheard
      obtain hunheard | hunheard := hunheard <;> cases hunheard
    | failed e =>
      refine ⟨e, withSource t (sourceOf t q raw hash), ?_, hmem⟩
      apply (against_ask_ok (s := Statement.createSource q raw hash) hsettle).trans
      apply against_ask_error (s := Statement.createIngestJob t.nextId)
      simp only [hjob, Outcome.settle]
    | lost c' e =>
      refine ⟨e, created t (sourceOf t q raw hash) { id := t.nextId + 1, sourceId := t.nextId }, ?_,
        hmem⟩
      apply (against_ask_ok (s := Statement.createSource q raw hash) hsettle).trans
      apply against_ask_error (s := Statement.createIngestJob t.nextId)
      simp only [hjob, Outcome.settle, run_createIngestJob (r := sourceOf t q raw hash) rfl]

theorem recorded_of_settled (hwf : Wf t)
    (h : Settled t ((ingestSource env q).against Statement.run fate t).2) :
    Recorded env fate q t := by
  intro raw hash hvalid hcollection heffect
  by_contra hunheard
  simp only [not_and_or, Bool.not_eq_true] at hunheard
  obtain ⟨e, u, hagainst, hmem⟩ := against_unrecorded hvalid hcollection heffect hunheard
  rw [hagainst] at h
  exact not_settled hwf hmem h

theorem consistent_iff_recorded (hwf : Wf t) (hreach : Reachable fate) :
    Consistent env fate q t ↔ Recorded env fate q t := by
  constructor
  · intro h
    exact recorded_of_settled hwf h.settled
  · intro h
    have hupholds := upholds_ingest hwf hreach h
    constructor
    · exact hupholds.mono (fun _ _ _ => trivial) fun _ _ _ => trivial
    · have hagainst := hupholds.against
      split at hagainst
      · rename_i hresult
        rw [hresult]
        exact hagainst
      · rename_i hresult
        rw [hresult]
        exact hagainst

end Consistent

section Runs

def library : Store where
  collections := [⟨0, "Docs", "", .own, "user-1", 0⟩]
  sources := []
  jobs := []
  documents := []
  chunks := []
  nextId := 1

def note : Request where
  collectionId := 0
  title := "Note"
  sourceType := "text"
  rawContent := "hello"
  createdBy := "user-1"

def noteEnv : Env where
  re := ⟨fun text => [text], fun text => [text]⟩
  strip := id
  sha256 _ := "2cf24dba5fb0a30e26e83b2ac5b9e29e1b161e5c1fa7425e73043362938b9824"

/-- The connection is lost once, when the job is created. -/
def jobRefused : Statement → Outcome Answers String
  | .createIngestJob _ => .failed "connection lost"
  | _ => .answered {}

theorem wf_library : Wf library := by
  constructor
  · rintro r ⟨⟩
  · rintro r ⟨⟩
  · rintro r ⟨⟩
  · rintro r ⟨⟩
  · rintro r ⟨⟩

theorem validate_note : validate noteEnv note = .ok (note.rawContent, noteEnv.sha256 note.rawContent) := by
  decide

theorem jobRefused_not_consistent :
    Wf library ∧ Reachable jobRefused ∧ ¬Consistent noteEnv jobRefused note library := by
  refine ⟨wf_library, fun id message => ⟨rfl, rfl⟩, ?_⟩
  intro h
  have hrecorded := recorded_of_settled wf_library h.settled _ _ validate_note (by decide) rfl
  cases hrecorded.2

theorem note_consistent : Consistent noteEnv (fun _ => .answered {}) note library := by
  apply (consistent_iff_recorded wf_library fun id message => ⟨rfl, rfl⟩).mpr
  intro raw hash _ _ _
  exact ⟨rfl, rfl⟩

end Runs

end Hill90.Knowledge.Ingest
