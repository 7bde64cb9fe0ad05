import Mathlib.Data.Rat.Floor

/-! # The tables of shared knowledge

Collections hold sources, sources have documents and ingest jobs, and documents have chunks.  A row
is deleted with what it holds.
-/

namespace Hill90.Knowledge.Shared

inductive Visibility where
  | own
  | shared
  deriving DecidableEq

structure Collection where
  id : ℕ
  name : String
  description : String
  visibility : Visibility
  createdBy : String
  updatedAt : ℕ
  deriving DecidableEq

inductive SourceStatus where
  | pending
  | active
  | error
  | archived
  deriving DecidableEq

structure Source where
  id : ℕ
  collectionId : ℕ
  title : String
  sourceType : String
  sourceUrl : Option String
  rawContent : String
  contentHash : String
  status : SourceStatus := .pending
  errorMessage : Option String := none
  createdBy : String
  deriving DecidableEq

inductive JobStatus where
  | pending
  | running
  | completed
  | failed
  deriving DecidableEq

structure Job where
  id : ℕ
  sourceId : ℕ
  status : JobStatus := .pending
  chunkCount : ℕ := 0
  errorMessage : Option String := none
  deriving DecidableEq

inductive EmbeddingStatus where
  | pending
  | part
  | embedded
  deriving DecidableEq

structure Document where
  id : ℕ
  sourceId : ℕ
  jobId : ℕ
  title : String
  contentHash : String
  chunkCount : ℕ
  embeddingStatus : EmbeddingStatus := .pending
  deriving DecidableEq

structure ChunkRow where
  id : ℕ
  documentId : ℕ
  index : ℕ
  content : String
  tokenEstimate : ℕ
  embedding : Option (List ℚ) := none
  deriving DecidableEq

inductive Requester where
  | user
  | agent
  deriving DecidableEq

structure Retrieval where
  requesterType : Requester
  requesterId : String
  displayName : Option String
  resultCount : ℕ
  chunkIds : List ℕ
  durationMs : Option ℚ
  collectionId : Option ℕ
  createdAt : ℕ
  deriving DecidableEq

structure JobTimes where
  createdAt : ℕ := 0
  processingMs : Option ℚ := none
  deriving DecidableEq

structure AgentEntry where
  agentId : String
  active : Bool
  deriving DecidableEq

structure Store where
  collections : List Collection
  sources : List Source
  jobs : List Job
  documents : List Document
  chunks : List ChunkRow
  nextId : ℕ
  jobTimes : ℕ → JobTimes := fun _ => {}
  retrievals : List Retrieval := []
  agentEntries : List AgentEntry := []

structure Hit where
  chunk : ChunkRow
  document : Document
  source : Source
  collection : Collection
  deriving DecidableEq

/-- `created_by = $owner OR visibility = 'shared'`, and every collection for an admin. -/
def Collection.visibleTo (owner : Option String) (c : Collection) : Bool :=
  owner.all fun u => c.createdBy = u || c.visibility = .shared

/-- A search: what it matches (of a vector, what the probes of the index reach), and the order it
returns it in. -/
structure Query where
  matching : Hit → Bool
  score : Hit → ℚ

section Source

variable (t : Store) (owner : Option String) (collectionId : Option ℕ) (limit : ℕ)

def hits : List Hit :=
  t.chunks.flatMap fun chunk =>
    (t.documents.filter fun d => d.id = chunk.documentId).flatMap fun document =>
      (t.sources.filter fun s => s.id = document.sourceId).flatMap fun source =>
        (t.collections.filter fun c => c.id = source.collectionId).map fun collection =>
          ⟨chunk, document, source, collection⟩

def inScope (h : Hit) : Bool :=
  h.collection.visibleTo owner && collectionId.all fun id => h.collection.id = id

/-- The rows in the order of their scores; equal scores keep the order of the table. -/
def ranked (score : Hit → ℚ) (rows : List Hit) : List Hit :=
  rows.mergeSort fun a b => score b ≤ score a

def selectChunks (q : Query) : List Hit :=
  (ranked q.score ((hits t).filter fun h =>
    q.matching h && inScope owner collectionId h && h.source.status = .active)).take limit

def searchChunks (fts : Query) : List Hit := selectChunks t owner collectionId limit fts

def vectorSearchChunks (vec : Query) : List Hit :=
  selectChunks t owner collectionId limit
    ⟨fun h => h.chunk.embedding.isSome && vec.matching h, vec.score⟩

/-- `hybrid_search_chunks`; `vec` is missing where the query has no embedding or its search fails. -/
def hybridSearchChunks (fts : Query) (vec : Option Query) (vectorWeight : ℚ) : List Hit :=
  let ftsResults := searchChunks t owner collectionId limit fts
  match vec with
  | none => ftsResults
  | some vec =>
    let vecResults := vectorSearchChunks t owner collectionId limit vec
    if vecResults = [] then ftsResults
    else
      let ftsIds := ftsResults.map fun h => h.chunk.id
      let vecIds := vecResults.map fun h => h.chunk.id
      let merged := ftsResults ++ vecResults.filter fun h => h.chunk.id ∉ ftsIds
      let score : Hit → ℚ := fun h =>
        (1 - vectorWeight) * (if h.chunk.id ∈ ftsIds then fts.score h else 0) +
          vectorWeight * (if h.chunk.id ∈ vecIds then vec.score h else 0)
      (ranked score merged).take limit

inductive Returned (h : Hit) : Prop where
  | fts (owner : Option String) (collectionId : Option ℕ) (limit : ℕ) (q : Query)
      (mem : h ∈ searchChunks t owner collectionId limit q) : Returned h
  | vector (owner : Option String) (collectionId : Option ℕ) (limit : ℕ) (q : Query)
      (mem : h ∈ vectorSearchChunks t owner collectionId limit q) : Returned h
  | hybrid (owner : Option String) (collectionId : Option ℕ) (limit : ℕ) (fts : Query)
      (vec : Option Query) (vectorWeight : ℚ)
      (mem : h ∈ hybridSearchChunks t owner collectionId limit fts vec vectorWeight) : Returned h

end Source

section Searches

variable {t : Store} {owner : Option String} {collectionId : Option ℕ} {limit : ℕ} {h : Hit}

theorem active_of_mem_selectChunks {q : Query} (hmem : h ∈ selectChunks t owner collectionId limit q) :
    h ∈ hits t ∧ h.source.status = .active := by
  have hranked := List.mem_of_mem_take hmem
  rw [ranked, List.mem_mergeSort, List.mem_filter] at hranked
  simp only [Bool.and_eq_true, decide_eq_true_eq] at hranked
  exact ⟨hranked.1, hranked.2.2⟩

/-- No search returns a chunk of a source that is not active. -/
theorem Returned.active (hmem : Returned t h) : h ∈ hits t ∧ h.source.status = .active := by
  cases hmem with
  | fts owner collectionId limit q mem => exact active_of_mem_selectChunks mem
  | vector owner collectionId limit q mem => exact active_of_mem_selectChunks mem
  | hybrid owner collectionId limit fts vec vectorWeight mem =>
    unfold hybridSearchChunks at mem
    dsimp only at mem
    split at mem
    · exact active_of_mem_selectChunks mem
    · split at mem
      · exact active_of_mem_selectChunks mem
      · have hranked := List.mem_of_mem_take mem
        rw [ranked, List.mem_mergeSort, List.mem_append] at hranked
        obtain hfts | hvec := hranked
        · exact active_of_mem_selectChunks hfts
        · exact active_of_mem_selectChunks (List.mem_of_mem_filter hvec)

theorem mem_hits : h ∈ hits t ↔ h.chunk ∈ t.chunks ∧ h.document ∈ t.documents ∧
    h.source ∈ t.sources ∧ h.collection ∈ t.collections ∧ h.document.id = h.chunk.documentId ∧
    h.source.id = h.document.sourceId ∧ h.collection.id = h.source.collectionId := by
  obtain ⟨chunk, document, source, collection⟩ := h
  simp only [hits, List.mem_flatMap, List.mem_map, List.mem_filter, decide_eq_true_eq]
  constructor
  · rintro ⟨chunk', hc, document', ⟨hd, hdc⟩, source', ⟨hs, hsd⟩, collection', ⟨hk, hks⟩, heq⟩
    cases heq
    exact ⟨hc, hd, hs, hk, hdc, hsd, hks⟩
  · rintro ⟨hc, hd, hs, hk, hdc, hsd, hks⟩
    exact ⟨chunk, hc, document, ⟨hd, hdc⟩, source, ⟨hs, hsd⟩, collection, ⟨hk, hks⟩, rfl⟩

end Searches

end Hill90.Knowledge.Shared
