import Mathlib.Data.List.Dedup
import Hill90.Knowledge.Shared

/-! # Queries with the scope of a user

The lists, the counts, the statistics and the graph of `shared_store.py`, by the rows their `WHERE`
lets through.  Where SQL leaves an order open, rows keep that of their table.
-/

namespace Hill90.Knowledge.Shared

section Rows

variable (owner : Option String) (t : Store)

def collectionsWhere : List Collection := t.collections.filter (Collection.visibleTo owner)

def sourcesWhere : List Source :=
  t.sources.filter fun s => (collectionsWhere owner t).any fun c => c.id = s.collectionId

def documentsWhere : List Document :=
  t.documents.filter fun d => (sourcesWhere owner t).any fun s => s.id = d.sourceId

def chunksWhere : List ChunkRow :=
  t.chunks.filter fun c => (documentsWhere owner t).any fun d => d.id = c.documentId

def jobsWhere : List Job :=
  t.jobs.filter fun j => (sourcesWhere owner t).any fun s => s.id = j.sourceId

def hitsWhere : List Hit := (hits t).filter fun h => h.collection.visibleTo owner

/-- The retrievals that are attributed to a visible collection; an admin has them all. -/
def retrievalsWhere : List Retrieval :=
  t.retrievals.filter fun r => owner.all fun _ =>
    r.collectionId.any fun id => (collectionsWhere owner t).any fun c => c.id = id

structure Retrieved where
  requesterType : Requester
  requesterId : String
  displayName : Option String
  createdAt : ℕ
  hit : Hit
  deriving DecidableEq

def retrievedWhere : List Retrieved :=
  t.retrievals.flatMap fun r => r.chunkIds.flatMap fun id =>
    ((hitsWhere owner t).filter fun h => h.chunk.id = id).map fun h =>
      ⟨r.requesterType, r.requesterId, r.displayName, r.createdAt, h⟩

end Rows

section Source

variable (owner : Option String) (t : Store)

def groupBy {α κ : Type} [DecidableEq κ] (key : α → κ) (rows : List α) : List (κ × List α) :=
  (rows.map key).dedup.map fun k => (k, rows.filter fun r => key r = k)

def countBy {α κ : Type} [DecidableEq κ] (key : α → κ) (rows : List α) : List (κ × ℕ) :=
  (groupBy key rows).map fun g => (g.1, g.2.length)

def average (xs : List ℚ) : Option ℤ :=
  if xs = [] then none else some (xs.sum / xs.length + 1 / 2).floor

structure CollectionRow where
  collection : Collection
  sourceCount : ℕ
  documentCount : ℕ
  deriving DecidableEq

def sourcesIn (c : Collection) : List Source := t.sources.filter fun s => s.collectionId = c.id

def documentsIn (c : Collection) : List Document :=
  t.documents.filter fun d => (sourcesIn t c).any fun s => s.id = d.sourceId

def collectionRow (c : Collection) : CollectionRow :=
  ⟨c, ((sourcesIn t c).map Source.id).dedup.length, ((documentsIn t c).map Document.id).dedup.length⟩

/-- `c.created_by = $1`, with `OR c.visibility = 'shared'` where shared ones are included. -/
def listed (includeShared : Bool) (c : Collection) : Bool :=
  owner.all fun u => c.createdBy = u || (includeShared && c.visibility = .shared)

def listCollections (includeShared : Bool) (limit offset : ℕ) : List CollectionRow × ℕ :=
  let rows := t.collections.filter (listed owner includeShared)
  let sorted := rows.mergeSort fun a b =>
    b.updatedAt < a.updatedAt || (a.updatedAt = b.updatedAt && b.id ≤ a.id)
  (((sorted.drop offset).take limit).map (collectionRow t), rows.length)

def vectorCoverage (collectionId : Option ℕ) : ℕ × ℕ :=
  let rows := (hitsWhere owner t).filter fun h => collectionId.all fun id => h.collection.id = id
  (rows.length, (rows.filter fun h => h.chunk.embedding.isSome).length)

structure Searches where
  total : ℕ
  zeroResults : ℕ
  zeroResultRate : ℚ
  deriving DecidableEq

structure Stats where
  searches : Searches
  averageDuration : Option ℤ
  byRequesterType : List (Requester × Searches)
  jobsByStatus : List (JobStatus × ℕ)
  totalJobs : ℕ
  errorRate : ℚ
  averageProcessing : Option ℤ
  sourcesByStatus : List (SourceStatus × ℕ)
  sourcesByType : List (String × ℕ)
  totalCollections : ℕ
  totalSources : ℕ
  totalChunks : ℕ
  totalTokens : ℕ
  embeddedChunks : ℕ
  documentsByStatus : List (EmbeddingStatus × ℕ)
  topCollections : List ((ℕ × String) × ℕ)
  topSources : List ((ℕ × String × String) × ℕ)
  deriving DecidableEq

def rate (round3 : ℚ → ℚ) (part total : ℕ) : ℚ :=
  if 0 < total then round3 ((part : ℚ) / total) else 0

def searches (round3 : ℚ → ℚ) (rows : List Retrieval) : Searches :=
  let missed := (rows.filter fun r => r.resultCount = 0).length
  ⟨rows.length, missed, rate round3 missed rows.length⟩

def top {κ : Type} (counts : List (κ × ℕ)) : List (κ × ℕ) :=
  (counts.mergeSort fun a b => b.2 ≤ a.2).take 10

def getSharedStats (round3 : ℚ → ℚ) (since : Option ℕ) : Stats :=
  let recent (at' : ℕ) : Bool := since.all fun s => s ≤ at'
  let rows := (retrievalsWhere owner t).filter fun r => recent r.createdAt
  let jobs := (jobsWhere owner t).filter fun j => recent (t.jobTimes j.id).createdAt
  let failed := (jobs.filter fun j => j.status = .failed).length
  let chunks := chunksWhere owner t
  let attributed := (t.retrievals.filter fun r => recent r.createdAt).flatMap fun r =>
    (collectionsWhere owner t).filter fun c => r.collectionId = some c.id
  let retrieved := (retrievedWhere owner t).filter fun r => recent r.createdAt
  { searches := searches round3 rows
    averageDuration := average (rows.filterMap Retrieval.durationMs)
    byRequesterType := (groupBy Retrieval.requesterType rows).map fun g => (g.1, searches round3 g.2)
    jobsByStatus := countBy Job.status jobs
    totalJobs := jobs.length
    errorRate := rate round3 failed jobs.length
    averageProcessing := average (jobs.filterMap fun j => (t.jobTimes j.id).processingMs)
    sourcesByStatus := countBy Source.status (sourcesWhere owner t)
    sourcesByType := countBy Source.sourceType (sourcesWhere owner t)
    totalCollections := (collectionsWhere owner t).length
    totalSources := (sourcesWhere owner t).length
    totalChunks := chunks.length
    totalTokens := (chunks.map ChunkRow.tokenEstimate).sum
    embeddedChunks := (chunks.filter fun c => c.embedding.isSome).length
    documentsByStatus := countBy Document.embeddingStatus (documentsWhere owner t)
    topCollections := top (countBy (fun c => (c.id, c.name)) attributed)
    topSources := top (countBy
      (fun r => (r.hit.source.id, r.hit.source.title, r.hit.collection.name)) retrieved) }

end Source

section Graph

inductive NodeId where
  | collection (id : ℕ)
  | source (id : ℕ)
  | agent (id : String)
  | user (id : String)
  deriving DecidableEq

structure Node where
  id : NodeId
  label : String
  visibility : Option Visibility := none
  sourceType : Option String := none
  chunkCount : Option ℕ := none
  entryCount : Option ℕ := none
  retrievalCount : Option ℕ := none
  deriving DecidableEq

structure Edge where
  source : NodeId
  target : NodeId
  retrievalCount : Option ℕ := none
  deriving DecidableEq

structure Counts where
  collections : ℕ
  sources : ℕ
  agentsWithKnowledge : ℕ
  requestersWithRetrievals : ℕ
  deriving DecidableEq

structure Graph where
  nodes : List Node
  edges : List Edge
  total : Counts
  shown : Counts
  danglingEdges : ℕ
  truncated : Bool
  deriving DecidableEq

/-- A row of the query of the retrieval edges. -/
structure RetrievalEdge where
  requesterId : String
  requesterType : Requester
  sourceId : ℕ
  chunkHits : ℕ
  displayName : Option String
  deriving DecidableEq

variable (le : String → String → Bool) (owner : Option String) (t : Store) (limit : ℕ)

def chunkCountOf (s : Source) : ℕ :=
  (t.chunks.flatMap fun c =>
    t.documents.filter fun d => d.id = c.documentId && d.sourceId = s.id).length

def graphCollections : List Collection :=
  ((collectionsWhere owner t).mergeSort fun a b => le a.name b.name).take limit

def activeSources : List Source :=
  (t.sources.flatMap fun s =>
    (t.collections.filter fun c => c.id = s.collectionId && c.visibleTo owner).map fun _ => s).filter
      fun s => s.status = .active

def graphSources : List (Source × ℕ) :=
  (((activeSources owner t).mergeSort fun a b => le a.title b.title).take limit).map fun s =>
    (s, chunkCountOf t s)

def activeAgents : List (String × ℕ) :=
  countBy AgentEntry.agentId (t.agentEntries.filter AgentEntry.active)

def graphAgents : List (String × ℕ) :=
  ((activeAgents t).mergeSort fun a b => le a.1 b.1).take limit

/-- The name that was captured last. -/
def lastName (rows : List Retrieved) : Option String :=
  ((rows.mergeSort fun a b => b.createdAt ≤ a.createdAt).filterMap Retrieved.displayName).head?

def retrievalEdges : List RetrievalEdge :=
  let groups := groupBy (fun r => (r.requesterId, r.requesterType, r.hit.source.id))
    (retrievedWhere owner t)
  let rows := groups.map fun g =>
    (⟨g.1.1, g.1.2.1, g.1.2.2, g.2.length, lastName g.2⟩ : RetrievalEdge)
  (rows.mergeSort fun a b =>
    if a.requesterId = b.requesterId then a.sourceId ≤ b.sourceId else le a.requesterId b.requesterId).take
      limit

def totals : Counts where
  collections := (collectionsWhere owner t).length
  sources := ((sourcesWhere owner t).filter fun s => s.status = .active).length
  agentsWithKnowledge := (activeAgents t).length
  requestersWithRetrievals :=
    ((retrievedWhere owner t).map Retrieved.requesterId).dedup.length

def RetrievalEdge.node (e : RetrievalEdge) : NodeId :=
  match e.requesterType with
  | .agent => .agent e.requesterId
  | .user => .user e.requesterId

def RetrievalEdge.name (e : RetrievalEdge) : Option String :=
  match e.requesterType with
  | .agent => none
  | .user => e.displayName.filter fun n => n ≠ ""

def addRequester (nodes : List Node) (e : RetrievalEdge) : List Node :=
  if nodes.any fun n => n.id = e.node then
    nodes.map fun n =>
      if n.id = e.node then
        { n with
          label := if n.label = e.requesterId then e.name.getD n.label else n.label
          retrievalCount := some (n.retrievalCount.getD 0 + e.chunkHits) }
      else n
  else
    nodes ++ [{ id := e.node, label := e.name.getD e.requesterId, retrievalCount := some e.chunkHits }]

/-- The graph of the rows; an edge whose other end is not on the page is left out and counted. -/
def buildGraph (collections : List Collection) (sources : List (Source × ℕ))
    (agents : List (String × ℕ)) (edges : List RetrievalEdge) (total : Counts) : Graph :=
  let collectionNodes := collections.map fun c =>
    ({ id := .collection c.id, label := c.name, visibility := some c.visibility } : Node)
  let sourceNodes := sources.map fun s =>
    ({ id := .source s.1.id, label := s.1.title, sourceType := some s.1.sourceType,
       chunkCount := some s.2 } : Node)
  let agentNodes := agents.map fun a =>
    ({ id := .agent a.1, label := a.1, entryCount := some a.2 } : Node)
  let contained := sources.filter fun s => collections.any fun c => c.id = s.1.collectionId
  let reached := edges.filter fun e => sources.any fun s => s.1.id = e.sourceId
  let shown : Counts :=
    ⟨collections.length, sources.length, agents.length,
      (edges.map RetrievalEdge.requesterId).dedup.length⟩
  { nodes := collectionNodes ++ sourceNodes ++ edges.foldl addRequester agentNodes
    edges :=
      (contained.map fun s => ⟨.collection s.1.collectionId, .source s.1.id, none⟩) ++
        reached.map fun e => ⟨e.node, .source e.sourceId, some e.chunkHits⟩
    total
    shown
    danglingEdges := sources.length - contained.length + (edges.length - reached.length)
    truncated := shown.collections < total.collections || shown.sources < total.sources ||
      shown.agentsWithKnowledge < total.agentsWithKnowledge ||
      shown.requestersWithRetrievals < total.requestersWithRetrievals }

def knowledgeGraph : Graph :=
  buildGraph (graphCollections le owner t limit) (graphSources le owner t limit)
    (graphAgents le t limit) (retrievalEdges le owner t limit) (totals owner t)

end Graph

section Definitions

def retrievedIds (owner : Option String) (t : Store) :
    List (Requester × String × Option String × ℕ × ℕ) :=
  t.retrievals.flatMap fun r =>
    (r.chunkIds.filter fun id => (chunksWhere owner t).any fun c => c.id = id).map fun id =>
      (r.requesterType, r.requesterId, r.displayName, r.createdAt, id)

/-- The stores have the same collections that the user owns or that are shared, with all they hold,
and the logs tell the same of them. -/
structure Agree (u : String) (s t : Store) : Prop where
  collections : collectionsWhere (some u) s = collectionsWhere (some u) t
  sources : sourcesWhere (some u) s = sourcesWhere (some u) t
  documents : documentsWhere (some u) s = documentsWhere (some u) t
  chunks : chunksWhere (some u) s = chunksWhere (some u) t
  jobs : jobsWhere (some u) s = jobsWhere (some u) t
  jobTimes : ∀ j ∈ jobsWhere (some u) t, s.jobTimes j.id = t.jobTimes j.id
  retrievals : retrievalsWhere (some u) s = retrievalsWhere (some u) t
  retrieved : retrievedIds (some u) s = retrievedIds (some u) t
  agentEntries : s.agentEntries = t.agentEntries

structure Alike (u : String) (s t : Store) : Prop where
  list : ∀ includeShared limit offset,
    listCollections (some u) s includeShared limit offset =
      listCollections (some u) t includeShared limit offset
  search : ∀ collectionId limit fts,
    searchChunks s (some u) collectionId limit fts = searchChunks t (some u) collectionId limit fts
  vector : ∀ collectionId limit vec,
    vectorSearchChunks s (some u) collectionId limit vec =
      vectorSearchChunks t (some u) collectionId limit vec
  hybrid : ∀ collectionId limit fts vec vectorWeight,
    hybridSearchChunks s (some u) collectionId limit fts vec vectorWeight =
      hybridSearchChunks t (some u) collectionId limit fts vec vectorWeight
  coverage : ∀ collectionId,
    vectorCoverage (some u) s collectionId = vectorCoverage (some u) t collectionId
  stats : ∀ round3 since,
    getSharedStats (some u) s round3 since = getSharedStats (some u) t round3 since
  graph : ∀ le limit, knowledgeGraph le (some u) s limit = knowledgeGraph le (some u) t limit

end Definitions

section Visible

variable {owner : Option String} {t : Store}

/-- Rows that yield nothing may be left out. -/
theorem flatMap_filter {α β : Type} {xs : List α} {f g : α → List β} {p : α → Bool}
    (hin : ∀ x, p x = true → f x = g x) (hout : ∀ x, p x = false → f x = []) :
    xs.flatMap f = (xs.filter p).flatMap g := by
  induction xs with
  | nil => rfl
  | cons x xs ih =>
    rw [List.flatMap_cons, ih]
    cases hp : p x with
    | true => rw [List.filter_cons_of_pos hp, List.flatMap_cons, hin x hp]
    | false =>
      rw [List.filter_cons_of_neg (by simp [hp]), hout x hp, List.nil_append]

theorem filter_eq_of_imp {α : Type} {xs : List α} {p q : α → Bool}
    (h : ∀ x, p x = true → q x = true) : xs.filter p = (xs.filter q).filter p := by
  rw [List.filter_filter]
  apply List.filter_congr
  intro x _
  cases hp : p x with
  | false => rfl
  | true =>
    rw [h x hp]
    rfl

/-- The store with the rows that are visible. -/
def restrict (owner : Option String) (t : Store) : Store :=
  { t with
    collections := collectionsWhere owner t
    sources := sourcesWhere owner t
    documents := documentsWhere owner t
    chunks := chunksWhere owner t }

def sourceHits (t : Store) (chunk : ChunkRow) (document : Document) (source : Source) : List Hit :=
  (t.collections.filter fun c => c.id = source.collectionId).map fun collection =>
    ⟨chunk, document, source, collection⟩

def documentHits (t : Store) (chunk : ChunkRow) (document : Document) : List Hit :=
  (t.sources.filter fun s => s.id = document.sourceId).flatMap (sourceHits t chunk document)

def chunkHits (t : Store) (chunk : ChunkRow) : List Hit :=
  (t.documents.filter fun d => d.id = chunk.documentId).flatMap (documentHits t chunk)

theorem hits_eq (t : Store) : hits t = t.chunks.flatMap (chunkHits t) := rfl

theorem filter_eq_nil_of_any {α : Type} {xs : List α} {p : α → Bool} (h : xs.any p = false) :
    xs.filter p = [] := by
  rw [List.filter_eq_nil_iff]
  intro x hx hp
  have hany : xs.any p = true := List.any_eq_true.mpr ⟨x, hx, hp⟩
  rw [h] at hany
  cases hany

theorem visible_sourceHits (chunk : ChunkRow) (document : Document) (source : Source) :
    (sourceHits t chunk document source).filter (fun h => h.collection.visibleTo owner) =
      sourceHits (restrict owner t) chunk document source := by
  unfold sourceHits
  rw [List.filter_map]
  change List.map _ (List.filter (Collection.visibleTo owner) _) = _
  rw [List.filter_comm]
  rfl

theorem visible_documentHits (chunk : ChunkRow) (document : Document) :
    (documentHits t chunk document).filter (fun h => h.collection.visibleTo owner) =
      documentHits (restrict owner t) chunk document := by
  unfold documentHits
  rw [List.filter_flatMap]
  change _ = ((sourcesWhere owner t).filter _).flatMap _
  rw [sourcesWhere, List.filter_comm]
  apply flatMap_filter
  · intro source _
    exact visible_sourceHits chunk document source
  · intro source hsource
    rw [visible_sourceHits, sourceHits]
    change List.map _ ((collectionsWhere owner t).filter _) = []
    rw [filter_eq_nil_of_any hsource]
    rfl

theorem visible_chunkHits (chunk : ChunkRow) :
    (chunkHits t chunk).filter (fun h => h.collection.visibleTo owner) =
      chunkHits (restrict owner t) chunk := by
  unfold chunkHits
  rw [List.filter_flatMap]
  change _ = ((documentsWhere owner t).filter _).flatMap _
  rw [documentsWhere, List.filter_comm]
  apply flatMap_filter
  · intro document _
    exact visible_documentHits chunk document
  · intro document hdocument
    rw [visible_documentHits, documentHits]
    change ((sourcesWhere owner t).filter _).flatMap _ = []
    rw [filter_eq_nil_of_any hdocument]
    rfl

/-- What is visible of the join is the join of what is visible. -/
theorem hitsWhere_eq : hitsWhere owner t = hits (restrict owner t) := by
  rw [hitsWhere, hits_eq, hits_eq, List.filter_flatMap]
  change _ = (chunksWhere owner t).flatMap _
  rw [chunksWhere]
  apply flatMap_filter
  · intro chunk _
    exact visible_chunkHits chunk
  · intro chunk hchunk
    rw [visible_chunkHits, chunkHits]
    change ((documentsWhere owner t).filter _).flatMap _ = []
    rw [filter_eq_nil_of_any hchunk]
    rfl

theorem chunk_of_mem_hitsWhere {h : Hit} (hmem : h ∈ hitsWhere owner t) :
    h.chunk ∈ chunksWhere owner t := by
  rw [hitsWhere_eq] at hmem
  exact (mem_hits.mp hmem).1

theorem retrievedWhere_eq : retrievedWhere owner t = (retrievedIds owner t).flatMap fun x =>
    ((hitsWhere owner t).filter fun h => h.chunk.id = x.2.2.2.2).map fun h =>
      ⟨x.1, x.2.1, x.2.2.1, x.2.2.2.1, h⟩ := by
  rw [retrievedWhere, retrievedIds, List.flatMap_assoc]
  congr 1
  funext r
  rw [List.flatMap_map]
  apply flatMap_filter
  · intro id _
    rfl
  · intro id hid
    rw [List.map_eq_nil_iff, List.filter_eq_nil_iff]
    intro h hmem heq
    have hany : ((chunksWhere owner t).any fun c => c.id = id) = true :=
      List.any_eq_true.mpr ⟨h.chunk, chunk_of_mem_hitsWhere hmem, heq⟩
    rw [hid] at hany
    cases hany

theorem selectChunks_eq (collectionId : Option ℕ) (limit : ℕ) (q : Query) :
    selectChunks t owner collectionId limit q =
      (ranked q.score ((hitsWhere owner t).filter fun h =>
        q.matching h && inScope owner collectionId h && h.source.status = .active)).take limit := by
  rw [selectChunks, hitsWhere]
  congr 2
  apply filter_eq_of_imp
  intro h hh
  simp only [inScope, Bool.and_eq_true] at hh
  exact hh.1.2.1

variable {c : Collection} {source : Source}

theorem sourcesIn_eq (hc : c ∈ collectionsWhere owner t) :
    sourcesIn t c = (sourcesWhere owner t).filter fun s => s.collectionId = c.id := by
  rw [sourcesIn, sourcesWhere]
  apply filter_eq_of_imp
  intro s hid
  exact List.any_eq_true.mpr ⟨c, hc, decide_eq_true (of_decide_eq_true hid).symm⟩

theorem documentsIn_eq (hc : c ∈ collectionsWhere owner t) :
    documentsIn t c = (documentsWhere owner t).filter fun d =>
      ((sourcesWhere owner t).filter fun s => s.collectionId = c.id).any fun s => s.id = d.sourceId := by
  rw [documentsIn, documentsWhere, sourcesIn_eq hc]
  apply filter_eq_of_imp
  intro d hd
  obtain ⟨s, hs, hid⟩ := List.any_eq_true.mp hd
  exact List.any_eq_true.mpr ⟨s, List.mem_of_mem_filter hs, hid⟩

theorem listed_eq (u : String) (includeShared : Bool) :
    t.collections.filter (listed (some u) includeShared) =
      (collectionsWhere (some u) t).filter (listed (some u) includeShared) := by
  apply filter_eq_of_imp
  intro c hc
  simp only [listed, Collection.visibleTo, Option.all_some, Bool.or_eq_true, Bool.and_eq_true] at hc ⊢
  obtain hown | ⟨-, hshared⟩ := hc
  · exact .inl hown
  · exact .inr hshared

theorem chunkCountOf_eq (hsource : source ∈ sourcesWhere owner t) :
    chunkCountOf t source = ((chunksWhere owner t).flatMap fun c =>
      (documentsWhere owner t).filter fun d => d.id = c.documentId && d.sourceId = source.id).length := by
  have hdocuments : ∀ c : ChunkRow,
      (t.documents.filter fun d => d.id = c.documentId && d.sourceId = source.id) =
        (documentsWhere owner t).filter fun d => d.id = c.documentId && d.sourceId = source.id := by
    intro c
    rw [documentsWhere]
    apply filter_eq_of_imp
    intro d hd
    have hid := of_decide_eq_true (Bool.and_eq_true_iff.mp hd).2
    exact List.any_eq_true.mpr ⟨source, hsource, decide_eq_true hid.symm⟩
  rw [chunkCountOf, chunksWhere]
  congr 1
  apply flatMap_filter
  · intro c _
    exact hdocuments c
  · intro c hc
    rw [hdocuments c, List.filter_eq_nil_iff]
    intro d hd hid
    have hany : ((documentsWhere owner t).any fun d => d.id = c.documentId) = true :=
      List.any_eq_true.mpr ⟨d, hd, (Bool.and_eq_true_iff.mp hid).1⟩
    rw [hc] at hany
    cases hany

theorem activeSources_eq : activeSources owner t = ((sourcesWhere owner t).flatMap fun s =>
    ((collectionsWhere owner t).filter fun c => c.id = s.collectionId).map fun _ => s).filter
      fun s => s.status = .active := by
  rw [activeSources, sourcesWhere]
  congr 1
  have hcollections : ∀ s : Source,
      (t.collections.filter fun c => c.id = s.collectionId && c.visibleTo owner) =
        (collectionsWhere owner t).filter fun c => c.id = s.collectionId := by
    intro s
    rw [collectionsWhere, List.filter_filter]
  apply flatMap_filter
  · intro s _
    rw [hcollections s]
  · intro s hs
    rw [hcollections s, filter_eq_nil_of_any hs]
    rfl

theorem mem_sourcesWhere_of_activeSources (h : source ∈ activeSources owner t) :
    source ∈ sourcesWhere owner t := by
  rw [activeSources_eq] at h
  obtain ⟨s, hs, hmem⟩ := List.mem_flatMap.mp (List.mem_of_mem_filter h)
  obtain ⟨_, _, rfl⟩ := List.mem_map.mp hmem
  exact hs

end Visible

section Agreement

variable {u : String} {s t : Store}

theorem Agree.hitsWhere (h : Agree u s t) : hitsWhere (some u) s = hitsWhere (some u) t := by
  rw [hitsWhere_eq, hitsWhere_eq]
  unfold hits restrict
  dsimp only
  rw [h.collections, h.sources, h.documents, h.chunks]

theorem Agree.retrievedWhere (h : Agree u s t) :
    retrievedWhere (some u) s = retrievedWhere (some u) t := by
  rw [retrievedWhere_eq, retrievedWhere_eq, h.retrieved, h.hitsWhere]

theorem Agree.collectionRow (h : Agree u s t) {c : Collection}
    (hc : c ∈ collectionsWhere (some u) t) : collectionRow s c = collectionRow t c := by
  have hs : c ∈ collectionsWhere (some u) s := h.collections ▸ hc
  unfold Shared.collectionRow
  rw [sourcesIn_eq hs, sourcesIn_eq hc, documentsIn_eq hs, documentsIn_eq hc, h.sources, h.documents]

theorem Agree.listCollections (h : Agree u s t) (includeShared : Bool) (limit offset : ℕ) :
    listCollections (some u) s includeShared limit offset =
      listCollections (some u) t includeShared limit offset := by
  unfold Shared.listCollections
  rw [listed_eq, listed_eq, h.collections]
  dsimp only
  congr 1
  apply List.map_congr_left
  intro c hc
  have hsorted := List.mem_of_mem_drop (List.mem_of_mem_take hc)
  exact h.collectionRow (List.mem_of_mem_filter (List.mem_mergeSort.mp hsorted))

theorem Agree.selectChunks (h : Agree u s t) (collectionId : Option ℕ) (limit : ℕ) (q : Query) :
    selectChunks s (some u) collectionId limit q = selectChunks t (some u) collectionId limit q := by
  rw [selectChunks_eq, selectChunks_eq, h.hitsWhere]

theorem Agree.jobs_recent (h : Agree u s t) (p : JobTimes → Bool) :
    ((jobsWhere (some u) s).filter fun j => p (s.jobTimes j.id)) =
      (jobsWhere (some u) t).filter fun j => p (t.jobTimes j.id) := by
  rw [h.jobs]
  apply List.filter_congr
  intro j hj
  rw [h.jobTimes j hj]

theorem attributed_eq (recent : ℕ → Bool) :
    ((t.retrievals.filter fun r => recent r.createdAt).flatMap fun r =>
      (collectionsWhere (some u) t).filter fun c => r.collectionId = some c.id) =
    ((retrievalsWhere (some u) t).filter fun r => recent r.createdAt).flatMap fun r =>
      (collectionsWhere (some u) t).filter fun c => r.collectionId = some c.id := by
  rw [retrievalsWhere, List.filter_comm]
  apply flatMap_filter
  · intro r _
    rfl
  · intro r hr
    rw [List.filter_eq_nil_iff]
    intro c hc hid
    have hany : (r.collectionId.any fun id =>
        (collectionsWhere (some u) t).any fun c => c.id = id) = true := by
      rw [of_decide_eq_true hid, Option.any_some]
      exact List.any_eq_true.mpr ⟨c, hc, decide_eq_true rfl⟩
    rw [Option.all_some, hany] at hr
    cases hr

theorem Agree.getSharedStats (h : Agree u s t) (round3 : ℚ → ℚ) (since : Option ℕ) :
    getSharedStats (some u) s round3 since = getSharedStats (some u) t round3 since := by
  have hjobs := h.jobs_recent fun times => since.all fun x => x ≤ times.createdAt
  have htimes : (((jobsWhere (some u) t).filter fun j =>
        since.all fun x => x ≤ (t.jobTimes j.id).createdAt).filterMap
          fun j => (s.jobTimes j.id).processingMs) =
      ((jobsWhere (some u) t).filter fun j =>
        since.all fun x => x ≤ (t.jobTimes j.id).createdAt).filterMap
          fun j => (t.jobTimes j.id).processingMs := by
    apply List.filterMap_congr
    intro j hj
    rw [h.jobTimes j (List.mem_of_mem_filter hj)]
  have hattributed := attributed_eq (u := u) (t := s) fun x => since.all fun y => y ≤ x
  have hothers := attributed_eq (u := u) (t := t) fun x => since.all fun y => y ≤ x
  unfold Shared.getSharedStats
  dsimp only
  rw [hjobs, htimes, hattributed, hothers, h.retrievals, h.collections, h.sources, h.documents,
    h.chunks, h.retrievedWhere]

theorem Agree.activeSources (h : Agree u s t) :
    activeSources (some u) s = activeSources (some u) t := by
  rw [activeSources_eq, activeSources_eq, h.sources, h.collections]

theorem Agree.chunkCountOf (h : Agree u s t) {source : Source}
    (hsource : source ∈ sourcesWhere (some u) t) : chunkCountOf s source = chunkCountOf t source := by
  have hs : source ∈ sourcesWhere (some u) s := h.sources ▸ hsource
  rw [chunkCountOf_eq hs, chunkCountOf_eq hsource, h.chunks, h.documents]

theorem Agree.graphSources (h : Agree u s t) (le : String → String → Bool) (limit : ℕ) :
    graphSources le (some u) s limit = graphSources le (some u) t limit := by
  unfold Shared.graphSources
  rw [h.activeSources]
  apply List.map_congr_left
  intro source hsource
  have hactive := List.mem_mergeSort.mp (List.mem_of_mem_take hsource)
  rw [h.chunkCountOf (mem_sourcesWhere_of_activeSources hactive)]

theorem Agree.totals (h : Agree u s t) : totals (some u) s = totals (some u) t := by
  unfold Shared.totals activeAgents
  rw [h.collections, h.sources, h.agentEntries, h.retrievedWhere]

theorem Agree.knowledgeGraph (h : Agree u s t) (le : String → String → Bool) (limit : ℕ) :
    knowledgeGraph le (some u) s limit = knowledgeGraph le (some u) t limit := by
  have hcollections : graphCollections le (some u) s limit = graphCollections le (some u) t limit := by
    rw [graphCollections, graphCollections, h.collections]
  have hagents : graphAgents le s limit = graphAgents le t limit := by
    rw [graphAgents, graphAgents, activeAgents, activeAgents, h.agentEntries]
  have hedges : retrievalEdges le (some u) s limit = retrievalEdges le (some u) t limit := by
    unfold retrievalEdges
    rw [h.retrievedWhere]
  unfold Shared.knowledgeGraph
  rw [hcollections, h.graphSources, hagents, hedges, h.totals]

/-- What other users keep to themselves does not change an answer. -/
theorem alike_of_agree (u : String) (s t : Store) (h : Agree u s t) : Alike u s t where
  list := h.listCollections
  search := h.selectChunks
  vector collectionId limit vec := h.selectChunks collectionId limit _
  hybrid collectionId limit fts vec vectorWeight := by
    unfold hybridSearchChunks searchChunks vectorSearchChunks
    simp only [h.selectChunks]
  coverage collectionId := by
    unfold vectorCoverage
    rw [h.hitsWhere]
  stats := h.getSharedStats
  graph := h.knowledgeGraph

/-- A store with a shared collection, and what another user has of their own. -/
def handbook (own : List Collection) (sources : List Source) (documents : List Document)
    (chunks : List ChunkRow) (retrievals : List Retrieval) : Store where
  collections := ⟨1, "Handbook", "", .shared, "bob", 7⟩ :: own
  sources := ⟨2, 1, "Rules", "text", none, "Knock.", "k", .active, none, "bob"⟩ :: sources
  jobs := [⟨3, 2, .completed, 1, none⟩]
  documents := ⟨4, 2, 3, "Rules", "k", 1, .pending⟩ :: documents
  chunks := ⟨5, 4, 0, "Knock.", 1, none⟩ :: chunks
  nextId := 20
  retrievals := ⟨.user, "bob", some "Bob", 1, [5], none, some 1, 9⟩ :: retrievals

/-- Nor is the user told of a diary of somebody else. -/
theorem handbook_alike :
    Alike "ann"
      (handbook [⟨11, "Diary", "", .own, "bob", 8⟩]
        [⟨12, 11, "May", "text", none, "Rain.", "r", .active, none, "bob"⟩]
        [⟨14, 12, 3, "May", "r", 1, .pending⟩] [⟨15, 14, 0, "Rain.", 1, none⟩]
        [⟨.user, "bob", some "Bob", 1, [15], none, some 11, 9⟩])
      (handbook [] [] [] [] []) := by
  apply alike_of_agree
  exact
    { collections := by decide +kernel
      sources := by decide +kernel
      documents := by decide +kernel
      chunks := by decide +kernel
      jobs := by decide +kernel
      jobTimes := fun _ _ => rfl
      retrievals := by decide +kernel
      retrieved := by decide +kernel
      agentEntries := rfl }

end Agreement

end Hill90.Knowledge.Shared
