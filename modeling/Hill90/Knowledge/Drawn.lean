import Mathlib.Data.Finset.Card
import Hill90.Knowledge.Scope

/-! # What the graph of the shared knowledge shows

The nodes and edges of the graph against the rows of its queries, each of which has its own limit, and
what it reports of the rows that are left out.
-/

namespace Hill90.Knowledge.Shared

section Definitions

variable (le : String → String → Bool) (owner : Option String) (t : Store) (limit : ℕ)

/-- The rows of the query of the retrieval edges before its limit. -/
def retrievalRows : List RetrievalEdge :=
  ((groupBy (fun r => (r.requesterId, r.requesterType, r.hit.source.id)) (retrievedWhere owner t)).map
    fun g => (⟨g.1.1, g.1.2.1, g.1.2.2, g.2.length, lastName g.2⟩ : RetrievalEdge)).mergeSort fun a b =>
      if a.requesterId = b.requesterId then a.sourceId ≤ b.sourceId else le a.requesterId b.requesterId

/-- The ids of collections and sources are of one row each. -/
structure Keyed : Prop where
  collections : (t.collections.map Collection.id).Nodup
  sources : (t.sources.map Source.id).Nodup

structure Counts.Within (shown total : Counts) : Prop where
  collections : shown.collections ≤ total.collections
  sources : shown.sources ≤ total.sources
  agentsWithKnowledge : shown.agentsWithKnowledge ≤ total.agentsWithKnowledge
  requestersWithRetrievals : shown.requestersWithRetrievals ≤ total.requestersWithRetrievals

/-- Every active source that is visible is there, and so is every edge of the two kinds between nodes
that are there. -/
structure Whole (g : Graph) : Prop where
  sources : ∀ s ∈ activeSources owner t, .source s.id ∈ g.nodes.map Node.id
  contained : ∀ s ∈ activeSources owner t, .collection s.collectionId ∈ g.nodes.map Node.id →
    .source s.id ∈ g.nodes.map Node.id → ⟨.collection s.collectionId, .source s.id, none⟩ ∈ g.edges
  retrieved : ∀ e ∈ retrievalRows le owner t, e.node ∈ g.nodes.map Node.id →
    .source e.sourceId ∈ g.nodes.map Node.id →
      ∃ x ∈ g.edges, x.source = e.node ∧ x.target = .source e.sourceId

structure WellDrawn : Prop where
  unique : ((knowledgeGraph le owner t limit).nodes.map Node.id).Nodup
  connected : ∀ e ∈ (knowledgeGraph le owner t limit).edges,
    e.source ∈ (knowledgeGraph le owner t limit).nodes.map Node.id ∧
      e.target ∈ (knowledgeGraph le owner t limit).nodes.map Node.id
  counted : (knowledgeGraph le owner t limit).edges.length +
    (knowledgeGraph le owner t limit).danglingEdges =
      (graphSources le owner t limit).length + (retrievalEdges le owner t limit).length
  within : (knowledgeGraph le owner t limit).shown.Within (knowledgeGraph le owner t limit).total
  whole : (knowledgeGraph le owner t limit).truncated = false →
    Whole le owner t (knowledgeGraph le owner t limit)

/-- A query has more rows than the limit, or a requester has all rows beyond it. -/
def Shortened : Prop :=
  limit < (collectionsWhere owner t).length ∨ limit < (activeSources owner t).length ∨
    limit < (activeAgents t).length ∨ ∃ e ∈ retrievalRows le owner t,
      ∀ e' ∈ (retrievalRows le owner t).take limit, e'.requesterId ≠ e.requesterId

/-- Of the two ends of a row beyond the limit, one is in no other row. -/
def Spared : Prop :=
  ∀ e ∈ (retrievalRows le owner t).drop limit, (∀ s ∈ activeSources owner t, s.id ≠ e.sourceId) ∨
    ((∀ a ∈ activeAgents t, .agent a.1 ≠ e.node) ∧
      ∀ e' ∈ (retrievalRows le owner t).take limit, e'.node ≠ e.node)

end Definitions

section Requesters

variable {nodes : List Node} {e : RetrievalEdge}

theorem ids_addRequester : (addRequester nodes e).map Node.id =
    if e.node ∈ nodes.map Node.id then nodes.map Node.id else nodes.map Node.id ++ [e.node] := by
  have hany : (nodes.any fun n => n.id = e.node) = true ↔ e.node ∈ nodes.map Node.id := by
    simp [List.any_eq_true, List.mem_map]
  unfold addRequester
  by_cases h : e.node ∈ nodes.map Node.id
  · rw [if_pos (hany.mpr h), if_pos h, List.map_map]
    refine List.map_congr_left fun n _ => ?_
    rw [Function.comp_apply]
    split <;> rfl
  · rw [if_neg fun hnodes => h (hany.mp hnodes), if_neg h, List.map_append]
    rfl

theorem mem_ids_foldl {id : NodeId} (edges : List RetrievalEdge) :
    id ∈ (edges.foldl addRequester nodes).map Node.id ↔
      id ∈ nodes.map Node.id ∨ ∃ e ∈ edges, e.node = id := by
  induction edges generalizing nodes with
  | nil => simp
  | cons e edges ih =>
    rw [List.foldl_cons, ih, ids_addRequester]
    by_cases h : e.node ∈ nodes.map Node.id
    · rw [if_pos h]
      constructor
      · rintro (hid | ⟨x, hx, hnode⟩)
        · exact .inl hid
        · exact .inr ⟨x, List.mem_cons_of_mem _ hx, hnode⟩
      · rintro (hid | ⟨x, hx, hnode⟩)
        · exact .inl hid
        · rcases List.mem_cons.mp hx with rfl | hx
          · exact .inl (hnode ▸ h)
          · exact .inr ⟨x, hx, hnode⟩
    · rw [if_neg h, List.mem_append, List.mem_singleton]
      constructor
      · rintro ((hid | rfl) | ⟨x, hx, hnode⟩)
        · exact .inl hid
        · exact .inr ⟨e, List.mem_cons_self, rfl⟩
        · exact .inr ⟨x, List.mem_cons_of_mem _ hx, hnode⟩
      · rintro (hid | ⟨x, hx, hnode⟩)
        · exact .inl (.inl hid)
        · rcases List.mem_cons.mp hx with rfl | hx
          · exact .inl (.inr hnode.symm)
          · exact .inr ⟨x, hx, hnode⟩

theorem nodup_ids_foldl (edges : List RetrievalEdge) (h : (nodes.map Node.id).Nodup) :
    ((edges.foldl addRequester nodes).map Node.id).Nodup := by
  induction edges generalizing nodes with
  | nil => exact h
  | cons e edges ih =>
    apply ih
    rw [ids_addRequester]
    split
    · exact h
    · rename_i hnew
      rw [List.nodup_append]
      refine ⟨h, List.nodup_singleton _, ?_⟩
      intro a ha b hb heq
      rw [List.mem_singleton.mp hb] at heq
      exact hnew (heq ▸ ha)

theorem node_eq_iff {a b : RetrievalEdge} :
    a.node = b.node ↔ a.requesterType = b.requesterType ∧ a.requesterId = b.requesterId := by
  unfold RetrievalEdge.node
  cases a.requesterType <;> cases b.requesterType <;> simp

end Requesters

section Rows

variable {le : String → String → Bool} {owner : Option String} {t : Store} {limit : ℕ}

/-- The rows are of distinct requesters and sources. -/
theorem nodup_retrievalRows :
    ((retrievalRows le owner t).map fun e => (e.requesterId, e.requesterType, e.sourceId)).Nodup := by
  unfold retrievalRows
  rw [((List.mergeSort_perm _ _).map _).nodup_iff, List.map_map]
  unfold groupBy
  rw [List.map_map]
  have hid : ((fun e : RetrievalEdge => (e.requesterId, e.requesterType, e.sourceId)) ∘
      (fun g : (String × Requester × ℕ) × List Retrieved =>
        (⟨g.1.1, g.1.2.1, g.1.2.2, g.2.length, lastName g.2⟩ : RetrievalEdge))) ∘
      (fun k => (k, (retrievedWhere owner t).filter fun r =>
        (r.requesterId, r.requesterType, r.hit.source.id) = k)) = id := rfl
  rw [hid, List.map_id]
  exact List.nodup_dedup _

theorem requesters_retrievalRows {requester : String} :
    requester ∈ (retrievalRows le owner t).map RetrievalEdge.requesterId ↔
      requester ∈ (retrievedWhere owner t).map Retrieved.requesterId := by
  unfold retrievalRows
  rw [((List.mergeSort_perm _ _).map _).mem_iff, List.map_map]
  unfold groupBy
  rw [List.map_map, List.mem_map, List.mem_map]
  constructor
  · rintro ⟨k, hk, rfl⟩
    obtain ⟨r, hr, rfl⟩ := List.mem_map.mp (List.mem_dedup.mp hk)
    exact ⟨r, hr, rfl⟩
  · rintro ⟨r, hr, rfl⟩
    exact ⟨_, List.mem_dedup.mpr (List.mem_map_of_mem hr), rfl⟩

theorem not_same_ends {e e' : RetrievalEdge} (he : e ∈ (retrievalRows le owner t).drop limit)
    (he' : e' ∈ (retrievalRows le owner t).take limit) (hnode : e'.node = e.node)
    (hsource : e'.sourceId = e.sourceId) : False := by
  have hnodup := @nodup_retrievalRows le owner t
  rw [← List.take_append_drop limit (retrievalRows le owner t), List.map_append] at hnodup
  obtain ⟨htype, hid⟩ := node_eq_iff.mp hnode
  refine (List.nodup_append.mp hnodup).2.2 _ (List.mem_map_of_mem he') _ (List.mem_map_of_mem he) ?_
  rw [htype, hid, hsource]

theorem activeSources_eq_filter (h : Keyed t) :
    activeSources owner t = (sourcesWhere owner t).filter fun s => s.status = .active := by
  unfold activeSources sourcesWhere collectionsWhere
  congr 1
  have hone : ∀ s : Source, ((t.collections.filter fun c => c.id = s.collectionId && c.visibleTo owner).map
      fun _ => s) = if (t.collections.filter (Collection.visibleTo owner)).any
        (fun c => c.id = s.collectionId) then [s] else [] := by
    intro s
    have hkeys := h.collections
    generalize t.collections = collections at hkeys ⊢
    induction collections with
    | nil => rfl
    | cons c cs ih =>
      obtain ⟨hnew, hrest⟩ := List.nodup_cons.mp hkeys
      by_cases hc : c.id = s.collectionId ∧ c.visibleTo owner = true
      · have hnone : cs.filter (fun c => c.id = s.collectionId && c.visibleTo owner) = [] := by
          rw [List.filter_eq_nil_iff]
          intro x hx hxs
          have hxid : x.id = s.collectionId := by simpa using (Bool.and_eq_true_iff.mp hxs).1
          exact hnew (List.mem_map.mpr ⟨x, hx, hxid.trans hc.1.symm⟩)
        rw [List.filter_cons_of_pos (by simp [hc]), hnone, List.filter_cons_of_pos hc.2, List.any_cons]
        simp [hc.1]
      · rw [List.filter_cons_of_neg (by simpa using hc), ih hrest]
        by_cases hvisible : c.visibleTo owner = true
        · have hne : c.id ≠ s.collectionId := fun heq => hc ⟨heq, hvisible⟩
          rw [List.filter_cons_of_pos hvisible, List.any_cons]
          simp [hne]
        · rw [List.filter_cons_of_neg hvisible]
  induction t.sources with
  | nil => rfl
  | cons s sources ih =>
    rw [List.flatMap_cons, ih, hone, List.filter_cons]
    split <;> rfl

theorem nodup_activeSources (h : Keyed t) : ((activeSources owner t).map Source.id).Nodup := by
  rw [activeSources_eq_filter h]
  exact h.sources.sublist ((List.filter_sublist.trans List.filter_sublist).map _)

theorem mem_graphSources {s : Source} (hs : s ∈ (graphSources le owner t limit).map Prod.fst) :
    s ∈ activeSources owner t := by
  unfold graphSources at hs
  rw [List.map_map] at hs
  obtain ⟨x, hx, rfl⟩ := List.mem_map.mp hs
  exact (List.mergeSort_perm _ _).mem_iff.mp (List.mem_of_mem_take hx)

theorem nodup_activeAgents : ((activeAgents t).map Prod.fst).Nodup := by
  unfold activeAgents countBy groupBy
  rw [List.map_map, List.map_map]
  exact (List.map_id (t.agentEntries.filter AgentEntry.active |>.map AgentEntry.agentId).dedup).symm ▸
    List.nodup_dedup _

theorem agent_ids_nodup :
    ((graphAgents le t limit).map fun a => NodeId.agent a.1).Nodup := by
  have hsub : ((graphAgents le t limit).map Prod.fst).Nodup := by
    refine @List.Sublist.nodup _ _ (((activeAgents t).mergeSort _).map Prod.fst)
      ((List.take_sublist _ _).map _) ?_
    exact (((List.mergeSort_perm _ _).map _).nodup_iff).mpr nodup_activeAgents
  have hmap := hsub.map (f := NodeId.agent) fun a b h => by cases h; rfl
  rwa [List.map_map] at hmap

end Rows

section Ids

variable {le : String → String → Bool} {owner : Option String} {t : Store} {limit : ℕ} {id : NodeId}

theorem mem_ids : id ∈ (knowledgeGraph le owner t limit).nodes.map Node.id ↔
    (∃ c ∈ graphCollections le owner t limit, .collection c.id = id) ∨
      (∃ s ∈ graphSources le owner t limit, .source s.1.id = id) ∨
        (∃ a ∈ graphAgents le t limit, .agent a.1 = id) ∨
          ∃ e ∈ retrievalEdges le owner t limit, e.node = id := by
  unfold knowledgeGraph buildGraph
  rw [List.map_append, List.map_append, List.mem_append, List.mem_append, mem_ids_foldl]
  simp only [List.map_map, List.mem_map, Function.comp_apply, or_assoc]

theorem collection_mem_ids {i : ℕ} :
    .collection i ∈ (knowledgeGraph le owner t limit).nodes.map Node.id ↔
      ∃ c ∈ graphCollections le owner t limit, c.id = i := by
  rw [mem_ids]
  constructor
  · rintro (⟨c, hc, h⟩ | ⟨_, _, h⟩ | ⟨_, _, h⟩ | ⟨e, _, h⟩)
    · cases h
      exact ⟨c, hc, rfl⟩
    · cases h
    · cases h
    · unfold RetrievalEdge.node at h
      split at h <;> cases h
  · rintro ⟨c, hc, rfl⟩
    exact .inl ⟨c, hc, rfl⟩

theorem source_mem_ids {i : ℕ} :
    .source i ∈ (knowledgeGraph le owner t limit).nodes.map Node.id ↔
      ∃ s ∈ graphSources le owner t limit, s.1.id = i := by
  rw [mem_ids]
  constructor
  · rintro (⟨_, _, h⟩ | ⟨s, hs, h⟩ | ⟨_, _, h⟩ | ⟨e, _, h⟩)
    · cases h
    · cases h
      exact ⟨s, hs, rfl⟩
    · cases h
    · unfold RetrievalEdge.node at h
      split at h <;> cases h
  · rintro ⟨s, hs, rfl⟩
    exact .inr (.inl ⟨s, hs, rfl⟩)

theorem requester_mem_ids {e : RetrievalEdge} :
    e.node ∈ (knowledgeGraph le owner t limit).nodes.map Node.id ↔
      (∃ a ∈ graphAgents le t limit, .agent a.1 = e.node) ∨
        ∃ e' ∈ retrievalEdges le owner t limit, e'.node = e.node := by
  rw [mem_ids]
  constructor
  · rintro (⟨_, _, h⟩ | ⟨_, _, h⟩ | h)
    · unfold RetrievalEdge.node at h
      split at h <;> cases h
    · unfold RetrievalEdge.node at h
      split at h <;> cases h
    · exact h
  · exact fun h => .inr (.inr h)

theorem nodup_ids (h : Keyed t) : ((knowledgeGraph le owner t limit).nodes.map Node.id).Nodup := by
  have hcollections : ((graphCollections le owner t limit).map fun c => NodeId.collection c.id).Nodup := by
    have hids : ((graphCollections le owner t limit).map Collection.id).Nodup := by
      refine @List.Sublist.nodup _ _ (((collectionsWhere owner t).mergeSort _).map Collection.id)
        ((List.take_sublist _ _).map _) ?_
      rw [((List.mergeSort_perm _ _).map _).nodup_iff]
      exact h.collections.sublist (List.filter_sublist.map _)
    have hmap := hids.map (f := NodeId.collection) fun a b h => by cases h; rfl
    rwa [List.map_map] at hmap
  have hsources : ((graphSources le owner t limit).map fun s => NodeId.source s.1.id).Nodup := by
    have hids : ((graphSources le owner t limit).map fun s => s.1.id).Nodup := by
      unfold graphSources
      rw [List.map_map]
      refine @List.Sublist.nodup _ _ (((activeSources owner t).mergeSort _).map Source.id)
        ((List.take_sublist _ _).map _) ?_
      rw [((List.mergeSort_perm _ _).map _).nodup_iff]
      exact nodup_activeSources h
    have hmap := hids.map (f := NodeId.source) fun a b h => by cases h; rfl
    rwa [List.map_map] at hmap
  unfold knowledgeGraph buildGraph
  rw [List.map_append, List.map_append, List.map_map, List.map_map, List.nodup_append,
    List.nodup_append]
  refine ⟨⟨hcollections, hsources, ?_⟩, nodup_ids_foldl _ ?_, ?_⟩
  · intro a ha b hb heq
    obtain ⟨c, -, rfl⟩ := List.mem_map.mp ha
    obtain ⟨s, -, rfl⟩ := List.mem_map.mp hb
    cases heq
  · rw [List.map_map]
    exact agent_ids_nodup
  · intro a ha b hb heq
    subst heq
    rcases (mem_ids_foldl _).mp hb with hb | ⟨e, -, hb⟩
    · rw [List.map_map] at hb
      obtain ⟨agent, -, rfl⟩ := List.mem_map.mp hb
      rcases List.mem_append.mp ha with ha | ha
      · obtain ⟨c, -, heq⟩ := List.mem_map.mp ha
        cases heq
      · obtain ⟨c, -, heq⟩ := List.mem_map.mp ha
        cases heq
    · have hnode : (∃ i, a = .agent i) ∨ ∃ i, a = .user i := by
        rw [← hb]
        unfold RetrievalEdge.node
        split
        · exact .inl ⟨_, rfl⟩
        · exact .inr ⟨_, rfl⟩
      rcases List.mem_append.mp ha with ha | ha <;> obtain ⟨c, -, rfl⟩ := List.mem_map.mp ha <;>
        rcases hnode with ⟨i, hnode⟩ | ⟨i, hnode⟩ <;> cases hnode

end Ids

section Report

variable {le : String → String → Bool} {owner : Option String} {t : Store} {limit : ℕ}

theorem requesters_lt_iff :
    (((retrievalEdges le owner t limit).map RetrievalEdge.requesterId).dedup.length <
      ((retrievedWhere owner t).map Retrieved.requesterId).dedup.length) ↔
        ∃ e ∈ retrievalRows le owner t,
          ∀ e' ∈ (retrievalRows le owner t).take limit, e'.requesterId ≠ e.requesterId := by
  have hsub : ((retrievalEdges le owner t limit).map RetrievalEdge.requesterId).toFinset ⊆
      ((retrievedWhere owner t).map Retrieved.requesterId).toFinset := by
    intro requester hmem
    rw [List.mem_toFinset] at hmem ⊢
    exact requesters_retrievalRows.mp (((List.take_sublist _ _).map _).subset hmem)
  rw [← List.card_toFinset, ← List.card_toFinset]
  constructor
  · intro hlt
    obtain ⟨requester, hin, hout⟩ := Finset.exists_mem_notMem_of_card_lt_card hlt
    obtain ⟨e, he, rfl⟩ := List.mem_map.mp
      ((@requesters_retrievalRows le owner t _).mpr (List.mem_toFinset.mp hin))
    refine ⟨e, he, fun e' he' heq => hout (List.mem_toFinset.mpr ?_)⟩
    exact List.mem_map.mpr ⟨e', he', heq⟩
  · rintro ⟨e, he, hnone⟩
    apply Finset.card_lt_card
    refine ⟨hsub, fun hsup => ?_⟩
    have hin := hsup (List.mem_toFinset.mpr
      (requesters_retrievalRows.mp (List.mem_map_of_mem (f := RetrievalEdge.requesterId) he)))
    obtain ⟨e', he', heq⟩ := List.mem_map.mp (List.mem_toFinset.mp hin)
    exact hnone e' he' heq

theorem length_graphSources : (graphSources le owner t limit).length =
    min limit (activeSources owner t).length := by
  unfold graphSources
  rw [List.length_map, List.length_take, List.length_mergeSort]

theorem truncated_iff (h : Keyed t) :
    (knowledgeGraph le owner t limit).truncated = true ↔ Shortened le owner t limit := by
  have hcollections : (graphCollections le owner t limit).length < (collectionsWhere owner t).length ↔
      limit < (collectionsWhere owner t).length := by
    rw [graphCollections, List.length_take, List.length_mergeSort]
    omega
  have hsources : (graphSources le owner t limit).length < ((sourcesWhere owner t).filter fun s =>
      s.status = .active).length ↔ limit < (activeSources owner t).length := by
    rw [← activeSources_eq_filter h, length_graphSources]
    omega
  have hagents : (graphAgents le t limit).length < (activeAgents t).length ↔
      limit < (activeAgents t).length := by
    rw [graphAgents, List.length_take, List.length_mergeSort]
    omega
  unfold Shortened
  rw [← requesters_lt_iff, ← hcollections, ← hsources, ← hagents]
  have hreport : (knowledgeGraph le owner t limit).truncated = true ↔
      (knowledgeGraph le owner t limit).shown.collections <
        (knowledgeGraph le owner t limit).total.collections ∨
      (knowledgeGraph le owner t limit).shown.sources <
        (knowledgeGraph le owner t limit).total.sources ∨
      (knowledgeGraph le owner t limit).shown.agentsWithKnowledge <
        (knowledgeGraph le owner t limit).total.agentsWithKnowledge ∨
      (knowledgeGraph le owner t limit).shown.requestersWithRetrievals <
        (knowledgeGraph le owner t limit).total.requestersWithRetrievals := by
    unfold knowledgeGraph buildGraph
    simp only [Bool.or_eq_true, decide_eq_true_eq, or_assoc]
  exact hreport

theorem within_totals (h : Keyed t) :
    (knowledgeGraph le owner t limit).shown.Within (knowledgeGraph le owner t limit).total := by
  constructor
  · change (graphCollections le owner t limit).length ≤ (collectionsWhere owner t).length
    rw [graphCollections, List.length_take, List.length_mergeSort]
    omega
  · change (graphSources le owner t limit).length ≤
      ((sourcesWhere owner t).filter fun s => s.status = .active).length
    rw [← activeSources_eq_filter h, length_graphSources]
    omega
  · change (graphAgents le t limit).length ≤ (activeAgents t).length
    rw [graphAgents, List.length_take, List.length_mergeSort]
    omega
  · change ((retrievalEdges le owner t limit).map RetrievalEdge.requesterId).dedup.length ≤
      ((retrievedWhere owner t).map Retrieved.requesterId).dedup.length
    rw [← List.card_toFinset, ← List.card_toFinset]
    refine Finset.card_le_card fun requester hmem => ?_
    rw [List.mem_toFinset] at hmem ⊢
    exact requesters_retrievalRows.mp (((List.take_sublist _ _).map _).subset hmem)

theorem mem_edges {x : Edge} : x ∈ (knowledgeGraph le owner t limit).edges ↔
    (∃ s ∈ graphSources le owner t limit, (∃ c ∈ graphCollections le owner t limit,
      c.id = s.1.collectionId) ∧ ⟨.collection s.1.collectionId, .source s.1.id, none⟩ = x) ∨
    ∃ e ∈ retrievalEdges le owner t limit, (∃ s ∈ graphSources le owner t limit,
      s.1.id = e.sourceId) ∧ ⟨e.node, .source e.sourceId, some e.chunkHits⟩ = x := by
  unfold knowledgeGraph buildGraph
  simp only [List.mem_append, List.mem_map, List.mem_filter, List.any_eq_true, decide_eq_true_eq,
    and_assoc]

theorem connected_ids {x : Edge} (hx : x ∈ (knowledgeGraph le owner t limit).edges) :
    x.source ∈ (knowledgeGraph le owner t limit).nodes.map Node.id ∧
      x.target ∈ (knowledgeGraph le owner t limit).nodes.map Node.id := by
  rcases mem_edges.mp hx with ⟨s, hs, hc, rfl⟩ | ⟨e, he, hs, rfl⟩
  · exact ⟨collection_mem_ids.mpr hc, source_mem_ids.mpr ⟨s, hs, rfl⟩⟩
  · exact ⟨requester_mem_ids.mpr (.inr ⟨e, he, rfl⟩), source_mem_ids.mpr hs⟩

theorem edges_add_dangling : (knowledgeGraph le owner t limit).edges.length +
    (knowledgeGraph le owner t limit).danglingEdges =
      (graphSources le owner t limit).length + (retrievalEdges le owner t limit).length := by
  unfold knowledgeGraph buildGraph
  dsimp only
  rw [List.length_append, List.length_map, List.length_map]
  have hcontained := List.length_filter_le (fun s : Source × ℕ =>
    (graphCollections le owner t limit).any fun c => c.id = s.1.collectionId)
      (graphSources le owner t limit)
  have hreached := List.length_filter_le (fun e : RetrievalEdge =>
    (graphSources le owner t limit).any fun s => s.1.id = e.sourceId) (retrievalEdges le owner t limit)
  omega

end Report

section Whole

variable {le : String → String → Bool} {owner : Option String} {t : Store} {limit : ℕ}

theorem exists_graphSource (le : String → String → Bool)
    (h : (activeSources owner t).length ≤ limit) {s : Source}
    (hs : s ∈ activeSources owner t) : ∃ x ∈ graphSources le owner t limit, x.1 = s := by
  refine ⟨(s, chunkCountOf t s), List.mem_map.mpr ⟨s, ?_, rfl⟩, rfl⟩
  rw [List.take_of_length_le (by rwa [List.length_mergeSort])]
  exact (List.mergeSort_perm _ _).mem_iff.mpr hs

theorem mem_graphAgents (h : (activeAgents t).length ≤ limit) {a : String × ℕ} :
    a ∈ graphAgents le t limit ↔ a ∈ activeAgents t := by
  rw [graphAgents, List.take_of_length_le (by rwa [List.length_mergeSort])]
  exact (List.mergeSort_perm _ _).mem_iff

theorem of_mem_graphSources {s : Source × ℕ} (hs : s ∈ graphSources le owner t limit) :
    s.1 ∈ activeSources owner t := mem_graphSources (List.mem_map_of_mem hs)

theorem not_mem_edges_of_drop {e : RetrievalEdge} (he : e ∈ (retrievalRows le owner t).drop limit) :
    ¬∃ x ∈ (knowledgeGraph le owner t limit).edges, x.source = e.node ∧
      x.target = .source e.sourceId := by
  rintro ⟨x, hx, hsource, htarget⟩
  rcases mem_edges.mp hx with ⟨s, -, -, rfl⟩ | ⟨e', he', -, rfl⟩
  · unfold RetrievalEdge.node at hsource
    split at hsource <;> cases hsource
  · exact not_same_ends he he' hsource (NodeId.source.inj htarget)

theorem whole_iff (h : ¬Shortened le owner t limit) :
    Whole le owner t (knowledgeGraph le owner t limit) ↔ Spared le owner t limit := by
  unfold Shortened at h
  simp only [not_or, not_lt] at h
  obtain ⟨hcollections, hsources, hagents, -⟩ := h
  constructor
  · intro hwhole e he
    by_contra hspared
    simp only [not_or, not_and_or, not_forall, not_not] at hspared
    obtain ⟨⟨s, hs, hsid⟩, hnode⟩ := hspared
    obtain ⟨x, hx, rfl⟩ := exists_graphSource le hsources hs
    refine not_mem_edges_of_drop he (hwhole.retrieved e (List.mem_of_mem_drop he) ?_ ?_)
    · rw [requester_mem_ids]
      rcases hnode with ⟨a, ha, hnode⟩ | ⟨e', he', hnode⟩
      · exact .inl ⟨a, (mem_graphAgents hagents).mpr ha, hnode⟩
      · exact .inr ⟨e', he', hnode⟩
    · exact source_mem_ids.mpr ⟨x, hx, hsid⟩
  · intro hspared
    refine ⟨?_, ?_, ?_⟩
    · intro s hs
      obtain ⟨x, hx, rfl⟩ := exists_graphSource le hsources hs
      exact source_mem_ids.mpr ⟨x, hx, rfl⟩
    · intro s hs hc _
      obtain ⟨x, hx, rfl⟩ := exists_graphSource le hsources hs
      exact mem_edges.mpr (.inl ⟨x, hx, collection_mem_ids.mp hc, rfl⟩)
    · intro e he hnode hsource
      rw [← List.take_append_drop limit (retrievalRows le owner t), List.mem_append] at he
      rcases he with he | he
      · exact ⟨_, mem_edges.mpr (.inr ⟨e, he, source_mem_ids.mp hsource, rfl⟩), rfl, rfl⟩
      · exfalso
        rcases hspared e he with hnone | ⟨hnoagent, hnorow⟩
        · obtain ⟨s, hs, hsid⟩ := source_mem_ids.mp hsource
          exact hnone s.1 (of_mem_graphSources hs) hsid
        · rcases requester_mem_ids.mp hnode with ⟨a, ha, heq⟩ | ⟨e', he', heq⟩
          · exact hnoagent a ((mem_graphAgents hagents).mp ha) heq
          · exact hnorow e' he' heq

theorem WellDrawn.spared (hkeys : Keyed t) (h : WellDrawn le owner t limit) :
    Shortened le owner t limit ∨ Spared le owner t limit := by
  by_cases hshort : Shortened le owner t limit
  · exact .inl hshort
  · refine .inr ((whole_iff hshort).mp (h.whole ?_))
    rw [Bool.eq_false_iff]
    exact fun htruncated => hshort ((truncated_iff hkeys).mp htruncated)

/-- The graph is well drawn just if it says that it is cut, or the rows of retrievals beyond the limit
lead to no edge between its nodes. -/
theorem wellDrawn_iff (hkeys : Keyed t) :
    WellDrawn le owner t limit ↔ Shortened le owner t limit ∨ Spared le owner t limit := by
  constructor
  · exact fun h => h.spared hkeys
  · intro h
    refine ⟨nodup_ids hkeys, fun e he => connected_ids he, edges_add_dangling, within_totals hkeys, ?_⟩
    intro hwhole
    have hshort : ¬Shortened le owner t limit := by
      intro hshort
      rw [(truncated_iff hkeys).mpr hshort] at hwhole
      cases hwhole
    exact (whole_iff hshort).mpr (h.resolve_left hshort)

end Whole

section Cut

/-- Two sources, and two agents that have retrieved a chunk of each. -/
def twice : Store where
  collections := [⟨1, "c", "", .shared, "u", 0⟩]
  sources := [⟨2, 1, "a", "text", none, "", "", .active, none, "u"⟩,
    ⟨3, 1, "b", "text", none, "", "", .active, none, "u"⟩]
  jobs := []
  documents := [⟨4, 2, 0, "a", "", 1, .pending⟩, ⟨5, 3, 0, "b", "", 1, .pending⟩]
  chunks := [⟨6, 4, 0, "a", 0, none⟩, ⟨7, 5, 0, "b", 0, none⟩]
  nextId := 8
  retrievals := [⟨.agent, "x", none, 2, [6, 7], none, none, 0⟩,
    ⟨.agent, "y", none, 2, [6, 7], none, none, 0⟩]

def textLe (a b : String) : Bool := a ≤ b

theorem lastName_eq_none {rows : List Retrieved} (h : ∀ r ∈ rows, r.displayName = none) :
    lastName rows = none := by
  have hnil : (rows.mergeSort fun a b => b.createdAt ≤ a.createdAt).filterMap Retrieved.displayName =
      [] := by
    refine List.filterMap_eq_nil_iff.mpr fun r hr => h r ?_
    exact (List.mergeSort_perm _ _).mem_iff.mp hr
  rw [lastName, hnil]
  rfl

theorem keyed_twice : Keyed twice := ⟨by decide, by decide⟩

theorem wellDrawn_iff_twice : WellDrawn textLe none twice 4 ↔
    Shortened textLe none twice 4 ∨ Spared textLe none twice 4 := wellDrawn_iff keyed_twice

/-- With a limit of three the last of four edges is missing, and nothing says so. -/
theorem wellDrawn_cut : ¬WellDrawn textLe none twice 3 := by
  intro h
  have hrows : retrievalRows textLe none twice = [⟨"x", .agent, 2, 1, none⟩, ⟨"x", .agent, 3, 1, none⟩,
      ⟨"y", .agent, 2, 1, none⟩, ⟨"y", .agent, 3, 1, none⟩] := by
    have hnone : ∀ r ∈ retrievedWhere none twice, r.displayName = none := by decide +kernel
    have hgroups : ((groupBy (fun r => (r.requesterId, r.requesterType, r.hit.source.id))
        (retrievedWhere none twice)).map fun g =>
          (⟨g.1.1, g.1.2.1, g.1.2.2, g.2.length, lastName g.2⟩ : RetrievalEdge)) =
        (groupBy (fun r => (r.requesterId, r.requesterType, r.hit.source.id))
          (retrievedWhere none twice)).map fun g => ⟨g.1.1, g.1.2.1, g.1.2.2, g.2.length, none⟩ := by
      refine List.map_congr_left fun g hg => ?_
      obtain ⟨k, -, rfl⟩ := List.mem_map.mp hg
      rw [lastName_eq_none fun r hr => hnone r (List.mem_of_mem_filter hr)]
    rw [retrievalRows, hgroups, List.mergeSort_of_pairwise (by decide +kernel)]
    decide +kernel
  rcases h.spared keyed_twice with hshort | hspared
  · unfold Shortened at hshort
    rw [hrows] at hshort
    revert hshort
    decide +kernel
  · unfold Spared at hspared
    rw [hrows] at hspared
    revert hspared
    decide +kernel

end Cut

end Hill90.Knowledge.Shared
