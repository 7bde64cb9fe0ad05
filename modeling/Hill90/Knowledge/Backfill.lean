import Hill90.Foundation.Backlog
import Hill90.Knowledge.Embedding

/-! # Runs of the backfill

`backfill_embeddings` takes the oldest documents that miss a vector, at most `limit` of them, and asks
the embedder for each.
-/

namespace Hill90.Knowledge.Embedding

open Shared Ingest Backlog

def needs (t : Store) (document : ℕ) : Bool :=
  t.chunks.any fun r => r.documentId = document ∧ r.embedding = none

def documentsNeedingEmbeddings (t : Store) (limit : ℕ) : List ℕ :=
  ((t.documents.filter fun d => needs t d.id).take limit).map Document.id

section Source

variable (limit : ℕ)

def backfillEmbeddings (embed : ℕ → List String → Option (List (List ℚ))) (t : Store) : Store :=
  (documentsNeedingEmbeddings t limit).foldl (fun t d => backfillDocument t d (embed d)) t

variable (embedder : ℕ → ℕ → List String → Option (List (List ℚ)))

def backfillRuns (t : Store) : ℕ → Store
  | 0 => t
  | n + 1 => backfillEmbeddings limit (embedder n) (backfillRuns t n)

end Source

/-- In every run the embedder answers for the accepted documents in full, and for the others not at
all. -/
structure Partitioned (embedder : ℕ → ℕ → List String → Option (List (List ℚ)))
    (accepted : ℕ → Bool) : Prop where
  accepts : ∀ n d texts, accepted d = true →
    ((embedder n d texts).getD []).length = texts.length
  refuses : ∀ n d texts, accepted d = false → (embedder n d texts).getD [] = []

/-- Every document lacks a vector, and ids are of one row. -/
structure Incomplete (t : Store) : Prop where
  documents : (t.documents.map Document.id).Nodup
  chunks : (t.chunks.map ChunkRow.id).Nodup
  lacking : ∀ d ∈ t.documents, needs t d.id = true

structure Converges (accepted : ℕ → Bool) (run : ℕ → Store) (n : ℕ) : Prop where
  embedded : ∀ d ∈ (run n).documents, accepted d.id = true →
    (∀ r ∈ (run n).chunks, r.documentId = d.id → r.embedding ≠ none) ∧
      d.embeddingStatus = .embedded
  kept : ∀ k, ∀ r ∈ (run k).chunks, r.embedding ≠ none → r ∈ (run (k + 1)).chunks
  measured : ∀ d ∈ (run n).documents, d.embeddingStatus = statusOf (run n) d.id

/-- How many documents that are refused were created before the document. -/
def refusedBefore (t : Store) (accepted : ℕ → Bool) (d : ℕ) : ℕ :=
  badBefore (t.documents.map Document.id) accepted d

section Document

variable {t : Store} {document : ℕ} {embed : List String → Option (List (List ℚ))}

theorem needs_iff_missing : needs t document = true ↔ chunksMissingEmbeddings t document ≠ [] := by
  rw [needs, List.any_eq_true]
  constructor
  · rintro ⟨r, hr, hmiss⟩
    obtain ⟨hdoc, hnone⟩ := of_decide_eq_true hmiss
    exact List.ne_nil_of_mem (mem_chunksMissingEmbeddings.mpr ⟨hr, hdoc, hnone⟩)
  · intro h
    obtain ⟨r, hr⟩ := List.exists_mem_of_ne_nil _ h
    obtain ⟨hmem, hdoc, hnone⟩ := mem_chunksMissingEmbeddings.mp hr
    exact ⟨r, hmem, decide_eq_true ⟨hdoc, hnone⟩⟩

theorem attach_eq (r : ChunkRow) (pairs : List (ℕ × List ℚ)) :
    ∃ v, attach r pairs = { r with embedding := v } := by
  induction pairs generalizing r with
  | nil => exact ⟨r.embedding, rfl⟩
  | cons p pairs ih =>
    change ∃ v, attach (if r.id = p.1 then _ else r) pairs = _
    split
    · exact ih { r with embedding := some p.2 }
    · exact ih r

def pairsOf (t : Store) (document : ℕ) (embed : List String → Option (List (List ℚ))) :
    List (ℕ × List ℚ) :=
  ((chunksMissingEmbeddings t document).map ChunkRow.id).zip
    ((embed ((chunksMissingEmbeddings t document).map ChunkRow.content)).getD [])

theorem backfillDocument_chunks :
    (backfillDocument t document embed).chunks =
      t.chunks.map fun r => attach r (pairsOf t document embed) := by
  by_cases h : chunksMissingEmbeddings t document = []
  · have hpairs : pairsOf t document embed = [] := by rw [pairsOf, h]; rfl
    rw [hpairs, backfillDocument, if_pos h]
    exact (List.map_id t.chunks).symm
  · exact chunks_backfillDocument embed h

/-- A chunk that has its vector, or is of another document, is left alone. -/
theorem attach_pairsOf_of_not (hids : (t.chunks.map ChunkRow.id).Nodup) {r : ChunkRow}
    (hr : r ∈ t.chunks) (h : ¬(r.documentId = document ∧ r.embedding = none)) :
    attach r (pairsOf t document embed) = r := by
  refine attach_of_not_mem ?_ _
  intro hmem
  obtain ⟨other, hother, hid⟩ := List.mem_map.mp hmem
  obtain ⟨hother, hdoc, hnone⟩ := mem_chunksMissingEmbeddings.mp hother
  have hsame := List.inj_on_of_nodup_map hids hother hr hid
  exact h (hsame ▸ ⟨hdoc, hnone⟩)

/-- A chunk has a vector once its document is through, just if it had one or the embedder accepts. -/
theorem attach_pairsOf_embedding (hids : (t.chunks.map ChunkRow.id).Nodup) {accepted : Bool}
    (haccepts : accepted = true → ∀ texts, ((embed texts).getD []).length = texts.length)
    (hrefuses : accepted = false → ∀ texts, (embed texts).getD [] = []) {r : ChunkRow}
    (hr : r ∈ t.chunks) : (attach r (pairsOf t document embed)).embedding ≠ none ↔
      r.embedding ≠ none ∨ (r.documentId = document ∧ accepted = true) := by
  by_cases h : r.documentId = document ∧ r.embedding = none
  · obtain ⟨i, hi⟩ := List.mem_iff_getElem?.mp (mem_chunksMissingEmbeddings.mpr ⟨hr, h⟩)
    have hlt := (List.getElem?_eq_some_iff.mp hi).1
    rw [pairsOf, attach_missing hids hi]
    dsimp only
    cases haccepted : accepted with
    | true =>
      have hlength := haccepts haccepted ((chunksMissingEmbeddings t document).map ChunkRow.content)
      rw [List.length_map] at hlength
      rw [List.getElem?_eq_getElem (by omega)]
      simp [h.1]
    | false =>
      rw [hrefuses haccepted]
      simp [h.2]
  · rw [attach_pairsOf_of_not hids hr h]
    constructor
    · exact Or.inl
    · rintro (hsome | ⟨hdoc, -⟩)
      · exact hsome
      · exact fun hnone => h ⟨hdoc, hnone⟩

theorem backfillDocument_documents (h : needs t document = true) :
    (backfillDocument t document embed).documents = t.documents.map fun d =>
      if d.id = document then
        { d with embeddingStatus := statusOf (backfillDocument t document embed) document }
      else d := by
  have hne := needs_iff_missing.mp h
  unfold backfillDocument
  rw [if_neg hne]
  change (setDocument (setChunkEmbeddings t _) document _).documents = _
  rw [setDocument, documents_setChunkEmbeddings]
  rfl

theorem statusOf_congr {u : Store} {f : ChunkRow → ChunkRow} (hchunks : u.chunks = t.chunks.map f)
    (hdoc : ∀ r ∈ t.chunks, (f r).documentId = r.documentId)
    (hsame : ∀ r ∈ t.chunks, r.documentId = document →
      ((f r).embedding ≠ none ↔ r.embedding ≠ none)) :
    statusOf u document = statusOf t document := by
  unfold statusOf
  rw [hchunks, List.countP_map, List.countP_map]
  congr 1
  · refine List.countP_congr fun r hr => ?_
    simp [hdoc r hr]
  · refine List.countP_congr fun r hr => ?_
    simp only [Function.comp_apply, decide_eq_true_iff, hdoc r hr]
    exact and_congr_right fun h => hsame r hr h

end Document

section Progress

variable {t₀ t : Store} {accepted : ℕ → Bool} {done : ℕ → Bool}

structure Progress (t₀ : Store) (accepted done : ℕ → Bool) (t : Store) : Prop where
  chunks : ∃ f : ChunkRow → ChunkRow, t.chunks = t₀.chunks.map f ∧ ∀ r ∈ t₀.chunks,
    (f r).id = r.id ∧ (f r).documentId = r.documentId ∧ ((f r).embedding ≠ none ↔
      r.embedding ≠ none ∨ (accepted r.documentId = true ∧ done r.documentId = true))
  documents : t.documents = t₀.documents.map fun d =>
    if done d.id then { d with embeddingStatus := statusOf t d.id } else d

theorem Progress.start (t₀ : Store) (accepted : ℕ → Bool) :
    Progress t₀ accepted (fun _ => false) t₀ := by
  refine ⟨⟨id, (List.map_id _).symm, fun r _ => ⟨rfl, rfl, ?_⟩⟩, ?_⟩
  · simp
  · exact (List.map_id _).symm

theorem Progress.ids (h : Progress t₀ accepted done t) :
    t.chunks.map ChunkRow.id = t₀.chunks.map ChunkRow.id := by
  obtain ⟨f, hf, hrow⟩ := h.chunks
  rw [hf, List.map_map]
  exact List.map_congr_left fun r hr => (hrow r hr).1

theorem Progress.documentIds (h : Progress t₀ accepted done t) :
    t.documents.map Document.id = t₀.documents.map Document.id := by
  rw [h.documents, List.map_map]
  refine List.map_congr_left fun d _ => ?_
  rw [Function.comp_apply]
  split <;> rfl

theorem Progress.needs_eq (h : Progress t₀ accepted done t) {d : ℕ} (hd : needs t₀ d = true) :
    needs t d = !(accepted d && done d) := by
  obtain ⟨f, hf, hrow⟩ := h.chunks
  rw [Bool.eq_iff_iff, needs, hf, List.any_map, List.any_eq_true]
  constructor
  · rintro ⟨r, hr, hmiss⟩
    obtain ⟨hdoc, hnone⟩ := of_decide_eq_true hmiss
    obtain ⟨-, hdoc', hiff⟩ := hrow r hr
    have hrdoc : r.documentId = d := hdoc'.symm.trans hdoc
    rw [← hrdoc]
    by_contra hthrough
    have hboth : accepted r.documentId = true ∧ done r.documentId = true := by
      simpa using hthrough
    exact hiff.mpr (.inr hboth) hnone
  · intro hopen
    obtain ⟨r, hr, hmiss⟩ := List.any_eq_true.mp hd
    obtain ⟨hdoc, hnone⟩ := of_decide_eq_true hmiss
    obtain ⟨-, hdoc', hiff⟩ := hrow r hr
    refine ⟨r, hr, decide_eq_true ⟨hdoc'.trans hdoc, ?_⟩⟩
    by_contra hsome
    rcases hiff.mp hsome with hsome | ⟨hacc, hdone⟩
    · exact hsome hnone
    · rw [hdoc] at hacc hdone
      simp [hacc, hdone] at hopen

variable {embed : List String → Option (List (List ℚ))} {d : ℕ}

/-- One document of a run. -/
theorem Progress.step (hids : (t₀.chunks.map ChunkRow.id).Nodup)
    (h : Progress t₀ accepted done t) (hd : needs t₀ d = true)
    (haccepts : accepted d = true → ∀ texts, ((embed texts).getD []).length = texts.length)
    (hrefuses : accepted d = false → ∀ texts, (embed texts).getD [] = []) :
    Progress t₀ accepted (fun x => done x || x = d) (backfillDocument t d embed) := by
  by_cases hneeds : needs t d = true
  · have hids' : (t.chunks.map ChunkRow.id).Nodup := h.ids ▸ hids
    obtain ⟨f, hf, hrow⟩ := h.chunks
    have hmem : ∀ r ∈ t₀.chunks, f r ∈ t.chunks := fun r hr => hf ▸ List.mem_map_of_mem hr
    constructor
    · refine ⟨fun r => attach (f r) (pairsOf t d embed), ?_, ?_⟩
      · rw [backfillDocument_chunks, hf, List.map_map]
        rfl
      · intro r hr
        obtain ⟨hid, hdoc, hiff⟩ := hrow r hr
        obtain ⟨v, hv⟩ := attach_eq (f r) (pairsOf t d embed)
        refine ⟨(congrArg ChunkRow.id hv).trans hid, (congrArg ChunkRow.documentId hv).trans hdoc, ?_⟩
        dsimp only
        rw [attach_pairsOf_embedding hids' haccepts hrefuses (hmem r hr), hiff, hdoc]
        by_cases heq : r.documentId = d
        · simp [heq]
          tauto
        · simp [heq]
    · rw [backfillDocument_documents hneeds, h.documents, List.map_map]
      refine List.map_congr_left fun x _ => ?_
      have hid : (if done x.id = true then { x with embeddingStatus := statusOf t x.id }
          else x).id = x.id := by split <;> rfl
      rw [Function.comp_apply, hid]
      by_cases heq : x.id = d
      · subst heq
        have hpos : (done x.id || decide (x.id = x.id)) = true := by simp
        rw [if_pos rfl, if_pos hpos]
        split <;> rfl
      · rw [if_neg heq]
        have hstatus : statusOf (backfillDocument t d embed) x.id = statusOf t x.id := by
          refine statusOf_congr backfillDocument_chunks (fun r _ => ?_) fun r hr hx => ?_
          · obtain ⟨v, hv⟩ := attach_eq r (pairsOf t d embed)
            rw [hv]
          · rw [attach_pairsOf_of_not hids' hr fun hmiss => heq (hx.symm.trans hmiss.1)]
        simp [heq, hstatus]
  · -- nothing is asked for a document that is through
    have hthrough : accepted d = true ∧ done d = true := by
      have heq := h.needs_eq hd
      simpa [hneeds] using heq
    have hsame : backfillDocument t d embed = t := by
      rw [backfillDocument, if_pos (not_not.mp fun hne => hneeds (needs_iff_missing.mpr hne))]
    have hdone : (fun x => done x || decide (x = d)) = done := by
      funext x
      by_cases heq : x = d
      · simp [heq, hthrough.2]
      · simp [heq]
    rw [hsame, hdone]
    exact h

theorem Progress.foldl {embed : ℕ → List String → Option (List (List ℚ))}
    (hids : (t₀.chunks.map ChunkRow.id).Nodup)
    (haccepts : ∀ d, accepted d = true → ∀ texts, ((embed d texts).getD []).length = texts.length)
    (hrefuses : ∀ d, accepted d = false → ∀ texts, (embed d texts).getD [] = []) (work : List ℕ)
    (hwork : ∀ d ∈ work, needs t₀ d = true) (h : Progress t₀ accepted done t) :
    Progress t₀ accepted (fun x => done x || x ∈ work)
      (work.foldl (fun t d => backfillDocument t d (embed d)) t) := by
  induction work generalizing done t with
  | nil => simpa using h
  | cons d work ih =>
    have hstep := h.step hids (hwork d List.mem_cons_self) (haccepts d) (hrefuses d)
    have hrest := ih (fun x hx => hwork x (List.mem_cons_of_mem _ hx)) hstep
    have hdone : (fun x => done x || decide (x ∈ d :: work)) =
        fun x => done x || decide (x = d) || decide (x ∈ work) := by
      funext x
      simp [Bool.or_assoc]
    rw [hdone]
    exact hrest

end Progress

section Runs

variable {t₀ : Store} {accepted : ℕ → Bool} {limit : ℕ}
  {embedder : ℕ → ℕ → List String → Option (List (List ℚ))}

theorem documentsNeedingEmbeddings_eq (h₀ : Incomplete t₀) {done : ℕ → Bool} {t : Store}
    (h : Progress t₀ accepted done t) : documentsNeedingEmbeddings t limit =
      window (t₀.documents.map Document.id) accepted limit done := by
  unfold documentsNeedingEmbeddings window waiting
  have hfilter : (t.documents.filter fun d => needs t d.id).map Document.id =
      (t.documents.map Document.id).filter fun d => needs t d := by
    rw [List.filter_map]
    rfl
  rw [List.map_take, hfilter, h.documentIds]
  congr 1
  refine List.filter_congr fun d hd => ?_
  obtain ⟨x, hx, rfl⟩ := List.mem_map.mp hd
  exact h.needs_eq (h₀.lacking x hx)

theorem needs_of_window (h₀ : Incomplete t₀) {done : ℕ → Bool} {d : ℕ}
    (hd : d ∈ window (t₀.documents.map Document.id) accepted limit done) : needs t₀ d = true := by
  obtain ⟨x, hx, rfl⟩ := List.mem_map.mp (List.mem_of_mem_filter (List.mem_of_mem_take hd))
  exact h₀.lacking x hx

theorem progress_runs (limit : ℕ) (h₀ : Incomplete t₀) (hpart : Partitioned embedder accepted) (n : ℕ) :
    Progress t₀ accepted (rounds (t₀.documents.map Document.id) accepted limit n)
      (backfillRuns limit embedder t₀ n) := by
  induction n with
  | zero => exact Progress.start t₀ accepted
  | succ n ih =>
    have hwork : documentsNeedingEmbeddings (backfillRuns limit embedder t₀ n) limit = _ :=
      documentsNeedingEmbeddings_eq h₀ ih
    have hrun := ih.foldl h₀.chunks (fun d hd texts => hpart.accepts n d texts hd)
      (fun d hd texts => hpart.refuses n d texts hd)
      (documentsNeedingEmbeddings (backfillRuns limit embedder t₀ n) limit)
      fun d hd => needs_of_window h₀ (hwork ▸ hd)
    have hround : rounds (t₀.documents.map Document.id) accepted limit (n + 1) = fun x =>
        rounds (t₀.documents.map Document.id) accepted limit n x ||
          decide (x ∈ documentsNeedingEmbeddings (backfillRuns limit embedder t₀ n) limit) := by
      rw [hwork]
      rfl
    rw [hround]
    exact hrun

/-- A run leaves every chunk that has a vector as it is. -/
theorem mem_foldl_backfillDocument {embed : ℕ → List String → Option (List (List ℚ))}
    (work : List ℕ) {t : Store} (hids : (t.chunks.map ChunkRow.id).Nodup) {r : ChunkRow}
    (hr : r ∈ t.chunks) (hsome : r.embedding ≠ none) :
    r ∈ (work.foldl (fun t d => backfillDocument t d (embed d)) t).chunks := by
  induction work generalizing t with
  | nil => exact hr
  | cons d work ih =>
    apply ih
    · rw [backfillDocument_chunks, List.map_map]
      have hmap : t.chunks.map (ChunkRow.id ∘ fun r => attach r (pairsOf t d (embed d))) =
          t.chunks.map ChunkRow.id := List.map_congr_left fun r _ => id_attach r _
      rwa [hmap]
    · rw [backfillDocument_chunks]
      exact List.mem_map.mpr ⟨r, hr, attach_pairsOf_of_not hids hr fun h => hsome h.2⟩

theorem Progress.embedded {t : Store} {done : ℕ → Bool} (h : Progress t₀ accepted done t) {d : ℕ}
    (hacc : accepted d = true) (hdone : done d = true) :
    (∀ r ∈ t.chunks, r.documentId = d → r.embedding ≠ none) ∧ statusOf t d = .embedded := by
  obtain ⟨f, hf, hrow⟩ := h.chunks
  have hall : ∀ r ∈ t.chunks, r.documentId = d → r.embedding ≠ none := by
    intro r hr hdoc
    rw [hf] at hr
    obtain ⟨r₀, hr₀, rfl⟩ := List.mem_map.mp hr
    obtain ⟨-, hdoc', hiff⟩ := hrow r₀ hr₀
    rw [hdoc'] at hdoc
    exact hiff.mpr (.inr ⟨hdoc ▸ hacc, hdoc ▸ hdone⟩)
  refine ⟨hall, ?_⟩
  have hcount : (t.chunks.countP fun r => r.documentId = d ∧ r.embedding ≠ none) =
      t.chunks.countP fun r => r.documentId = d := by
    refine List.countP_congr fun r hr => ?_
    simp only [decide_eq_true_iff]
    exact ⟨And.left, fun hdoc => ⟨hdoc, hall r hr hdoc⟩⟩
  rw [statusOf, hcount, embeddingStatusFor, if_pos le_rfl]

/-- Without a vector to come, the status that is computed stays the same. -/
theorem Progress.statusOf_eq {t : Store} {done : ℕ → Bool} (h : Progress t₀ accepted done t) {d : ℕ}
    (hopen : ¬(accepted d = true ∧ done d = true)) : statusOf t d = statusOf t₀ d := by
  obtain ⟨f, hf, hrow⟩ := h.chunks
  refine statusOf_congr hf (fun r hr => (hrow r hr).2.1) fun r hr hdoc => ?_
  rw [(hrow r hr).2.2, hdoc]
  exact or_iff_left hopen

theorem Progress.mem_documents {t : Store} {done : ℕ → Bool} (h : Progress t₀ accepted done t)
    {d : Document} : d ∈ t.documents ↔ ∃ x ∈ t₀.documents,
      (if done x.id then { x with embeddingStatus := statusOf t x.id } else x) = d := by
  rw [h.documents, List.mem_map]

theorem Progress.of_mem_documents {t : Store} {done : ℕ → Bool} (h : Progress t₀ accepted done t)
    {d : Document} (hd : d ∈ t.documents) : ∃ x ∈ t₀.documents, d.id = x.id ∧
      d.embeddingStatus = if done x.id then statusOf t x.id else x.embeddingStatus := by
  obtain ⟨x, hx, rfl⟩ := h.mem_documents.mp hd
  refine ⟨x, hx, ?_, ?_⟩ <;> split <;> rfl

theorem rounds_eq_true_iff (h₀ : Incomplete t₀) {d : Document} (hd : d ∈ t₀.documents) :
    rounds (t₀.documents.map Document.id) accepted limit t₀.documents.length d.id = true ↔
      refusedBefore t₀ accepted d.id < limit := by
  have h := @rounds_length_iff _ _ _ accepted limit _ h₀.documents
    (List.mem_map_of_mem (f := Document.id) hd)
  rwa [List.length_map] at h

/-- A document the window never reaches is refused, and had the right status from the start. -/
theorem Converges.room (h₀ : Incomplete t₀) (hpart : Partitioned embedder accepted)
    (hconv : Converges accepted (backfillRuns limit embedder t₀) t₀.documents.length)
    {d : Document} (hd : d ∈ t₀.documents) : refusedBefore t₀ accepted d.id < limit ∨
      (accepted d.id = false ∧ d.embeddingStatus = statusOf t₀ d.id) := by
  have hprogress := progress_runs limit h₀ hpart t₀.documents.length
  by_cases hroom : refusedBefore t₀ accepted d.id < limit
  · exact .inl hroom
  right
  have hnot := mt (rounds_eq_true_iff h₀ hd).mp hroom
  have hmem : d ∈ (backfillRuns limit embedder t₀ t₀.documents.length).documents :=
    hprogress.mem_documents.mpr ⟨d, hd, if_neg hnot⟩
  constructor
  · cases hacc : accepted d.id with
    | false => rfl
    | true =>
      -- a chunk that lacked its vector still does
      have hneeds := hprogress.needs_eq (h₀.lacking d hd)
      rw [Bool.not_eq_true] at hnot
      rw [hnot, Bool.and_false, Bool.not_false, needs, List.any_eq_true] at hneeds
      obtain ⟨r, hr, hmiss⟩ := hneeds
      obtain ⟨hdoc, hnone⟩ := of_decide_eq_true hmiss
      exact absurd hnone ((hconv.embedded d hmem hacc).1 r hr hdoc)
  · rw [hconv.measured d hmem]
    exact hprogress.statusOf_eq fun h => hnot h.2

/-- As many runs as there are documents lead where they should just if the window has room for every
accepted document behind the refused ones, and each refused document without room has the right
status from the start. -/
theorem converges_iff (h₀ : Incomplete t₀) (hpart : Partitioned embedder accepted) :
    Converges accepted (backfillRuns limit embedder t₀) t₀.documents.length ↔
      ∀ d ∈ t₀.documents, refusedBefore t₀ accepted d.id < limit ∨
        (accepted d.id = false ∧ d.embeddingStatus = statusOf t₀ d.id) := by
  have hprogress := progress_runs limit h₀ hpart t₀.documents.length
  constructor
  · intro hconv d hd
    exact hconv.room h₀ hpart hd
  · intro hroom
    constructor
    · intro d hd hacc
      obtain ⟨x, hx, hid, hstatus⟩ := hprogress.of_mem_documents hd
      rw [hid] at hacc ⊢
      rcases hroom x hx with hroom | ⟨hrefused, -⟩
      · have hdone := (rounds_eq_true_iff h₀ hx).mpr hroom
        obtain ⟨hall, hembedded⟩ := hprogress.embedded hacc hdone
        exact ⟨hall, by rw [hstatus, if_pos hdone, hembedded]⟩
      · rw [hacc] at hrefused
        cases hrefused
    · intro k r hr hsome
      have hids := (progress_runs limit h₀ hpart k).ids ▸ h₀.chunks
      exact mem_foldl_backfillDocument _ hids hr hsome
    · intro d hd
      obtain ⟨x, hx, hid, hstatus⟩ := hprogress.of_mem_documents hd
      rw [hid, hstatus]
      split
      · rfl
      · rename_i hnot
        rcases hroom x hx with hroom | ⟨hrefused, hright⟩
        · exact absurd ((rounds_eq_true_iff h₀ hx).mpr hroom) hnot
        · rw [hright]
          exact (hprogress.statusOf_eq fun h => hnot h.2).symm

end Runs

section Two

/-- Two documents of one chunk each. -/
def twoDocuments : Store where
  collections := []
  sources := []
  jobs := []
  documents := [⟨1, 0, 0, "a", "", 1, .pending⟩, ⟨2, 0, 0, "b", "", 1, .pending⟩]
  chunks := [⟨3, 1, 0, "a", 0, none⟩, ⟨4, 2, 0, "b", 0, none⟩]
  nextId := 5

def secondAccepted (d : ℕ) : Bool := d = 2

def embedSecond (_ d : ℕ) (texts : List String) : Option (List (List ℚ)) :=
  if d = 2 then some (texts.map fun _ => []) else none

theorem incomplete_two : Incomplete twoDocuments :=
  ⟨by decide, by decide, by decide +kernel⟩

theorem partitioned_second : Partitioned embedSecond secondAccepted := by
  constructor
  · intro n d texts h
    obtain rfl : d = 2 := of_decide_eq_true h
    simp [embedSecond]
  · intro n d texts h
    have hne : d ≠ 2 := of_decide_eq_false h
    simp [embedSecond, hne]

theorem converges_iff_two :
    Converges secondAccepted (backfillRuns 2 embedSecond twoDocuments) twoDocuments.documents.length ↔
      ∀ d ∈ twoDocuments.documents, refusedBefore twoDocuments secondAccepted d.id < 2 ∨
        (secondAccepted d.id = false ∧ d.embeddingStatus = statusOf twoDocuments d.id) :=
  converges_iff incomplete_two partitioned_second

/-- With one document a run, the refused one is taken each time. -/
theorem converges_blocked :
    ¬Converges secondAccepted (backfillRuns 1 embedSecond twoDocuments) twoDocuments.documents.length := by
  intro h
  have hroom := h.room incomplete_two partitioned_second
    (d := ⟨2, 0, 0, "b", "", 1, .pending⟩) (List.mem_cons_of_mem _ List.mem_cons_self)
  revert hroom
  decide +kernel

end Two

end Hill90.Knowledge.Embedding
