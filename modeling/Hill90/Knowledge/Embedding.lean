import Mathlib.Data.Finset.Card
import Mathlib.Data.Finset.Range
import Mathlib.Data.List.Sort
import Hill90.Knowledge.Ingest

/-! # Vectors for the chunks

`embeddings.py` with its two transports, and the two places where its vectors are put beside texts: the
ingestion of a document and the backfill of one.
-/

namespace Hill90.Knowledge.Embedding

open Shared Ingest

structure Item where
  index : ℕ
  embedding : List ℚ
  deriving DecidableEq

/-- The data of an answer; none for a status other than 200 and for an error on the way. -/
abbrev EmbeddingReply := Option (List Item)

structure EmbeddingService where
  routerToken : Bool
  litellmKey : Bool
  router : EmbeddingReply
  litellm : EmbeddingReply

def viaModelRouter (reply : EmbeddingReply) : Option (List (List ℚ)) :=
  reply.map fun data => data.map Item.embedding

def viaLitellm (reply : EmbeddingReply) : Option (List (List ℚ)) :=
  reply.map fun data => data.map Item.embedding

def generateEmbeddings (s : EmbeddingService) (texts : List String) : Option (List (List ℚ)) :=
  if texts = [] then some []
  else
    match if s.routerToken then viaModelRouter s.router else none with
    | some result => some result
    | none => if s.litellmKey then viaLitellm s.litellm else none

def EmbeddingService.data (s : EmbeddingService) : List Item :=
  ((if s.routerToken then s.router else none).or (if s.litellmKey then s.litellm else none)).getD []

section Backfill

variable (t : Store) (document : ℕ)

def chunksMissingEmbeddings : List ChunkRow :=
  (t.chunks.filter fun r => r.documentId = document ∧ r.embedding = none).insertionSort
    fun a b => a.index ≤ b.index

def setChunkEmbeddings (pairs : List (ℕ × List ℚ)) : Store :=
  pairs.foldl (fun t p => { t with
    chunks := t.chunks.map fun r => if r.id = p.1 then { r with embedding := some p.2 } else r }) t

def statusOf : EmbeddingStatus :=
  embeddingStatusFor (t.chunks.countP fun r => r.documentId = document)
    (t.chunks.countP fun r => r.documentId = document ∧ r.embedding ≠ none)

def recomputeDocumentEmbeddingStatus : Store :=
  setDocument t document fun r => { r with embeddingStatus := statusOf t document }

variable (embed : List String → Option (List (List ℚ)))

def backfillDocument : Store :=
  let chunks := chunksMissingEmbeddings t document
  if chunks = [] then t
  else
    let vectors := embed (chunks.map ChunkRow.content)
    let pairs := (chunks.map ChunkRow.id).zip (vectors.getD [])
    recomputeDocumentEmbeddingStatus (setChunkEmbeddings t pairs) document

end Backfill

/-- Each item stands at the place of its index, or one with the same vector does. -/
def InPlace (data : List Item) : Prop :=
  ∀ item ∈ data, data[item.index]?.map Item.embedding = some item.embedding

section Answer

variable {data : List Item} {n : ℕ}

end Answer

section Rows

/-- What the updates make of one row. -/
def attach (r : ChunkRow) (pairs : List (ℕ × List ℚ)) : ChunkRow :=
  pairs.foldl (fun r p => if r.id = p.1 then { r with embedding := some p.2 } else r) r

theorem chunks_setChunkEmbeddings (t : Store) (pairs : List (ℕ × List ℚ)) :
    (setChunkEmbeddings t pairs).chunks = t.chunks.map fun r => attach r pairs := by
  induction pairs generalizing t with
  | nil => simp [setChunkEmbeddings, attach]
  | cons p pairs ih =>
    change (setChunkEmbeddings _ pairs).chunks = _
    rw [ih, List.map_map]
    rfl

theorem documents_setChunkEmbeddings (t : Store) (pairs : List (ℕ × List ℚ)) :
    (setChunkEmbeddings t pairs).documents = t.documents := by
  induction pairs generalizing t with
  | nil => rfl
  | cons p pairs ih => exact ih _

theorem attach_of_not_mem {r : ChunkRow} {ids : List ℕ} (h : r.id ∉ ids) (vectors : List (List ℚ)) :
    attach r (ids.zip vectors) = r := by
  induction ids generalizing vectors with
  | nil => rfl
  | cons id ids ih =>
    cases vectors with
    | nil => rfl
    | cons v vectors =>
      change attach (if r.id = id then _ else r) (ids.zip vectors) = r
      rw [if_neg fun heq : r.id = id => h (heq ▸ List.mem_cons_self)]
      exact ih (fun hmem => h (List.mem_cons_of_mem _ hmem)) vectors

theorem attach_getElem? {r : ChunkRow} {ids : List ℕ} (hids : ids.Nodup)
    (hr : r.embedding = none) {i : ℕ} (hi : ids[i]? = some r.id) (vectors : List (List ℚ)) :
    attach r (ids.zip vectors) = { r with embedding := vectors[i]? } := by
  induction ids generalizing vectors i with
  | nil => cases hi
  | cons id ids ih =>
    obtain ⟨hnew, hrest⟩ := List.nodup_cons.mp hids
    cases vectors with
    | nil => cases r; cases hr; rfl
    | cons v vectors =>
      cases i with
      | zero =>
        cases hi
        change attach (if r.id = r.id then _ else r) (ids.zip vectors) = _
        rw [if_pos rfl]
        exact attach_of_not_mem (r := { r with embedding := some v }) hnew vectors
      | succ i =>
        have hne : r.id ≠ id := by
          rintro rfl
          exact hnew (List.mem_of_getElem? hi)
        change attach (if r.id = id then _ else r) (ids.zip vectors) = _
        rw [if_neg hne]
        exact ih hrest hi vectors

variable {t : Store} {document : ℕ}

theorem mem_chunksMissingEmbeddings {r : ChunkRow} : r ∈ chunksMissingEmbeddings t document ↔
    r ∈ t.chunks ∧ r.documentId = document ∧ r.embedding = none := by
  rw [chunksMissingEmbeddings, (List.perm_insertionSort _ _).mem_iff, List.mem_filter,
    decide_eq_true_iff]

theorem nodup_missing (hids : (t.chunks.map ChunkRow.id).Nodup) (document : ℕ) :
    ((chunksMissingEmbeddings t document).map ChunkRow.id).Nodup := by
  have hperm := (List.perm_insertionSort (fun a b : ChunkRow => a.index ≤ b.index)
    (t.chunks.filter fun r => r.documentId = document ∧ r.embedding = none)).map ChunkRow.id
  refine hperm.nodup_iff.mpr ?_
  exact hids.sublist (List.filter_sublist.map _)

theorem chunks_backfillDocument (embed : List String → Option (List (List ℚ)))
    (h : chunksMissingEmbeddings t document ≠ []) :
    (backfillDocument t document embed).chunks = t.chunks.map fun r =>
      attach r (((chunksMissingEmbeddings t document).map ChunkRow.id).zip
        ((embed ((chunksMissingEmbeddings t document).map ChunkRow.content)).getD [])) := by
  unfold backfillDocument
  rw [if_neg h]
  exact chunks_setChunkEmbeddings t _

/-- The row of the chunk at a place of the request, once the backfill is through. -/
theorem attach_missing (hids : (t.chunks.map ChunkRow.id).Nodup) {i : ℕ} {r : ChunkRow}
    (hi : (chunksMissingEmbeddings t document)[i]? = some r) (vectors : List (List ℚ)) :
    attach r (((chunksMissingEmbeddings t document).map ChunkRow.id).zip vectors) =
      { r with embedding := vectors[i]? } := by
  obtain ⟨-, -, hnone⟩ := mem_chunksMissingEmbeddings.mp (List.mem_of_getElem? hi)
  exact attach_getElem? (nodup_missing hids document) hnone (by rw [List.getElem?_map, hi]; rfl) vectors

theorem id_attach (r : ChunkRow) (pairs : List (ℕ × List ℚ)) : (attach r pairs).id = r.id := by
  induction pairs generalizing r with
  | nil => rfl
  | cons p pairs ih =>
    change (attach (if r.id = p.1 then _ else r) pairs).id = _
    rw [ih]
    split <;> rfl

end Rows

section Fits


end Fits

end Hill90.Knowledge.Embedding
