import Mathlib.Data.List.Range
import Mathlib.Data.Nat.Notation

/-! # The text chunker

`text_chunker.py` splits a text at headings and paragraphs and merges the paragraphs into chunks that
overlap.  The regular expressions that split are any functions here.
-/

namespace Hill90.Knowledge

structure Chunk where
  index : ℕ
  content : List Char
  tokenEstimate : ℕ
  deriving DecidableEq, Repr

/-- `re.split(r"\n\s*\n", text)`, and the texts between the headings. -/
structure Splitter where
  paragraphs : List Char → List (List Char)
  sections : List Char → List (List Char)

def charsPerToken : ℕ := 4

def targetTokens : ℕ := 500

def overlapTokens : ℕ := 50

def maxSourceSize : ℕ := 100 * 1024

def estimateTokens (text : List Char) : ℕ :=
  if text.isEmpty then 0 else max 1 (text.length / charsPerToken)

/-- `text[-n:]`, where `text[-0:]` is the whole text. -/
def lastChars (n : ℕ) (text : List Char) : List Char :=
  if n = 0 then text else text.drop (text.length - n)

def joined (parts : List (List Char)) : List Char := ['\n', '\n'].intercalate parts

/-- The loop of `_merge_paragraphs_into_chunks`. -/
structure Merge where
  chunks : List Chunk := []
  parts : List (List Char) := []
  tokens : ℕ := 0

namespace Merge

variable (target overlap : ℕ) (m : Merge)

/-- A chunk is appended, and its tail is the first part of the next. -/
def emit (content : List Char) (tokens : ℕ) : Merge :=
  let tail := lastChars (overlap * charsPerToken) content
  { chunks := m.chunks ++ [⟨m.chunks.length, content, tokens⟩]
    parts := [tail]
    tokens := estimateTokens tail }

def add (para : List Char) : Merge :=
  { m with parts := m.parts ++ [para], tokens := m.tokens + estimateTokens para }

def step (para : List Char) : Merge :=
  if estimateTokens para > target ∧ m.parts = [] then m.emit overlap para (estimateTokens para)
  else if m.parts ≠ [] ∧ m.tokens + estimateTokens para > target then
    let text := joined m.parts
    (m.emit overlap text (estimateTokens text)).add para
  else m.add para

/-- The last chunk, unless it is the overlap of the one before. -/
def finish : List Chunk :=
  if m.parts = [] then m.chunks
  else
    let text := joined m.parts
    let last : Chunk := ⟨m.chunks.length, text, estimateTokens text⟩
    match m.chunks.getLast? with
    | some prev =>
      if text ≠ lastChars text.length prev.content then m.chunks ++ [last] else m.chunks
    | none => m.chunks ++ [last]

end Merge

def mergeParagraphsIntoChunks (target overlap : ℕ) (paragraphs : List (List Char)) : List Chunk :=
  (paragraphs.foldl (Merge.step target overlap) {}).finish

def chunkText (re : Splitter) (text : List Char) : List Chunk :=
  mergeParagraphsIntoChunks targetTokens overlapTokens (re.paragraphs text)

def chunkMarkdown (re : Splitter) (text : List Char) : List Chunk :=
  mergeParagraphsIntoChunks targetTokens overlapTokens ((re.sections text).flatMap re.paragraphs)

def Indexed (chunks : List Chunk) : Prop := chunks.map Chunk.index = List.range chunks.length

section Indexed

variable {target overlap : ℕ} {m : Merge} {chunks : List Chunk}

theorem Indexed.concat (h : Indexed chunks) (content : List Char) (tokens : ℕ) :
    Indexed (chunks ++ [⟨chunks.length, content, tokens⟩]) := by
  unfold Indexed at h ⊢
  simp [h, List.range_succ]

theorem indexed_step (h : Indexed m.chunks) (para : List Char) :
    Indexed (m.step target overlap para).chunks := by
  unfold Merge.step
  split
  · exact h.concat _ _
  · split
    · exact h.concat _ _
    · exact h

theorem indexed_finish (h : Indexed m.chunks) : Indexed m.finish := by
  unfold Merge.finish
  split
  · exact h
  · split
    · dsimp only
      split
      · exact h.concat _ _
      · exact h
    · exact h.concat _ _

theorem indexed_mergeParagraphs (paragraphs : List (List Char)) :
    Indexed (mergeParagraphsIntoChunks target overlap paragraphs) := by
  apply indexed_finish
  have hfold : ∀ m : Merge, Indexed m.chunks →
      Indexed (paragraphs.foldl (Merge.step target overlap) m).chunks := by
    induction paragraphs with
    | nil =>
      intro m h
      exact h
    | cons para paragraphs ih =>
      intro m h
      exact ih _ (indexed_step h para)
  exact hfold {} rfl

end Indexed

end Hill90.Knowledge
