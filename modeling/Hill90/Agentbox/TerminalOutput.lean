import Hill90.Foundation.Base64
import Hill90.Foundation.Pieces

/-! # The output of a command in the terminal log

The loop of `execute_and_log` over the chunks that the terminal yields: what is buffered is written as
an event, and decoded for the result.
-/

namespace Hill90.Agentbox.TerminalOutput

open Utf8 (Bytes)

def coalesceMs : ℕ := 200

def flushSize : ℕ := 8192

def stdoutLimit : ℕ := 100000

structure PtyResult where
  exitCode : ℤ
  timedOut : Bool
  deriving DecidableEq

/-- A chunk, with the clock in milliseconds when it has been yielded. -/
structure Chunk where
  data : Bytes
  now : ℕ
  deriving DecidableEq

structure State where
  buffer : Bytes := []
  lastFlush : ℕ
  written : List (List Char) := []
  stdoutParts : List (List Char) := []
  deriving DecidableEq

inductive Answer where
  | timedOut (error : String)
  | finished (success : Bool) (exitCode : ℤ) (stdout : List Char)
  deriving DecidableEq

section Source

def shouldFlush (buffer : Bytes) (lastFlush now : ℕ) : Bool :=
  buffer.contains 10 || flushSize ≤ buffer.length || coalesceMs ≤ now - lastFlush

def flush (s : State) : State :=
  { s with
    buffer := []
    written := s.written ++ [Base64.encode s.buffer]
    stdoutParts := s.stdoutParts ++ [Utf8.decode s.buffer] }

def onChunk (s : State) (chunk : Chunk) : State :=
  let s := { s with buffer := s.buffer ++ chunk.data }
  if shouldFlush s.buffer s.lastFlush chunk.now ∧ s.buffer ≠ [] then
    { flush s with lastFlush := chunk.now }
  else s

def log (start : ℕ) (chunks : List Chunk) : State :=
  let s := chunks.foldl onChunk { lastFlush := start }
  if s.buffer ≠ [] then flush s else s

def State.stdoutText (s : State) : List Char := s.stdoutParts.flatten.take stdoutLimit

/-- A terminal that fails has no result. -/
def executeAndLog (timeout start : ℕ) (chunks : List Chunk) (result : Option PtyResult) :
    List (List Char) × Answer :=
  let s := log start chunks
  let result := result.getD ⟨-1, false⟩
  (s.written,
    if result.timedOut then .timedOut s!"Timed out after {timeout}s"
    else .finished (result.exitCode = 0) result.exitCode s.stdoutText)

end Source

section Definitions

variable (start : ℕ) (chunks : List Chunk)

def stream : Bytes := (chunks.map Chunk.data).flatten

structure Faithful (chunks : List Chunk) (s : State) : Prop where
  events : s.written.mapM Base64.decode = some (s.written.filterMap Base64.decode) ∧
    (s.written.filterMap Base64.decode).flatten = stream chunks
  text : s.stdoutText = (Utf8.decode (stream chunks)).take stdoutLimit

/-- Where the stream is cut: what is in the buffer, the time of the last flush, and the chunks that are
to come. -/
def pieces : Bytes → ℕ → List Chunk → List Bytes
  | buffer, _, [] => if buffer ≠ [] then [buffer] else []
  | buffer, lastFlush, chunk :: chunks =>
    if shouldFlush (buffer ++ chunk.data) lastFlush chunk.now ∧ buffer ++ chunk.data ≠ [] then
      (buffer ++ chunk.data) :: pieces [] chunk.now chunks
    else pieces (buffer ++ chunk.data) lastFlush chunks

end Definitions

variable {chunks : List Chunk}

theorem flatten_pieces (buffer : Bytes) (lastFlush : ℕ) (chunks : List Chunk) :
    (pieces buffer lastFlush chunks).flatten = buffer ++ stream chunks := by
  induction chunks generalizing buffer lastFlush with
  | nil =>
    rw [pieces]
    split
    · simp [stream]
    · next hnil => simp [stream, not_not.mp hnil]
  | cons chunk chunks ih =>
    have hstream : stream (chunk :: chunks) = chunk.data ++ stream chunks := rfl
    rw [pieces, hstream, ← List.append_assoc]
    split
    · rw [List.flatten_cons, ih, List.nil_append]
    · rw [ih]

theorem foldl_onChunk (chunks : List Chunk) (s : State) :
    let out := chunks.foldl onChunk s
    let out := if out.buffer ≠ [] then flush out else out
    out.written = s.written ++ (pieces s.buffer s.lastFlush chunks).map Base64.encode ∧
      out.stdoutParts = s.stdoutParts ++ (pieces s.buffer s.lastFlush chunks).map Utf8.decode := by
  induction chunks generalizing s with
  | nil =>
    dsimp only [List.foldl_nil, pieces]
    split
    · exact ⟨rfl, rfl⟩
    · exact ⟨(List.append_nil _).symm, (List.append_nil _).symm⟩
  | cons chunk chunks ih =>
    have hnext := ih (onChunk s chunk)
    dsimp only [List.foldl_cons] at hnext ⊢
    obtain ⟨hwritten, hparts⟩ := hnext
    rw [hwritten, hparts, pieces]
    unfold onChunk
    dsimp only
    split
    · simp [flush]
    · exact ⟨rfl, rfl⟩

theorem log_spec (start : ℕ) (chunks : List Chunk) :
    (log start chunks).written = (pieces [] start chunks).map Base64.encode ∧
      (log start chunks).stdoutParts = (pieces [] start chunks).map Utf8.decode :=
  foldl_onChunk chunks { lastFlush := start }

theorem mapM_decode (bs : List Bytes) :
    (bs.map Base64.encode).mapM Base64.decode = some bs := by
  induction bs with
  | nil => rfl
  | cons b bs ih => rw [List.map_cons, List.mapM_cons, Base64.decode_encode, ih]; rfl

theorem filterMap_decode (bs : List Bytes) : (bs.map Base64.encode).filterMap Base64.decode = bs := by
  induction bs with
  | nil => rfl
  | cons b bs ih => rw [List.map_cons, List.filterMap_cons, Base64.decode_encode, ih]

/-- The log is faithful exactly where no flush divides a character of the text up to the limit, or
only one from which on it has nothing but replacements. -/
theorem faithful_iff (start : ℕ) (chunks : List Chunk) :
    Faithful chunks (log start chunks) ↔ Utf8.Unnoticed stdoutLimit (pieces [] start chunks) := by
  obtain ⟨hwritten, hparts⟩ := log_spec start chunks
  have hstream : (pieces [] start chunks).flatten = stream chunks := flatten_pieces [] start chunks
  rw [← Utf8.take_pieces_iff, hstream]
  constructor
  · intro h
    have htext := h.text
    rwa [State.stdoutText, hparts] at htext
  · intro h
    refine ⟨⟨?_, ?_⟩, ?_⟩
    · rw [hwritten, mapM_decode, filterMap_decode]
    · rw [hwritten, filterMap_decode, hstream]
    · rwa [State.stdoutText, hparts]

/-- Half of a character arrives 200 ms after the command has started, and the rest of it after that. -/
theorem divided_character : ¬∀ (start : ℕ) (chunks : List Chunk),
    Faithful chunks (log start chunks) := by
  intro h
  have htext := (h 0 [⟨[0xC3], 200⟩, ⟨[0xA9], 201⟩]).text
  revert htext
  decide

end Hill90.Agentbox.TerminalOutput
