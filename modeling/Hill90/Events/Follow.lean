import Hill90.Events.Value
import Mathlib.Data.List.Forall2

/-! # The events of a thread, followed

`GET /threads/:id/events` reads the log of an agent as it grows: a listener gets the bytes in
chunks of any size, keeps the line that has not ended, and forwards the events whose correlation id
is that of a message of the thread.  The one-shot mode selects them from all the bytes at once.
-/

namespace Hill90.Events

open Utf8 Json

variable {ν : Type} (js : Runtime ν) (threadMessageIds : List String)

/-- `event.correlation_id || event.metadata?.message_id`. -/
def cid (event : Json ν) : Except Thrown (Option (Json ν)) :=
  match event.property "correlation_id", event.property "metadata" with
  | .ok correlationId, .ok metadata =>
    .ok (orElse js correlationId (property? metadata "message_id"))
  | _, _ => .error .typeError

/-- `cid && threadMessageIds.has(cid)`. -/
def isKnown : Option (Json ν) → Bool
  | some (.text s) => s ≠ "" && threadMessageIds.contains s
  | _ => false

/-- One listener: `sent` are the events it has written, and `threw` says that an exception has left
it, after which it gets no chunk. -/
structure Follower (ν : Type) where
  buffer : List Char := []
  sent : List (Json ν) := []
  threw : Bool := false

/-- The loop over the lines of a chunk; only `JSON.parse` is inside its `try`. -/
def handleLines (sent : List (Json ν)) : List (List Char) → List (Json ν) × Bool
  | [] => (sent, false)
  | line :: lines =>
    if trim line = [] then handleLines sent lines
    else match js.parse (trim line) with
      | none => handleLines sent lines
      | some event =>
        match cid js event with
        | .error _ => (sent, true)
        | .ok c =>
          handleLines (if isKnown threadMessageIds c then sent ++ [event] else sent) lines

/-- The lines that have ended, and the one that has not. -/
def complete (text : List Char) : List (List Char) := (split text).dropLast

def remaining (text : List Char) : List Char := (split text).getLast?.getD []

/-- `stream.on('data', ...)`. -/
def Follower.onData (s : Follower ν) (chunk : Bytes) : Follower ν :=
  if s.threw then s
  else
    let buffer := s.buffer ++ decode chunk
    let handled := handleLines js threadMessageIds s.sent (complete buffer)
    ⟨remaining buffer, handled.1, handled.2⟩

/-- `stream.on('end', ...)`, all of it inside a `try`. -/
def Follower.onEnd (s : Follower ν) : Follower ν :=
  if s.threw || trim s.buffer = [] then s
  else match js.parse (trim s.buffer) with
    | none => s
    | some event =>
      match cid js event with
      | .error _ => s
      | .ok c => if isKnown threadMessageIds c then { s with sent := s.sent ++ [event] } else s

def follow (chunks : List Bytes) : Follower ν :=
  chunks.foldl (Follower.onData js threadMessageIds) {}

def correlated (event : Json ν) : Bool :=
  match cid js event with
  | .ok c => isKnown threadMessageIds c
  | .error _ => false

def threadEvents (rawBuf : Bytes) : List (Json ν) :=
  (containerEvents js rawBuf).filter (correlated js threadMessageIds)

/-! ## What is selected from a text -/

def selectLine (line : List Char) : Option (Json ν) :=
  if trim line = [] then none
  else (js.parse (trim line)).filter (correlated js threadMessageIds)

def select (lines : List (List Char)) : List (Json ν) :=
  lines.filterMap (selectLine js threadMessageIds)

/-- No line holds the value `null`. -/
def NoNull (lines : List (List Char)) : Prop :=
  ∀ line ∈ lines, trim line ≠ [] → ∀ event, js.parse (trim line) = some event →
    event.isNull = false

def seen (chunks : List Bytes) : List Char := (chunks.map decode).flatten

/-- Line by line, no cut shows in what the listener sees of the bytes, or the line is selected
neither with the cut nor without it. -/
def Legible (chunks : List Bytes) : Prop :=
  List.Forall₂
    (fun line line' => line = line' ∨
      selectLine js threadMessageIds line = none ∧ selectLine js threadMessageIds line' = none)
    (split (seen chunks)) (split (decode chunks.flatten))

/-- The listener has thrown nothing, has forwarded the events of the complete lines of the bytes,
and forwards at the end what the one-shot mode selects. -/
structure Robust (chunks : List Bytes) : Prop where
  noThrow : (follow js threadMessageIds chunks).threw = false
  forwards : (follow js threadMessageIds chunks).sent =
    select js threadMessageIds (complete (decode chunks.flatten))
  ends : ((follow js threadMessageIds chunks).onEnd js threadMessageIds).threw = false ∧
    ((follow js threadMessageIds chunks).onEnd js threadMessageIds).sent =
      threadEvents js threadMessageIds chunks.flatten

/-- The listener is where the text of its chunks has brought it. -/
structure Tracks (s : Follower ν) (text : List Char) : Prop where
  noThrow : s.threw = false
  buffer : s.buffer = remaining text
  sent : s.sent = select js threadMessageIds (complete text)

section Lines

theorem split_ne_nil (text : List Char) : split text ≠ [] := by
  cases text with
  | nil => simp [split]
  | cons c cs =>
    unfold split
    split
    · simp
    · split <;> simp

theorem split_eq (text : List Char) : split text = complete text ++ [remaining text] := by
  have h := split_ne_nil text
  rw [complete, remaining, List.getLast?_eq_some_getLast h, Option.getD_some,
    List.dropLast_append_getLast]

/-- What follows continues the line that had not ended. -/
theorem split_append (a b : List Char) :
    split (a ++ b) = complete a ++ split (remaining a ++ b) := by
  induction a with
  | nil => rfl
  | cons c cs ih =>
    by_cases hc : c = '\n'
    · have hsplit : split (c :: cs) = [] :: split cs := by simp [split, hc]
      have hcomplete : complete (c :: cs) = [] :: complete cs := by
        rw [complete, hsplit, List.dropLast_cons_of_ne_nil (split_ne_nil cs), ← complete]
      have hremaining : remaining (c :: cs) = remaining cs := by
        rw [remaining, hsplit, remaining, List.getLast?_cons_of_ne_nil (split_ne_nil cs)]
      rw [hcomplete, hremaining, List.cons_append, List.cons_append, ← ih]
      simp [split, hc]
    · cases hcs : complete cs with
      | nil =>
        have hsplit : split (c :: cs) = [c :: remaining cs] := by
          rw [split, if_neg hc, split_eq cs, hcs]
          rfl
        have hcomplete : complete (c :: cs) = [] := by rw [complete, hsplit]; rfl
        have hremaining : remaining (c :: cs) = c :: remaining cs := by
          rw [remaining, hsplit]; rfl
        rw [hcomplete, hremaining, List.nil_append, List.cons_append, List.cons_append, split,
          if_neg hc, ih, hcs, List.nil_append, split, if_neg hc]
      | cons line lines =>
        have hsplit : split (c :: cs) = ((c :: line) :: lines) ++ [remaining cs] := by
          rw [split, if_neg hc, split_eq cs, hcs]
          rfl
        have hcomplete : complete (c :: cs) = (c :: line) :: lines := by
          rw [complete, hsplit, List.dropLast_concat]
        have hremaining : remaining (c :: cs) = remaining cs := by
          rw [remaining, hsplit, List.getLast?_concat]; rfl
        rw [hcomplete, hremaining, List.cons_append, split, if_neg hc, ih, hcs]
        rfl

theorem complete_append (a b : List Char) :
    complete (a ++ b) = complete a ++ complete (remaining a ++ b) := by
  rw [complete, split_append, List.dropLast_append_of_ne_nil (split_ne_nil _), ← complete]

theorem remaining_append (a b : List Char) :
    remaining (a ++ b) = remaining (remaining a ++ b) := by
  rw [remaining, split_append, List.getLast?_append_of_ne_nil _ (split_ne_nil _), ← remaining]

end Lines

section Handling

variable {js threadMessageIds}

theorem cid_ok {event : Json ν} (h : event.isNull = false) : ∃ c, cid js event = .ok c := by
  cases event with
  | null => cases h
  | _ => exact ⟨_, rfl⟩

theorem select_cons (line : List Char) (lines : List (List Char)) :
    select js threadMessageIds (line :: lines) =
      (selectLine js threadMessageIds line).toList ++ select js threadMessageIds lines := by
  cases hline : selectLine js threadMessageIds line <;> simp [select, hline]

theorem selectLine_of_parse {line : List Char} {event : Json ν} (hblank : trim line ≠ [])
    (hparse : js.parse (trim line) = some event) :
    selectLine js threadMessageIds line =
      if correlated js threadMessageIds event then some event else none := by
  rw [selectLine, if_neg hblank, hparse, Option.filter_some]

/-- Where no line holds `null` the loop forwards what is selected. -/
theorem handleLines_noNull {lines : List (List Char)} (h : NoNull js lines)
    (sent : List (Json ν)) :
    handleLines js threadMessageIds sent lines =
      (sent ++ select js threadMessageIds lines, false) := by
  induction lines generalizing sent with
  | nil => simp [handleLines, select]
  | cons line lines ih =>
    have hlines : NoNull js lines := fun l hl => h l (List.mem_cons_of_mem _ hl)
    by_cases hblank : trim line = []
    · simp [handleLines, hblank, ih hlines, select_cons, selectLine]
    · cases hparse : js.parse (trim line) with
      | none => simp [handleLines, hblank, hparse, ih hlines, select_cons, selectLine]
      | some event =>
        obtain ⟨c, hc⟩ : ∃ c, cid js event = .ok c :=
          cid_ok (h line List.mem_cons_self hblank event hparse)
        have hcorrelated : correlated js threadMessageIds event = isKnown threadMessageIds c := by
          rw [correlated, hc]
        have hline : selectLine js threadMessageIds line =
            if correlated js threadMessageIds event then some event else none :=
          selectLine_of_parse hblank hparse
        cases hknown : isKnown threadMessageIds c with
        | false =>
          simp [handleLines, hblank, hparse, hc, ih hlines, select_cons, hline, hcorrelated, hknown]
        | true =>
          simp [handleLines, hblank, hparse, hc, ih hlines, select_cons, hline, hcorrelated, hknown]

/-- A loop that threw nothing has met no `null`. -/
theorem noNull_of_handleLines {lines : List (List Char)} {sent : List (Json ν)}
    (h : (handleLines js threadMessageIds sent lines).2 = false) : NoNull js lines := by
  induction lines generalizing sent with
  | nil => intro line hline; cases hline
  | cons line lines ih =>
    intro l hl hblank event hparse
    unfold handleLines at h
    by_cases hblank' : trim line = []
    · rw [if_pos hblank'] at h
      rcases List.mem_cons.mp hl with rfl | hl
      · exact absurd hblank' hblank
      · exact ih h l hl hblank event hparse
    · rw [if_neg hblank'] at h
      split at h
      · rename_i hnone
        rcases List.mem_cons.mp hl with rfl | hl
        · rw [hnone] at hparse; cases hparse
        · exact ih h l hl hblank event hparse
      · rename_i event' hsome
        split at h
        · cases h
        · rename_i c hc
          rcases List.mem_cons.mp hl with rfl | hl
          · obtain rfl : event' = event := Option.some.inj (hsome.symm.trans hparse)
            cases event' with
            | null => cases hc
            | _ => rfl
          · exact ih h l hl hblank event hparse

theorem NoNull.of_append {text more : List Char} (h : NoNull js (complete (text ++ more))) :
    NoNull js (complete text) ∧ NoNull js (complete (remaining text ++ more)) := by
  rw [complete_append] at h
  exact ⟨fun l hl => h l (List.mem_append_left _ hl), fun l hl => h l (List.mem_append_right _ hl)⟩

theorem Tracks.onData {s : Follower ν} {text : List Char} {chunk : Bytes}
    (hs : Tracks js threadMessageIds s text)
    (h : NoNull js (complete (remaining text ++ decode chunk))) :
    Tracks js threadMessageIds (s.onData js threadMessageIds chunk) (text ++ decode chunk) := by
  have hdata : s.onData js threadMessageIds chunk =
      ⟨remaining (remaining text ++ decode chunk),
        s.sent ++ select js threadMessageIds (complete (remaining text ++ decode chunk)), false⟩ := by
    simp [Follower.onData, hs.noThrow, hs.buffer, handleLines_noNull h]
  rw [hdata]
  refine ⟨rfl, (remaining_append _ _).symm, ?_⟩
  change s.sent ++ select js threadMessageIds (complete (remaining text ++ decode chunk)) = _
  rw [hs.sent, complete_append text, select, select, select, List.filterMap_append]

theorem threw_onData {s : Follower ν} (h : s.threw = true) (chunks : List Bytes) :
    (chunks.foldl (Follower.onData js threadMessageIds) s).threw = true := by
  induction chunks generalizing s with
  | nil => exact h
  | cons chunk chunks ih =>
    have hstay : s.onData js threadMessageIds chunk = s := by simp [Follower.onData, h]
    rw [List.foldl_cons, hstay]
    exact ih h

theorem tracks_foldl {s : Follower ν} {text : List Char}
    (hs : Tracks js threadMessageIds s text) (chunks : List Bytes)
    (h : NoNull js (complete (text ++ (chunks.map decode).flatten))) :
    Tracks js threadMessageIds (chunks.foldl (Follower.onData js threadMessageIds) s)
      (text ++ (chunks.map decode).flatten) := by
  induction chunks generalizing s text with
  | nil => simpa using hs
  | cons chunk chunks ih =>
    rw [List.map_cons, List.flatten_cons, ← List.append_assoc] at h ⊢
    exact ih (hs.onData h.of_append.1.of_append.2) h

theorem noNull_of_foldl {s : Follower ν} {text : List Char}
    (hs : Tracks js threadMessageIds s text)
    (htext : NoNull js (complete text)) (chunks : List Bytes)
    (h : (chunks.foldl (Follower.onData js threadMessageIds) s).threw = false) :
    NoNull js (complete (text ++ (chunks.map decode).flatten)) := by
  induction chunks generalizing s text with
  | nil => simpa using htext
  | cons chunk chunks ih =>
    rw [List.map_cons, List.flatten_cons, ← List.append_assoc]
    rw [List.foldl_cons] at h
    have hnext : (s.onData js threadMessageIds chunk).threw = false := by
      cases hthrew : (s.onData js threadMessageIds chunk).threw with
      | false => rfl
      | true => rw [threw_onData hthrew] at h; cases h
    have hlines : NoNull js (complete (remaining text ++ decode chunk)) := by
      refine noNull_of_handleLines
        (?_ : (handleLines js threadMessageIds s.sent _).2 = false)
      simpa [Follower.onData, hs.noThrow, hs.buffer] using hnext
    refine ih (hs.onData hlines) ?_ h
    intro l hl
    rw [complete_append] at hl
    rcases List.mem_append.mp hl with hl | hl
    · exact htext l hl
    · exact hlines l hl

theorem Tracks.onEnd {s : Follower ν} {text : List Char}
    (hs : Tracks js threadMessageIds s text) :
    (s.onEnd js threadMessageIds).threw = false ∧
      (s.onEnd js threadMessageIds).sent = select js threadMessageIds (split text) := by
  have hsplit : select js threadMessageIds (split text) =
      s.sent ++ (selectLine js threadMessageIds (remaining text)).toList := by
    rw [split_eq, hs.sent, select, select, List.filterMap_append]
    cases hline : selectLine js threadMessageIds (remaining text) <;> simp [hline]
  rw [hsplit, ← hs.buffer]
  by_cases hblank : trim s.buffer = []
  · simp [Follower.onEnd, hs.noThrow, hblank, selectLine]
  · cases hparse : js.parse (trim s.buffer) with
    | none => simp [Follower.onEnd, hs.noThrow, hblank, selectLine, hparse]
    | some event =>
      cases hc : cid js event with
      | error e =>
        have hcorrelated : correlated js threadMessageIds event = false := by rw [correlated, hc]
        simp [Follower.onEnd, hs.noThrow, hblank, selectLine_of_parse hblank hparse, hparse, hc,
          hcorrelated]
      | ok c =>
        have hcorrelated : correlated js threadMessageIds event = isKnown threadMessageIds c := by
          rw [correlated, hc]
        cases hknown : isKnown threadMessageIds c with
        | false =>
          simp [Follower.onEnd, hs.noThrow, hblank, selectLine_of_parse hblank hparse, hparse, hc,
            hcorrelated, hknown]
        | true =>
          simp [Follower.onEnd, hs.noThrow, hblank, selectLine_of_parse hblank hparse, hparse, hc,
            hcorrelated, hknown]

theorem threadEvents_eq (rawBuf : Bytes) :
    threadEvents js threadMessageIds rawBuf =
      select js threadMessageIds (split (decode rawBuf)) := by
  unfold threadEvents
  rw [containerEvents_eq, parsedLines, trimmedLines]
  generalize split (decode rawBuf) = lines
  induction lines with
  | nil => rfl
  | cons line lines ih =>
    by_cases hblank : trim line = []
    · simpa [hblank, select_cons, selectLine] using ih
    · cases hparse : js.parse (trim line) with
      | none => simpa [hblank, hparse, select_cons, selectLine] using ih
      | some event =>
        cases hnull : event.isNull with
        | true =>
          have hcorrelated : correlated js threadMessageIds event = false := by
            cases event with
            | null => rfl
            | _ => cases hnull
          simpa [hblank, hparse, select_cons, selectLine_of_parse hblank hparse, hnull,
            hcorrelated] using ih
        | false =>
          cases hcorrelated : correlated js threadMessageIds event with
          | false =>
            simpa [hblank, hparse, select_cons, selectLine_of_parse hblank hparse, hnull,
              hcorrelated] using ih
          | true =>
            simpa [hblank, hparse, select_cons, selectLine_of_parse hblank hparse, hnull,
              hcorrelated] using ih

end Handling

theorem tracks_start : Tracks js threadMessageIds {} [] :=
  ⟨rfl, rfl, rfl⟩

variable {js threadMessageIds}

theorem select_eq {lines lines' : List (List Char)}
    (h : List.Forall₂
      (fun line line' => line = line' ∨
        selectLine js threadMessageIds line = none ∧ selectLine js threadMessageIds line' = none)
      lines lines') :
    select js threadMessageIds lines = select js threadMessageIds lines' := by
  induction h with
  | nil => rfl
  | cons hline hlines ih =>
    rw [select_cons, select_cons, ih]
    rcases hline with rfl | ⟨hnone, hnone'⟩
    · rfl
    · rw [hnone, hnone']

/-- Where the cuts do not show, what the listener sees selects as the bytes do. -/
theorem Legible.select_eq {chunks : List Bytes} (h : Legible js threadMessageIds chunks) :
    select js threadMessageIds (complete (seen chunks)) =
        select js threadMessageIds (complete (decode chunks.flatten)) ∧
      select js threadMessageIds (split (seen chunks)) =
        select js threadMessageIds (split (decode chunks.flatten)) := by
  refine ⟨Events.select_eq ?_, Events.select_eq h⟩
  rw [complete, complete, List.dropLast_eq_take, List.dropLast_eq_take, h.length_eq]
  exact List.forall₂_take _ h

variable (js threadMessageIds)

/-- A listener that behaves has seen no line `null`; and where no cut shows it behaves exactly if
it has seen none. -/
theorem robust_iff (chunks : List Bytes) :
    (Robust js threadMessageIds chunks → NoNull js (complete (seen chunks))) ∧
    (NoNull js (complete (seen chunks)) ∧ Legible js threadMessageIds chunks →
      Robust js threadMessageIds chunks) := by
  constructor
  · intro h
    exact noNull_of_foldl (tracks_start js threadMessageIds) (fun l hl => by cases hl) chunks
      h.noThrow
  · rintro ⟨hnull, hlegible⟩
    have htracks : Tracks js threadMessageIds
        (follow js threadMessageIds chunks) (seen chunks) :=
      tracks_foldl (tracks_start js threadMessageIds) chunks hnull
    refine ⟨htracks.noThrow, htracks.sent.trans hlegible.select_eq.1, htracks.onEnd.1, ?_⟩
    rw [threadEvents_eq, ← hlegible.select_eq.2]
    exact htracks.onEnd.2

/-- The two bytes of one character, in two chunks. -/
example : seen [[0xC3], [0xA9]] ≠ decode [0xC3, 0xA9] := by decide +kernel

def nullLine : List Bytes := ["null\n".toList.map fun c => UInt8.ofNat c.toNat]

def nullRuntime : Runtime ℤ where
  parse line := if line = "null".toList then some .null else none
  isZero n := n = 0
  numberText := toString
  fixed n := toString n ++ ".0000"
  ofText s := s.toInt?.getD 0
  ofInt n := n
  isoString := toString
  collation := ⟨Ord.compare, inferInstance⟩

/-- The listener asks `null` for a member. -/
theorem nullLine_throws :
    ¬ ∀ (threadMessageIds : List String) (chunks : List Bytes),
      Robust nullRuntime threadMessageIds chunks := by
  intro h
  have hthrew : (follow nullRuntime [] nullLine).threw = true := by decide +kernel
  rw [(h [] nullLine).noThrow] at hthrew
  cases hthrew

end Hill90.Events
