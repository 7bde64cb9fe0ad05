import Hill90.Events.Value
import Hill90.Foundation.Sorting

/-! # The events of an agent, merged

The one-shot events route and the CSV export put the events of the container and the inference
events in the order of their timestamps and ids.  The comparison calls `localeCompare` on members
of any type: it has an answer for two events exactly where these members are texts or falsy.
-/

namespace Hill90.Events

open Utf8 Json

variable {ν : Type} (js : Runtime ν)

/-- A row of `model_usage` as the driver gives it: `createdAt` is a `Date`, in milliseconds. -/
structure InferenceRow where
  id : String
  modelName : String
  requestType : String
  status : String
  latencyMs : Option ℤ
  inputTokens : Option ℤ
  outputTokens : Option ℤ
  costUsd : Option String
  requestedModel : Option String
  providerModelId : Option String
  createdAt : ℤ
  deriving DecidableEq, Repr

def textOrNull : Option String → Json ν
  | none => .null
  | some s => .text s

def mapInferenceToEvent (row : InferenceRow) : Json ν :=
  let cost := js.ofText (row.costUsd.getD "0")
  .object [
    ("id", .text ("inference-" ++ row.id)),
    ("timestamp", .text (js.isoString row.createdAt)),
    ("type", .text (if row.status = "success" then "inference_complete"
      else "inference_" ++ row.status)),
    ("tool", .text "inference"),
    ("input_summary", .text (row.modelName ++ " (" ++ row.requestType ++ ")")),
    ("output_summary", .text (toString (row.inputTokens.getD 0) ++ "+" ++
      toString (row.outputTokens.getD 0) ++ " tokens, $" ++ js.fixed cost ++ ", " ++
      toString (row.latencyMs.getD 0) ++ "ms")),
    ("duration_ms", (row.latencyMs.map fun ms => .number (js.ofInt ms)).getD .null),
    ("success", .bool (row.status = "success")),
    ("metadata", .object [
      ("model_name", .text row.modelName),
      ("requested_model", textOrNull row.requestedModel),
      ("provider_model_id", textOrNull row.providerModelId),
      ("request_type", .text row.requestType),
      ("status", .text row.status),
      ("input_tokens", .number (js.ofInt (row.inputTokens.getD 0))),
      ("output_tokens", .number (js.ofInt (row.outputTokens.getD 0))),
      ("cost_usd", .number cost)])]

def compareMember (name : String) (a b : Json ν) : Except Thrown Ordering :=
  match a.property name, b.property name with
  | .ok v, .ok w =>
    localeCompare js ((orElse js v (some (.text ""))).getD .null)
      ((orElse js w (some (.text ""))).getD .null)
  | _, _ => .error .typeError

def compareEvents (a b : Json ν) : Except Thrown Ordering :=
  match compareMember js "timestamp" a b with
  | .error e => .error e
  | .ok .eq => compareMember js "id" a b
  | .ok o => .ok o

def mergeEvents (rawBuf : Bytes) (inferenceRows : List InferenceRow) :
    Except Thrown (List (Json ν)) :=
  Sorting.sort (compareEvents js)
    (containerEvents js rawBuf ++ inferenceRows.map (mapInferenceToEvent js))

inductive Reply (α : Type) where
  | ok (body : α)
  | failed (status : ℕ) (error : String)
  deriving DecidableEq, Repr

def oneShot (rawBuf : Bytes) (inferenceRows : List InferenceRow) : Reply (List (Json ν)) :=
  match mergeEvents js rawBuf inferenceRows with
  | .ok merged => .ok merged
  | .error _ => .failed 500 "Failed to merge events"

def csvHeaders : List String :=
  ["timestamp", "type", "tool", "success", "duration_ms", "input_summary", "output_summary"]

def cellText : Option (Json ν) → Option String
  | none | some .null => some ""
  | some value => value.text? js

def escapeCsv (s : String) : String :=
  if s.toList.any fun c => c = ',' || c = '"' || c = '\n' then
    String.ofList ('"' :: s.toList.flatMap (fun c => if c = '"' then ['"', '"'] else [c]) ++ ['"'])
  else s

def csvCell (event : Json ν) (header : String) : Except Thrown String :=
  match event.property header with
  | .error e => .error e
  | .ok val =>
    match cellText js val with
    | some s => .ok (escapeCsv s)
    | none => .error .typeError

def csvCells (event : Json ν) : List String → Except Thrown (List String)
  | [] => .ok []
  | header :: headers =>
    match csvCell js event header with
    | .error e => .error e
    | .ok cell => (csvCells event headers).map (cell :: ·)

def csvRows : List (Json ν) → Except Thrown (List String)
  | [] => .ok []
  | event :: events =>
    match csvCells js event csvHeaders with
    | .error e => .error e
    | .ok cells => (csvRows events).map (String.intercalate "," cells :: ·)

def csvText (rows : List String) : String :=
  String.intercalate "\n" (String.intercalate "," csvHeaders :: rows)

def exportEvents (rawBuf : Bytes) (inferenceRows : List InferenceRow) : Reply String :=
  match mergeEvents js rawBuf inferenceRows with
  | .error _ => .failed 500 "Failed to export events"
  | .ok merged =>
    match csvRows js merged with
    | .error _ => .failed 500 "Failed to export events"
    | .ok rows => .ok (csvText rows)

/-! ## The order of the events -/

/-- The text a member is compared by: none where the member is truthy and no text. -/
def key (name : String) (event : Json ν) : Option String :=
  match event.property name with
  | .error _ => none
  | .ok v =>
    match orElse js v (some (.text "")) with
    | some (.text s) => some s
    | _ => none

/-- Both timestamps are texts or falsy and, where these compare equal, so are both ids. -/
def Comparable (a b : Json ν) : Prop :=
  ∃ s t, key js "timestamp" a = some s ∧ key js "timestamp" b = some t ∧
    (js.collation.compare s t = .eq →
      (key js "id" a).isSome = true ∧ (key js "id" b).isSome = true)

/-- The timestamp of `a` comes first, or the timestamps are equal and the id of `b` does not. -/
def InOrder (a b : Json ν) : Prop :=
  ∃ s t, key js "timestamp" a = some s ∧ key js "timestamp" b = some t ∧
    (js.collation.compare s t = .lt ∨ js.collation.compare s t = .eq ∧
      ∃ i j, key js "id" a = some i ∧ key js "id" b = some j ∧ (js.collation.compare i j).isLE)

theorem InOrder.comparable {a b : Json ν} (h : InOrder js a b) : Comparable js a b := by
  obtain ⟨s, t, hs, ht, hlt | ⟨-, i, j, hi, hj, -⟩⟩ := h
  · exact ⟨s, t, hs, ht, fun heq => by rw [hlt] at heq; cases heq⟩
  · exact ⟨s, t, hs, ht, fun _ => by simp [hi, hj]⟩

theorem Comparable.symm {a b : Json ν} (h : Comparable js a b) : Comparable js b a := by
  have := js.collation.transCmp
  obtain ⟨s, t, hs, ht, hids⟩ := h
  exact ⟨t, s, ht, hs, fun heq => (hids (Std.OrientedCmp.eq_symm heq)).symm⟩

theorem InOrder.trans {a b c : Json ν} (hab : InOrder js a b) (hbc : InOrder js b c) :
    InOrder js a c := by
  have := js.collation.transCmp
  obtain ⟨s, t, hs, ht, h₁⟩ := hab
  obtain ⟨t', u, ht', hu, h₂⟩ := hbc
  obtain rfl : t = t' := Option.some.inj (ht.symm.trans ht')
  refine ⟨s, u, hs, hu, ?_⟩
  rcases h₁ with hlt | ⟨heq, i, j, hi, hj, hij⟩
  · rcases h₂ with hlt' | ⟨heq', -⟩
    · exact .inl (Std.TransCmp.lt_trans hlt hlt')
    · exact .inl (Std.TransCmp.lt_of_lt_of_eq hlt heq')
  · rcases h₂ with hlt' | ⟨heq', j', k, hj', hk, hjk⟩
    · exact .inl (Std.TransCmp.lt_of_eq_of_lt heq hlt')
    · obtain rfl : j = j' := Option.some.inj (hj.symm.trans hj')
      exact .inr ⟨Std.TransCmp.eq_trans heq heq', i, k, hi, hk, Std.TransCmp.isLE_trans hij hjk⟩

/-- Where both members have a key the comparison is that of the keys. -/
theorem compareMember_of_keys {name s t : String} {a b : Json ν} (ha : key js name a = some s)
    (hb : key js name b = some t) :
    compareMember js name a b = .ok (js.collation.compare s t) := by
  have hkey : ∀ {e : Json ν} {r : String}, key js name e = some r →
      ∃ v, e.property name = .ok v ∧ orElse js v (some (.text "")) = some (.text r) := by
    intro e r h
    unfold key at h
    split at h
    · cases h
    · rename_i v hv
      split at h
      · rename_i r' hr
        cases h
        exact ⟨v, hv, hr⟩
      · cases h
  obtain ⟨v, hv, hs⟩ := hkey ha
  obtain ⟨w, hw, ht⟩ := hkey hb
  simp [compareMember, hv, hw, hs, ht, localeCompare, text?]

theorem compareEvents_decides :
    Sorting.Decides (compareEvents js) (Comparable js) (InOrder js) where
  symm _ _ h := h.symm
  trans _ _ _ hab hbc := hab.trans js hbc
  decides a b h := by
    have := js.collation.transCmp
    obtain ⟨s, t, hs, ht, hids⟩ := h
    have htimestamp := compareMember_of_keys js hs ht
    cases hst : js.collation.compare s t with
    | lt =>
      rw [hst] at htimestamp
      exact .inl ⟨by simp [compareEvents, htimestamp], s, t, hs, ht, .inl hst⟩
    | gt =>
      rw [hst] at htimestamp
      exact .inr ⟨.gt, by simp, by simp [compareEvents, htimestamp],
        t, s, ht, hs, .inl (Std.OrientedCmp.lt_of_gt hst)⟩
    | eq =>
      rw [hst] at htimestamp
      obtain ⟨hi, hj⟩ := hids hst
      obtain ⟨i, hi⟩ := Option.isSome_iff_exists.mp hi
      obtain ⟨j, hj⟩ := Option.isSome_iff_exists.mp hj
      have hcompare : compareEvents js a b = .ok (js.collation.compare i j) := by
        simp [compareEvents, htimestamp, compareMember_of_keys js hi hj]
      have hts := Std.OrientedCmp.eq_symm hst
      cases hij : js.collation.compare i j with
      | lt => exact .inl ⟨by rw [hcompare, hij], s, t, hs, ht, .inr ⟨hst, i, j, hi, hj, by simp [hij]⟩⟩
      | eq =>
        exact .inr ⟨.eq, by simp, by rw [hcompare, hij], t, s, ht, hs,
          .inr ⟨hts, j, i, hj, hi, by simp [Std.OrientedCmp.eq_symm hij]⟩⟩
      | gt =>
        exact .inr ⟨.gt, by simp, by rw [hcompare, hij], t, s, ht, hs,
          .inr ⟨hts, j, i, hj, hi, by simp [Std.OrientedCmp.lt_of_gt hij]⟩⟩

/-- Every two of the events are comparable, and none of them is `null`. -/
structure Mergeable (events : List (Json ν)) : Prop where
  comparable : events.Pairwise (Comparable js)
  noNull : ∀ e ∈ events, e.isNull = false

/-- Every column of the event has a text. -/
def Printable (event : Json ν) : Prop :=
  ∀ header ∈ csvHeaders, ∃ val, event.property header = .ok val ∧ (cellText js val).isSome = true

def read (rawBuf : Bytes) (inferenceRows : List InferenceRow) : List (Json ν) :=
  parsedLines js rawBuf ++ inferenceRows.map (mapInferenceToEvent js)

structure Merged (events out : List (Json ν)) : Prop where
  perm : out.Perm events
  sorted : out.Pairwise (InOrder js)

variable {js}

theorem Merged.comparable {events out : List (Json ν)} (h : Merged js events out) :
    events.Pairwise (Comparable js) :=
  (h.perm.pairwise_iff fun h => h.symm js).mp (h.sorted.imp fun h => h.comparable js)

theorem containerEvents_of_noNull {rawBuf : Bytes}
    (h : ∀ e ∈ parsedLines js rawBuf, e.isNull = false) :
    containerEvents js rawBuf = parsedLines js rawBuf := by
  rw [containerEvents_eq, List.filter_eq_self]
  intro e he
  simp [h e he]

theorem mapInferenceToEvent_noNull (row : InferenceRow) :
    (mapInferenceToEvent js row).isNull = false := rfl

/-- A merge that lost no line had no line `null`. -/
theorem noNull_of_perm {rawBuf : Bytes} {inferenceRows : List InferenceRow}
    {out : List (Json ν)} (hmerge : mergeEvents js rawBuf inferenceRows = .ok out)
    (hperm : out.Perm (read js rawBuf inferenceRows)) :
    ∀ e ∈ read js rawBuf inferenceRows, e.isNull = false := by
  intro e he
  have hcontainer : e ∈ containerEvents js rawBuf ++
      inferenceRows.map (mapInferenceToEvent js) :=
    (Sorting.sort_perm hmerge).mem_iff.mp (hperm.mem_iff.mpr he)
  rcases List.mem_append.mp hcontainer with hline | hrow
  · rw [containerEvents_eq] at hline
    simpa using (List.mem_filter.mp hline).2
  · obtain ⟨row, -, rfl⟩ := List.mem_map.mp hrow
    exact mapInferenceToEvent_noNull row

theorem merged_of_mergeable {rawBuf : Bytes} {inferenceRows : List InferenceRow}
    (h : Mergeable js (read js rawBuf inferenceRows)) :
    ∃ out, mergeEvents js rawBuf inferenceRows = .ok out ∧
      Merged js (read js rawBuf inferenceRows) out := by
  have hlines : containerEvents js rawBuf = parsedLines js rawBuf :=
    containerEvents_of_noNull fun e he => h.noNull e (List.mem_append_left _ he)
  obtain ⟨out, hout, hsorted⟩ := Sorting.sort_sorted (compareEvents_decides js) h.comparable
  exact ⟨out, by rw [mergeEvents, hlines]; exact hout, Sorting.sort_perm hout, hsorted⟩

theorem csvCells_ok {event : Json ν} {headers : List String} :
    (∃ cells, csvCells js event headers = .ok cells) ↔
      ∀ header ∈ headers, ∃ val, event.property header = .ok val ∧
        (cellText js val).isSome = true := by
  induction headers with
  | nil => simp [csvCells]
  | cons header headers ih =>
    rw [List.forall_mem_cons, ← ih]
    cases hval : event.property header with
    | error e => simp [csvCells, csvCell, hval]
    | ok val =>
      cases hcell : cellText js val with
      | none => simp [csvCells, csvCell, hval, hcell]
      | some s =>
        cases hrest : csvCells js event headers with
        | error e => simp [csvCells, csvCell, hval, hcell, hrest, Except.map]
        | ok cells => simp [csvCells, csvCell, hval, hcell, hrest, Except.map]

/-- The rows of a CSV are there exactly where every event has a text in every column. -/
theorem csvRows_ok {events : List (Json ν)} :
    (∃ rows, csvRows js events = .ok rows) ↔ ∀ event ∈ events, Printable js event := by
  induction events with
  | nil => simp [csvRows]
  | cons event events ih =>
    rw [List.forall_mem_cons, ← ih, Printable, ← csvCells_ok]
    cases hcells : csvCells js event csvHeaders with
    | error e => simp [csvRows, hcells]
    | ok cells =>
      cases hrest : csvRows js events with
      | error e => simp [csvRows, hcells, hrest, Except.map]
      | ok rows => simp [csvRows, hcells, hrest, Except.map]

theorem Printable.noNull {event : Json ν} (h : Printable js event) : event.isNull = false := by
  obtain ⟨val, hval, -⟩ := h "timestamp" (by simp [csvHeaders])
  cases event with
  | null => cases hval
  | _ => rfl

theorem oneShot_ok {rawBuf : Bytes} {inferenceRows : List InferenceRow} {out : List (Json ν)} :
    oneShot js rawBuf inferenceRows = .ok out ↔ mergeEvents js rawBuf inferenceRows = .ok out := by
  unfold oneShot
  split <;> simp [*]

variable (js)

/-- Both routes answer with every parsed line and every inference row, in order, exactly where
every two of these are comparable and none is `null`; for the CSV each column must also have a
text. -/
theorem merged_iff (rawBuf : Bytes) (inferenceRows : List InferenceRow) :
    ((∃ out, oneShot js rawBuf inferenceRows = .ok out ∧
        Merged js (read js rawBuf inferenceRows) out) ↔
      Mergeable js (read js rawBuf inferenceRows)) ∧
    ((∃ out rows, csvRows js out = .ok rows ∧
        exportEvents js rawBuf inferenceRows = .ok (csvText rows) ∧
        Merged js (read js rawBuf inferenceRows) out) ↔
      Mergeable js (read js rawBuf inferenceRows) ∧
        ∀ event ∈ read js rawBuf inferenceRows, Printable js event) := by
  refine ⟨⟨?_, ?_⟩, ?_, ?_⟩
  · rintro ⟨out, hok, hmerged⟩
    exact ⟨hmerged.comparable, noNull_of_perm (oneShot_ok.mp hok) hmerged.perm⟩
  · intro h
    obtain ⟨out, hout, hmerged⟩ := merged_of_mergeable h
    exact ⟨out, oneShot_ok.mpr hout, hmerged⟩
  · rintro ⟨out, rows, hrows, -, hmerged⟩
    have hprintable : ∀ event ∈ read js rawBuf inferenceRows, Printable js event :=
      fun event he => csvRows_ok.mp ⟨rows, hrows⟩ event (hmerged.perm.mem_iff.mpr he)
    exact ⟨⟨hmerged.comparable, fun e he => (hprintable e he).noNull⟩, hprintable⟩
  · rintro ⟨h, hprintable⟩
    obtain ⟨out, hout, hmerged⟩ := merged_of_mergeable h
    obtain ⟨rows, hrows⟩ := csvRows_ok.mpr fun event he =>
      hprintable event (hmerged.perm.mem_iff.mp he)
    exact ⟨out, rows, hrows, by simp [exportEvents, hout, hrows], hmerged⟩

/-- A log of two lines, each with a number for its timestamp. -/
def numbered : Bytes :=
  "\x7b\"timestamp\":1\x7d\n\x7b\"timestamp\":2\x7d\n".toList.map fun c => UInt8.ofNat c.toNat

theorem transCmp_compare : Std.TransCmp (Ord.compare : String → String → Ordering) := inferInstance

def numberedRuntime : Runtime ℕ where
  parse line :=
    if line = "\x7b\"timestamp\":1\x7d".toList then some (.object [("timestamp", .number 1)])
    else if line = "\x7b\"timestamp\":2\x7d".toList then some (.object [("timestamp", .number 2)])
    else none
  isZero n := n = 0
  numberText := toString
  fixed n := toString n ++ ".0000"
  ofText s := s.toNat?.getD 0
  ofInt := Int.toNat
  isoString := toString
  collation := ⟨Ord.compare, transCmp_compare⟩

def Reply.isOk {α : Type} : Reply α → Bool
  | .ok _ => true
  | .failed .. => false

/-- A number has no `localeCompare`: neither route answers. -/
theorem numbered_fails :
    ¬ ∀ (rawBuf : Bytes) (inferenceRows : List InferenceRow),
      (∃ out, oneShot numberedRuntime rawBuf inferenceRows = .ok out ∧
        Merged numberedRuntime (read numberedRuntime rawBuf inferenceRows) out) ∧
      ∃ out rows, csvRows numberedRuntime out = .ok rows ∧
        exportEvents numberedRuntime rawBuf inferenceRows = .ok (csvText rows) ∧
        Merged numberedRuntime (read numberedRuntime rawBuf inferenceRows) out := by
  intro h
  obtain ⟨out, hok, -⟩ := (h numbered []).1
  have hfailed : (oneShot numberedRuntime numbered []).isOk = false := by decide +kernel
  rw [hok] at hfailed
  cases hfailed

end Hill90.Events
