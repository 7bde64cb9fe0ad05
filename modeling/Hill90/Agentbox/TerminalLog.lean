import Hill90.Foundation.Machine
import Mathlib.Data.List.Infix
import Mathlib.Data.Nat.Notation

/-! # The terminal log and its event stream

`terminal_log.py` numbers each event without a lock, appends it as a line, and truncates the file
for each command.
The stream reads the file from its start, skips what the client names as seen, and then follows the
file by its own offset.
-/

namespace Hill90.Agentbox.TerminalLog

inductive EventType where
  | commandStart
  | output
  | commandExit
  deriving DecidableEq

structure LogEvent where
  seq : ℕ
  type : EventType
  data : List Char
  deriving DecidableEq

inductive Line where
  | event (e : LogEvent)
  | notJson
  | notObject

structure Codec where
  dumps : LogEvent → List Char
  loads : List Char → Line
  loads_dumps (e : LogEvent) : loads (dumps e) = .event e
  newline_notMem (e : LogEvent) : '\n' ∉ dumps e

/-- The open file of a stream. `buffer` is what it has read and not taken as a line. -/
structure Reader where
  offset : ℕ := 0
  buffer : List Char := []
  backfill : Bool := true
  cursor : ℕ
  deriving DecidableEq

/-- A stream; `channel` is what it has sent and the client has not received. -/
structure Connection where
  reader : Option Reader
  channel : List LogEvent := []
  deriving DecidableEq

/-- Where a call stands that writes an event: `self._seq += 1` loads the counter and stores it, and
`_next_seq` reads it once more before the line is appended. -/
inductive Stage where
  | loaded (seq : ℕ)
  | stored
  | numbered (seq : ℕ)
  deriving DecidableEq

structure Writing where
  type : EventType
  data : List Char
  stage : Stage
  deriving DecidableEq

/-- `history` is every event that has been written. In it, the log that the client received its
first event of starts at `since`. -/
structure State where
  seq : ℕ := 0
  writers : List Writing := []
  since : ℕ := 0
  file : List Char := []
  history : List LogEvent := []
  received : List LogEvent := []
  lastEventId : ℕ := 0
  connection : Option Connection := none
  deriving DecidableEq

inductive Event where
  | load (type : EventType) (data : List Char)
  | store (i : ℕ)
  | number (i : ℕ)
  | append (i : ℕ)
  | reset
  | connect
  | read (n : ℕ)
  | line
  | endOfFile
  | receive
  | disconnect
  deriving DecidableEq

section Source

variable (json : Codec)

def lineOf (e : LogEvent) : List Char := json.dumps e ++ ['\n']

def linesOf (es : List LogEvent) : List Char := es.flatMap (lineOf json)

def firstLine : List Char → Option (List Char × List Char)
  | [] => none
  | c :: cs =>
    if c = '\n' then some ([], cs) else (firstLine cs).map fun split => (c :: split.1, split.2)

namespace Connection

/-- What the stream does with a line: an exit that it does not backfill ends it, and so does a line
that is no object. -/
def take (c : Connection) (r : Reader) (line : List Char) : Connection :=
  match json.loads line with
  | .event e =>
    if r.backfill = true ∧ e.seq ≤ r.cursor then { c with reader := some r }
    else if r.backfill = false ∧ e.type = .commandExit then
      { reader := none, channel := c.channel ++ [e] }
    else { reader := some r, channel := c.channel ++ [e] }
  | .notJson => { c with reader := some r }
  | .notObject => { c with reader := none }

end Connection

namespace State

variable (s : State)

def setConnection (c : Connection) : State := { s with connection := some c }

/-- The open file of the stream, as long as it is open. -/
def reading : Option (Connection × Reader) :=
  s.connection.bind fun c => c.reader.map fun r => (c, r)

def step : Event → Option State
  | .load type data =>
    some { s with writers := s.writers ++ [⟨type, data, .loaded s.seq⟩] }
  | .store i =>
    match s.writers[i]? with
    | some ⟨type, data, .loaded n⟩ =>
      some { s with seq := n + 1, writers := s.writers.set i ⟨type, data, .stored⟩ }
    | _ => none
  | .number i =>
    match s.writers[i]? with
    | some ⟨type, data, .stored⟩ =>
      some { s with writers := s.writers.set i ⟨type, data, .numbered s.seq⟩ }
    | _ => none
  | .append i =>
    match s.writers[i]? with
    | some ⟨type, data, .numbered n⟩ =>
      let e : LogEvent := ⟨n, type, data⟩
      some { s with
        writers := s.writers.eraseIdx i
        file := s.file ++ lineOf json e
        history := s.history ++ [e] }
    | _ => none
  | .reset => some { s with
      seq := 0
      file := []
      since := if s.received = [] then s.history.length else s.since }
  | .connect =>
    match s.connection with
    | none => some (s.setConnection { reader := some { cursor := s.lastEventId } })
    | some _ => none
  | .read n =>
    match s.reading with
    | some (c, r) =>
      if firstLine r.buffer = none ∧ 0 < n ∧ r.offset + n ≤ s.file.length then
        some (s.setConnection { c with
          reader := some { r with
            offset := r.offset + n
            buffer := r.buffer ++ (s.file.drop r.offset).take n } })
      else none
    | none => none
  | .line =>
    match s.reading with
    | some (c, r) =>
      (firstLine r.buffer).map fun split =>
        s.setConnection (c.take json { r with buffer := split.2 } split.1)
    | none => none
  | .endOfFile =>
    match s.reading with
    | some (c, r) =>
      if firstLine r.buffer = none ∧ s.file.length ≤ r.offset then
        -- what is left of a line is taken for one
        if r.buffer ≠ [] then some (s.setConnection (c.take json { r with buffer := [] } r.buffer))
        else some (s.setConnection { c with reader := some { r with backfill := false } })
      else none
    | none => none
  | .receive =>
    match s.connection with
    | some ⟨reader, e :: channel⟩ =>
      some { s with
        received := s.received ++ [e]
        lastEventId := e.seq
        connection := some ⟨reader, channel⟩ }
    | _ => none
  | .disconnect =>
    match s.connection with
    | some _ => some { s with connection := none }
    | none => none

end State

end Source

def machine (json : Codec) : Machine State Event where
  initial s := s = {}
  step := State.step json

section Definitions

variable (s : State)

/-- The stream follows the file and has nothing more to read or to send. -/
def State.CaughtUp : Prop :=
  ∃ r, s.connection = some { reader := some r } ∧ r.backfill = false ∧ r.buffer = [] ∧
    s.file.length ≤ r.offset

/-- The stream has sent all that it will send of the file as it is. -/
def State.Drained : Prop :=
  s.CaughtUp ∨ s.connection = some { reader := none }

def Event.streams : Event → Bool
  | read _ | line | endOfFile | receive => true
  | load _ _ | store _ | number _ | append _ | reset | connect | disconnect => false

/-- The client has the history without a gap, from the start of the log that it found. It has all of
it once the stream has caught up, and what a stream has that is over ends with an exit. A stream that
is left alone comes to one of the two. -/
structure State.Resumed (json : Codec) (s : State) : Prop where
  part : s.received <+: s.history.drop s.since
  whole : s.CaughtUp → s.received = s.history.drop s.since
  ended : s.connection = some { reader := none } →
    ∃ e, s.received.getLast? = some e ∧ e.type = .commandExit
  drains : s.connection.isSome → ∃ es t, (∀ e ∈ es, e.streams = true) ∧
    (machine json).Run s es t ∧ t.Drained

/-- An event is written and the log is reset only as long as no other event is being written, and
the log is reset only as long as the client has received nothing and its stream has read nothing. -/
def State.Orderly : Event → Prop
  | .load _ _ => s.writers = []
  | .reset => s.writers = [] ∧ s.received = [] ∧ ∀ c, s.connection = some c → c.channel = [] ∧
      ∀ r, c.reader = some r → r.offset = 0
  | _ => True

def Numbered (es : List LogEvent) : Prop := ∀ i e, es[i]? = some e → e.seq = i + 1

/-- Before its next line, the `j`th, the reader has taken the lines of the events before it. -/
structure Reader.Kept (json : Codec) (written : List LogEvent) (file : List Char) (r : Reader)
    (j : ℕ) : Prop where
  bound : j ≤ written.length
  offset : r.offset ≤ file.length
  unread : r.offset = 0 → r.buffer = []
  rest : r.buffer ++ file.drop r.offset = linesOf json (written.drop j)

def Reader.sent (r : Reader) (j : ℕ) : ℕ := if r.backfill then max r.cursor j else j

structure Connection.Kept (json : Codec) (written : List LogEvent) (s : State) (c : Connection)
    (n : ℕ) : Prop where
  bound : n ≤ written.length
  channel : written.take s.lastEventId ++ c.channel = written.take n
  reader : ∀ r, c.reader = some r →
    r.cursor ≤ s.lastEventId ∧ ∃ j, r.Kept json written s.file j ∧ n = r.sent j
  ended : c.reader = none → ∃ e, (written.take n).getLast? = some e ∧ e.type = .commandExit

/-- The one event that is being written gets the next number. -/
def State.Counts (length : ℕ) : Prop :=
  match s.writers with
  | [] => s.seq = length
  | [⟨_, _, .loaded n⟩] => n = length
  | [⟨_, _, .stored⟩] => s.seq = length + 1
  | [⟨_, _, .numbered n⟩] => n = length + 1 ∧ s.seq = length + 1
  | _ => False

/-- `past` is what earlier commands have written, `written` what the file holds. -/
structure State.Kept (json : Codec) (past written : List LogEvent) (s : State) : Prop where
  history : s.history = past ++ written
  since : s.since = past.length
  file : s.file = linesOf json written
  counts : s.Counts written.length
  numbered : Numbered written
  received : s.received = written.take s.lastEventId
  bound : s.lastEventId ≤ written.length
  connection : ∀ c, s.connection = some c → ∃ n, c.Kept json written s n

end Definitions

section Lines

variable {json : Codec} {l r more : List Char} {e : LogEvent} {es : List LogEvent}

theorem linesOf_cons (e : LogEvent) (es : List LogEvent) :
    linesOf json (e :: es) = json.dumps e ++ '\n' :: linesOf json es := by
  simp [linesOf, lineOf]

theorem linesOf_concat (es : List LogEvent) (e : LogEvent) :
    linesOf json (es ++ [e]) = linesOf json es ++ lineOf json e := by
  simp [linesOf]

theorem firstLine_of_newline (h : '\n' ∉ l) : firstLine (l ++ '\n' :: more) = some (l, more) := by
  induction l with
  | nil => simp [firstLine]
  | cons c l ih =>
    simp only [List.mem_cons, not_or] at h
    simp [firstLine, ih h.2, Ne.symm h.1]

theorem firstLine_append {line : List Char} (h : firstLine l = some (line, r)) :
    firstLine (l ++ more) = some (line, r ++ more) := by
  induction l generalizing line with
  | nil => cases h
  | cons c l ih =>
    simp only [firstLine, List.cons_append] at h ⊢
    split at h
    · cases h
      rw [if_pos ‹_›]
    · obtain ⟨⟨line', r'⟩, hl, hsplit⟩ := Option.map_eq_some_iff.mp h
      cases hsplit
      simp [‹¬c = '\n'›, ih hl]

/-- The first line of what is left of a file is that of the next event. -/
theorem firstLine_linesOf {line : List Char} (hline : firstLine l = some (line, r))
    (h : l ++ more = linesOf json es) :
    ∃ e rest, es = e :: rest ∧ line = json.dumps e ∧ r ++ more = linesOf json rest := by
  have happend := @firstLine_append _ _ more _ hline
  rw [h] at happend
  cases es with
  | nil => cases happend
  | cons e rest =>
    rw [linesOf_cons, firstLine_of_newline (json.newline_notMem e)] at happend
    simp only [Option.some.injEq, Prod.mk.injEq] at happend
    exact ⟨e, rest, rfl, happend.1.symm, happend.2.symm⟩

theorem linesOf_of_firstLine (hline : firstLine l = none) (h : l = linesOf json es) : es = [] := by
  cases es with
  | nil => rfl
  | cons e rest =>
    rw [h, linesOf_cons, firstLine_of_newline (json.newline_notMem e)] at hline
    cases hline

end Lines

section Drained

variable {json : Codec} {s : State} {c : Connection} {r : Reader}

/-- What is left to do for a stream of a file of the length. -/
def Connection.left (length : ℕ) (c : Connection) : ℕ :=
  c.channel.length + c.reader.elim 0 fun r =>
    3 * (length - r.offset) + 2 * r.buffer.length + if r.backfill then 1 else 0

theorem length_firstLine {l line rest : List Char} (h : firstLine l = some (line, rest)) :
    rest.length < l.length := by
  induction l generalizing line with
  | nil => cases h
  | cons c l ih =>
    simp only [firstLine] at h
    split at h
    · cases h
      simp
    · obtain ⟨⟨line', rest'⟩, hl, hsplit⟩ := Option.map_eq_some_iff.mp h
      cases hsplit
      have hlt := ih hl
      simp only [List.length_cons]
      simp only at hlt
      omega

theorem left_take (json : Codec) (length : ℕ) (c : Connection) (r : Reader) (line : List Char) :
    (c.take json r line).left length ≤
      1 + ({ c with reader := some r } : Connection).left length := by
  unfold Connection.take
  split
  · split
    · omega
    · split
      · simp [Connection.left]
        omega
      · simp [Connection.left]
        omega
  · omega
  · simp [Connection.left]
    omega

theorem moves (json : Codec) (hconnection : s.connection = some c) (hdrained : ¬s.Drained) :
    ∃ e c' t, e.streams = true ∧ (machine json).step s e = some t ∧ t.connection = some c' ∧
      t.file = s.file ∧ c'.left s.file.length < c.left s.file.length := by
  obtain ⟨reader, channel⟩ := c
  cases channel with
  | cons e channel =>
    have hstep : (machine json).step s .receive = some { s with
        received := s.received ++ [e]
        lastEventId := e.seq
        connection := some ⟨reader, channel⟩ } := by
      simp [machine, State.step, hconnection]
    refine ⟨.receive, ⟨reader, channel⟩, _, rfl, hstep, rfl, rfl, ?_⟩
    simp [Connection.left]
  | nil =>
    cases reader with
    | none => exact (hdrained (.inr hconnection)).elim
    | some r =>
      have hreading : s.reading = some (⟨some r, []⟩, r) := by
        simp [State.reading, hconnection]
      cases hline : firstLine r.buffer with
      | some split =>
        have hstep : (machine json).step s .line = some
            (s.setConnection (({ reader := some r } : Connection).take json
              { r with buffer := split.2 } split.1)) := by
          simp [machine, State.step, hreading, hline]
        have hlt := length_firstLine hline
        have hle := left_take json s.file.length ⟨some r, []⟩
          { r with buffer := split.2 } split.1
        refine ⟨.line, _, _, rfl, hstep, rfl, rfl, ?_⟩
        simp only [Connection.left, List.length_nil, Option.elim_some] at hle ⊢
        omega
      | none =>
        by_cases hend : s.file.length ≤ r.offset
        · by_cases hbuffer : r.buffer = []
          · have hbackfill : r.backfill = true := by
              by_contra hlive
              exact hdrained (.inl ⟨r, hconnection, by simpa using hlive, hbuffer, hend⟩)
            have hstep : (machine json).step s .endOfFile = some
                (s.setConnection { reader := some { r with backfill := false } }) := by
              simp [machine, State.step, hreading, hend, hbuffer, firstLine]
            refine ⟨.endOfFile, _, _, rfl, hstep, rfl, rfl, ?_⟩
            simp [Connection.left, hbackfill]
          · have hstep : (machine json).step s .endOfFile = some
                (s.setConnection (({ reader := some r } : Connection).take json
                  { r with buffer := [] } r.buffer)) := by
              simp [machine, State.step, hreading, hline, hend, hbuffer]
            have hpos := List.length_pos_of_ne_nil hbuffer
            have hle := left_take json s.file.length ⟨some r, []⟩
              { r with buffer := [] } r.buffer
            refine ⟨.endOfFile, _, _, rfl, hstep, rfl, rfl, ?_⟩
            simp only [Connection.left, List.length_nil, Option.elim_some] at hle ⊢
            omega
        · have hstep : (machine json).step s (.read 1) = some
              (s.setConnection { reader := some { r with
                offset := r.offset + 1
                buffer := r.buffer ++ (s.file.drop r.offset).take 1 } }) := by
            have hone : r.offset + 1 ≤ s.file.length := by omega
            simp [machine, State.step, hreading, hline, hone]
          refine ⟨.read 1, _, _, rfl, hstep, rfl, rfl, ?_⟩
          simp only [Connection.left, Option.elim_some, List.length_append, List.length_take]
          omega

theorem drains (hconnection : s.connection = some c) : ∃ es t, (∀ e ∈ es, e.streams = true) ∧
    (machine json).Run s es t ∧ t.Drained := by
  generalize hleft : c.left s.file.length = n
  induction n using Nat.strong_induction_on generalizing s c with
  | _ n ih =>
    by_cases hdrained : s.Drained
    · exact ⟨[], s, by simp, .nil s, hdrained⟩
    · obtain ⟨e, c', u, hstreams, hstep, hconnection', hfile, hlt⟩ :=
        moves json hconnection hdrained
      rw [hleft, ← hfile] at hlt
      obtain ⟨es, t, hes, hrun, ht⟩ := ih _ hlt hconnection' rfl
      exact ⟨e :: es, t, by simpa [hstreams] using hes, .cons trivial hstep hrun, ht⟩

end Drained

section Resumed

variable {json : Codec} {past written : List LogEvent} {s t : State} {e : Event} {r : Reader}
  {c : Connection} {j n : ℕ}

theorem Numbered.concat {es : List LogEvent} {e : LogEvent} (h : Numbered es)
    (he : e.seq = es.length + 1) : Numbered (es ++ [e]) := by
  intro i e' hget
  rw [List.getElem?_append] at hget
  split at hget
  · exact h i e' hget
  · rename_i hi
    rw [List.getElem?_singleton] at hget
    split at hget
    · cases hget
      omega
    · cases hget

/-- The first line that has been read is that of the next event. -/
theorem Reader.Kept.line {file line rest : List Char} (h : r.Kept json written file j)
    (hline : firstLine r.buffer = some (line, rest)) :
    ∃ e, written[j]? = some e ∧ line = json.dumps e ∧
      ({ r with buffer := rest } : Reader).Kept json written file (j + 1) := by
  obtain ⟨e, es, hdrop, hdumps, hrest⟩ := firstLine_linesOf hline h.rest
  have hget : written[j]? = some e := by
    rw [← List.head?_drop, hdrop]
    rfl
  have hnext : written.drop (j + 1) = es := by
    rw [← List.tail_drop, hdrop]
    rfl
  have hlt : j < written.length := (List.getElem?_eq_some_iff.mp hget).1
  refine ⟨e, hget, hdumps, ?_⟩
  constructor
  · exact hlt
  · exact h.offset
  · intro hzero
    rw [h.unread hzero] at hline
    cases hline
  · rw [hnext]
    exact hrest

theorem Reader.Kept.read {file : List Char} (h : r.Kept json written file j)
    (hn : 0 < n) (hbound : r.offset + n ≤ file.length) :
    ({ r with
      offset := r.offset + n
      buffer := r.buffer ++ (file.drop r.offset).take n } : Reader).Kept json written file j := by
  constructor
  · exact h.bound
  · exact hbound
  · intro hzero
    simp at hzero
    omega
  · simp only [List.append_assoc]
    rw [← List.drop_drop, List.take_append_drop]
    exact h.rest

theorem Reader.Kept.write {file : List Char} {e : LogEvent} (h : r.Kept json written file j) :
    r.Kept json (written ++ [e]) (file ++ lineOf json e) j := by
  constructor
  · have hbound := h.bound
    simp
    omega
  · have hoffset := h.offset
    simp
    omega
  · exact h.unread
  · rw [List.drop_append_of_le_length h.offset, List.drop_append_of_le_length h.bound,
      linesOf_concat, ← List.append_assoc, h.rest]

theorem Reader.Kept.endOfFile {file : List Char} (h : r.Kept json written file j)
    (hline : firstLine r.buffer = none) (hend : file.length ≤ r.offset) :
    r.buffer = [] ∧ j = written.length := by
  have hrest := h.rest
  rw [List.drop_eq_nil_of_le hend, List.append_nil] at hrest
  have hdrop := linesOf_of_firstLine hline hrest
  constructor
  · rw [hrest, hdrop]
    rfl
  · have hlength := List.drop_eq_nil_iff.mp hdrop
    have hbound := h.bound
    omega

theorem take_succ_of_getElem? {e : LogEvent} (h : written[j]? = some e) :
    written.take (j + 1) = written.take j ++ [e] := by
  rw [List.take_add_one, h]
  rfl

theorem Connection.Kept.take {e : LogEvent} (h : c.Kept json written s n)
    (hcursor : r.cursor ≤ s.lastEventId) (hget : written[j]? = some e) (hseq : e.seq = j + 1)
    (hnext : r.Kept json written s.file (j + 1)) (hn : n = r.sent j) :
    ∃ n', (c.take json r (json.dumps e)).Kept json written s n' := by
  have hlt : j < written.length := (List.getElem?_eq_some_iff.mp hget).1
  unfold Connection.take
  rw [json.loads_dumps]
  simp only [hseq]
  split
  · rename_i hskip
    refine ⟨n, h.bound, h.channel, ?_, nofun⟩
    rintro r' ⟨⟩
    refine ⟨hcursor, j + 1, hnext, ?_⟩
    simp only [Reader.sent, hskip.1, if_true] at hn ⊢
    omega
  · rename_i hsend
    have hnj : n = j := by
      unfold Reader.sent at hn
      split at hn
      · rename_i hbackfill
        simp only [hbackfill, true_and] at hsend
        omega
      · exact hn
    have hchannel : written.take s.lastEventId ++ (c.channel ++ [e]) = written.take (j + 1) := by
      rw [take_succ_of_getElem? hget, ← List.append_assoc, h.channel, hnj]
    split
    · rename_i hexit
      refine ⟨j + 1, hlt, hchannel, nofun, fun _ => ⟨e, ?_, hexit.2⟩⟩
      rw [take_succ_of_getElem? hget, List.getLast?_concat]
    · refine ⟨j + 1, hlt, hchannel, ?_, nofun⟩
      rintro r' ⟨⟩
      refine ⟨hcursor, j + 1, hnext, ?_⟩
      unfold Reader.sent
      split
      · rename_i hbackfill
        simp only [hbackfill, true_and] at hsend
        omega
      · rfl

theorem State.Kept.setConnection (h : s.Kept json past written)
    (hc : c.Kept json written s n) : (s.setConnection c).Kept json past written := by
  constructor
  · exact h.history
  · exact h.since
  · exact h.file
  · exact h.counts
  · exact h.numbered
  · exact h.received
  · exact h.bound
  · rintro c' ⟨⟩
    exact ⟨n, hc.bound, hc.channel, hc.reader, hc.ended⟩

theorem State.Kept.reading (h : s.Kept json past written) (hreading : s.reading = some (c, r)) :
    ∃ n j, c.Kept json written s n ∧ r.cursor ≤ s.lastEventId ∧ r.Kept json written s.file j ∧
      n = r.sent j := by
  simp only [State.reading, Option.bind_eq_some_iff, Option.map_eq_some_iff, Prod.mk.injEq] at hreading
  obtain ⟨c', hconnection, r', hr, hc, hr'⟩ := hreading
  subst hc hr'
  obtain ⟨n, hc⟩ := h.connection c' hconnection
  obtain ⟨hcursor, j, hj, hn⟩ := hc.reader r' hr
  exact ⟨n, j, hc, hcursor, hj, hn⟩

theorem State.Counts.single {length i : ℕ} {w : Writing} (h : s.Counts length)
    (hget : s.writers[i]? = some w) : i = 0 ∧ s.writers = [w] := by
  have hlt := (List.getElem?_eq_some_iff.mp hget).1
  unfold State.Counts at h
  split at h
  · rename_i hwriters
    simp [hwriters] at hlt
  · rename_i hwriters
    simp_all
  · rename_i hwriters
    simp_all
  · rename_i hwriters
    simp_all
  · exact h.elim

theorem State.Kept.count (h : s.Kept json past written) {seq : ℕ} {writers : List Writing}
    (hcounts : ({ s with seq := seq, writers := writers } : State).Counts written.length) :
    ({ s with seq := seq, writers := writers } : State).Kept json past written := by
  constructor
  · exact h.history
  · exact h.since
  · exact h.file
  · exact hcounts
  · exact h.numbered
  · exact h.received
  · exact h.bound
  · intro c hconnection
    obtain ⟨n, hc⟩ := h.connection c hconnection
    exact ⟨n, hc.bound, hc.channel, hc.reader, hc.ended⟩

theorem State.Kept.append (h : s.Kept json past written) {i : ℕ}
    (hstep : (machine json).step s (.append i) = some t) :
    ∃ e, t.Kept json past (written ++ [e]) := by
  simp only [machine, State.step] at hstep
  split at hstep
  · rename_i type data m hget
    cases hstep
    obtain ⟨rfl, hwriters⟩ := h.counts.single hget
    have hcounts := h.counts
    simp only [State.Counts, hwriters] at hcounts
    have htake : ∀ {n}, n ≤ written.length → ∀ e, (written ++ [e]).take n = written.take n :=
      fun hn e => List.take_append_of_le_length hn
    refine ⟨⟨m, type, data⟩, ?_⟩
    constructor
    · simp [h.history]
    · exact h.since
    · simp [h.file, linesOf_concat]
    · simpa [State.Counts, hwriters] using hcounts.2
    · exact h.numbered.concat hcounts.1
    · exact h.received.trans (htake h.bound _).symm
    · have hbound := h.bound
      simp
      omega
    · intro c hconnection
      obtain ⟨n, hc⟩ := h.connection c hconnection
      refine ⟨n, ?_, ?_, ?_, ?_⟩
      · have hbound := hc.bound
        simp
        omega
      · change List.take s.lastEventId _ ++ c.channel = _
        rw [htake h.bound, htake hc.bound]
        exact hc.channel
      · intro r hr
        obtain ⟨hcursor, j, hj, hn⟩ := hc.reader r hr
        exact ⟨hcursor, j, hj.write, hn⟩
      · rw [htake hc.bound]
        exact hc.ended
  · cases hstep

theorem State.Kept.reset (h : s.Kept json past written) (hok : s.Orderly .reset)
    (hstep : (machine json).step s .reset = some t) : t.Kept json (past ++ written) [] := by
  cases hstep
  obtain ⟨hwriters, hreceived, hconnection⟩ := hok
  have hzero : s.lastEventId = 0 ∨ written = [] := by
    have htake := h.received
    rw [hreceived] at htake
    exact List.take_eq_nil_iff.mp htake.symm
  have hlast : s.lastEventId = 0 := by
    obtain hzero | hnil := hzero
    · exact hzero
    · have hbound := h.bound
      rw [hnil] at hbound
      simpa using hbound
  constructor
  · simp [h.history]
  · simp [hreceived, h.history]
  · rfl
  · simp [State.Counts, hwriters]
  · rintro i e ⟨⟩
  · simpa using hreceived
  · simp [hlast]
  · intro c hc
    obtain ⟨hchannel, hunread⟩ := hconnection c hc
    obtain ⟨n, hkept⟩ := h.connection c hc
    refine ⟨0, Nat.le_refl 0, ?_, ?_, ?_⟩
    · simp [hchannel]
    · intro r hr
      obtain ⟨hcursor, j, hj, -⟩ := hkept.reader r hr
      have hoffset := hunread r hr
      refine ⟨hcursor, 0, ⟨Nat.le_refl 0, ?_, fun _ => hj.unread hoffset, ?_⟩, ?_⟩
      · simp [hoffset]
      · simp [hj.unread hoffset, linesOf]
      · have hcursor0 : r.cursor = 0 := by omega
        simp [Reader.sent, hcursor0]
    · intro hnone
      obtain ⟨e, hexit, -⟩ := hkept.ended hnone
      have hempty := hkept.channel
      rw [hlast, hchannel] at hempty
      simp [← hempty] at hexit

theorem State.Kept.receive (h : s.Kept json past written)
    (hstep : (machine json).step s .receive = some t) : t.Kept json past written := by
  simp only [machine, State.step] at hstep
  split at hstep
  · rename_i reader e channel hconnection
    cases hstep
    obtain ⟨n, hc⟩ := h.connection _ hconnection
    have hchannel := hc.channel
    have hget : written[s.lastEventId]? = some e := by
      have hat := congrArg (fun l => l[s.lastEventId]?) hchannel
      simp only [List.getElem?_append, List.length_take, Nat.min_eq_left h.bound, lt_irrefl, if_false,
        Nat.sub_self, List.getElem?_cons_zero, List.getElem?_take] at hat
      split at hat
      · exact hat.symm
      · cases hat
    have hseq := h.numbered _ e hget
    have hlt : s.lastEventId < written.length := (List.getElem?_eq_some_iff.mp hget).1
    have htake := take_succ_of_getElem? hget
    constructor
    · exact h.history
    · exact h.since
    · exact h.file
    · exact h.counts
    · exact h.numbered
    · simp only [hseq, htake, h.received]
    · simp only [hseq]
      omega
    · rintro c ⟨⟩
      refine ⟨n, hc.bound, ?_, ?_, hc.ended⟩
      · simp only [hseq, htake, List.append_assoc, List.singleton_append]
        exact hchannel
      · intro r hr
        obtain ⟨hcursor, j, hj, hn⟩ := hc.reader r hr
        refine ⟨?_, j, hj, hn⟩
        simp only [hseq]
        omega
  · cases hstep

theorem State.Kept.disconnect (h : s.Kept json past written) :
    ({ s with connection := none } : State).Kept json past written := by
  constructor
  · exact h.history
  · exact h.since
  · exact h.file
  · exact h.counts
  · exact h.numbered
  · exact h.received
  · exact h.bound
  · rintro c ⟨⟩

theorem State.Kept.connect (h : s.Kept json past written) :
    (s.setConnection { reader := some { cursor := s.lastEventId } }).Kept json past written := by
  apply h.setConnection (n := s.lastEventId)
  constructor
  · exact h.bound
  · simp
  · rintro r ⟨⟩
    refine ⟨Nat.le_refl _, 0, ⟨Nat.zero_le _, Nat.zero_le _, fun _ => rfl, ?_⟩, ?_⟩
    · simp [h.file]
    · simp [Reader.sent]
  · nofun

theorem kept_step (h : s.Kept json past written) (hok : s.Orderly e)
    (hstep : (machine json).step s e = some t) : ∃ past written, t.Kept json past written := by
  cases e with
  | load type data =>
    have hwriters : s.writers = [] := hok
    cases hstep
    refine ⟨past, written, h.count ?_⟩
    simpa [State.Counts, hwriters] using h.counts
  | store i =>
    simp only [machine, State.step] at hstep
    split at hstep
    · rename_i hget
      cases hstep
      obtain ⟨rfl, hwriters⟩ := h.counts.single hget
      refine ⟨past, written, h.count ?_⟩
      simpa [State.Counts, hwriters] using h.counts
    · cases hstep
  | number i =>
    simp only [machine, State.step] at hstep
    split at hstep
    · rename_i hget
      cases hstep
      obtain ⟨rfl, hwriters⟩ := h.counts.single hget
      refine ⟨past, written, @State.Kept.count _ _ _ _ h s.seq _ ?_⟩
      simpa [State.Counts, hwriters] using h.counts
    · cases hstep
  | append i =>
    obtain ⟨e, ht⟩ := h.append hstep
    exact ⟨past, written ++ [e], ht⟩
  | reset => exact ⟨past ++ written, [], h.reset hok hstep⟩
  | connect =>
    simp only [machine, State.step] at hstep
    split at hstep
    · cases hstep
      exact ⟨past, written, h.connect⟩
    · cases hstep
  | read n =>
    simp only [machine, State.step] at hstep
    split at hstep
    · rename_i c r hreading
      split at hstep
      · rename_i hread
        cases hstep
        obtain ⟨m, j, hc, hcursor, hj, hm⟩ := h.reading hreading
        refine ⟨past, written, h.setConnection ⟨hc.bound, hc.channel, ?_, nofun⟩⟩
        rintro r' ⟨⟩
        exact ⟨hcursor, j, hj.read hread.2.1 hread.2.2, hm⟩
      · cases hstep
    · cases hstep
  | line =>
    simp only [machine, State.step] at hstep
    split at hstep
    · rename_i c r hreading
      obtain ⟨⟨line, rest⟩, hline, rfl⟩ := Option.map_eq_some_iff.mp hstep
      obtain ⟨m, j, hc, hcursor, hj, hm⟩ := h.reading hreading
      obtain ⟨e, hget, rfl, hnext⟩ := hj.line hline
      have hsent : m = ({ r with buffer := rest } : Reader).sent j := hm
      obtain ⟨n, hn⟩ := hc.take (r := { r with buffer := rest }) hcursor hget (h.numbered j e hget)
        hnext hsent
      exact ⟨past, written, h.setConnection hn⟩
    · cases hstep
  | endOfFile =>
    simp only [machine, State.step] at hstep
    split at hstep
    · rename_i c r hreading
      split at hstep
      · rename_i hend
        obtain ⟨m, j, hc, hcursor, hj, hm⟩ := h.reading hreading
        obtain ⟨hbuffer, hlast⟩ := hj.endOfFile hend.1 hend.2
        rw [if_neg (not_not.mpr hbuffer)] at hstep
        cases hstep
        refine ⟨past, written, h.setConnection ⟨hc.bound, hc.channel, ?_, nofun⟩⟩
        rintro r' ⟨⟩
        refine ⟨hcursor, j, ⟨hj.bound, hj.offset, hj.unread, hj.rest⟩, ?_⟩
        have hbound := h.bound
        unfold Reader.sent at hm ⊢
        split at hm
        · simp
          omega
        · exact hm
      · cases hstep
    · cases hstep
  | receive => exact ⟨past, written, h.receive hstep⟩
  | disconnect =>
    simp only [machine, State.step] at hstep
    split at hstep
    · cases hstep
      exact ⟨past, written, h.disconnect⟩
    · cases hstep

theorem State.Kept.resumed (h : s.Kept json past written) : s.Resumed json := by
  have hdrop : s.history.drop s.since = written := by
    rw [h.history, h.since, List.drop_left]
  constructor
  · rw [hdrop, h.received]
    exact List.take_prefix _ _
  · rintro ⟨r, hconnection, hlive, hbuffer, hend⟩
    obtain ⟨n, hc⟩ := h.connection _ hconnection
    obtain ⟨-, j, hj, hn⟩ := hc.reader r rfl
    have hline : firstLine r.buffer = none := by
      rw [hbuffer]
      rfl
    obtain ⟨-, hlast⟩ := hj.endOfFile hline hend
    have hsent : n = written.length := by
      simpa [Reader.sent, hlive, hlast] using hn
    have hall := hc.channel
    rw [List.append_nil, hsent, List.take_length] at hall
    rw [hdrop, h.received, hall]
  · intro hconnection
    obtain ⟨n, hc⟩ := h.connection _ hconnection
    have hall := hc.channel
    rw [List.append_nil] at hall
    rw [h.received, hall]
    exact hc.ended rfl
  · intro hsome
    obtain ⟨c, hconnection⟩ := Option.isSome_iff_exists.mp hsome
    exact drains hconnection

theorem kept_initial : ({} : State).Kept json [] [] := by
  constructor
  · rfl
  · rfl
  · rfl
  · rfl
  · rintro i e ⟨⟩
  · rfl
  · exact Nat.le_refl 0
  · rintro c ⟨⟩

/-- In the runs that write one event at a time and reset the log only where no client has read it,
a client resumes. -/
theorem resumed_of_orderly {es : List Event} (hinitial : (machine json).initial s)
    (hrun : (machine json).RunIf State.Orderly s es t) : t.Resumed json := by
  have hkept : ∃ past written, t.Kept json past written := by
    apply hrun.invariant (I := fun u => ∃ past written, u.Kept json past written)
    · rw [show s = {} from hinitial]
      exact ⟨[], [], kept_initial⟩
    · rintro u e v ⟨past, written, hu⟩ hok hstep
      exact kept_step hu hok hstep
  obtain ⟨past, written, ht⟩ := hkept
  exact ht.resumed

end Resumed

section Runs

def EventType.name : EventType → List Char
  | commandStart => ['c', 'o', 'm', 'm', 'a', 'n', 'd', '_', 's', 't', 'a', 'r', 't']
  | output => ['o', 'u', 't', 'p', 'u', 't']
  | commandExit => ['c', 'o', 'm', 'm', 'a', 'n', 'd', '_', 'e', 'x', 'i', 't']

def escape : Char → List Char
  | '\n' => ['\\', 'n']
  | '\\' => ['\\', '\\']
  | '"' => ['\\', '"']
  | c => [c]

def unescape : List Char → List Char
  | '\\' :: 'n' :: cs => '\n' :: unescape cs
  | '\\' :: c :: cs => c :: unescape cs
  | '"' :: _ => []
  | c :: cs => c :: unescape cs
  | [] => []

def dumps (e : LogEvent) : List Char :=
  ['{', '"', 's', 'e', 'q', '"', ':'] ++ Nat.toDigits 10 e.seq ++
    [',', '"', 't', 'y', 'p', 'e', '"', ':', '"'] ++ e.type.name ++
    ['"', ',', '"', 'd', 'a', 't', 'a', '"', ':', '"'] ++ e.data.flatMap escape ++ ['"', '}']

def typeOf (line : List Char) : EventType :=
  if line.head? = some 'o' then .output
  else if (line.drop 8).head? = some 's' then .commandStart
  else .commandExit

def parse (line : List Char) : LogEvent :=
  let rest := (line.drop 7).dropWhile Char.isDigit |>.drop 9
  ⟨Nat.ofDigitChars 10 ((line.drop 7).takeWhile Char.isDigit) 0, typeOf rest,
    unescape (rest.drop ((typeOf rest).name.length + 10))⟩

theorem unescape_escape (data rest : List Char) :
    unescape (data.flatMap escape ++ '"' :: rest) = data := by
  induction data with
  | nil => simp [unescape]
  | cons c data ih =>
    rw [List.flatMap_cons, List.append_assoc]
    generalize data.flatMap escape ++ '"' :: rest = tail at ih ⊢
    unfold escape
    split
    · simp [unescape, ih]
    · simp [unescape, ih]
    · simp [unescape, ih]
    · rename_i hnewline hbackslash hquote
      rw [List.singleton_append, unescape, ih]
      · intro cs hc
        exact (hbackslash hc).elim
      · intro d cs hc _
        exact (hbackslash hc).elim
      · exact hquote

theorem parse_dumps (e : LogEvent) : parse (dumps e) = e := by
  obtain ⟨seq, type, data⟩ := e
  have hdigits : ∀ c ∈ Nat.toDigits 10 seq, c.isDigit = true := fun c hc =>
    Nat.isDigit_of_mem_toDigits (by decide) (by decide) hc
  simp only [parse, dumps, List.append_assoc]
  rw [List.drop_append_of_le_length (by simp)]
  simp only [List.drop, List.nil_append]
  rw [List.takeWhile_append_of_pos hdigits, List.dropWhile_append_of_pos hdigits]
  cases type <;>
    simp [typeOf, EventType.name, unescape_escape]

theorem newline_notMem_dumps (e : LogEvent) : '\n' ∉ dumps e := by
  have hdigits : '\n' ∉ Nat.toDigits 10 e.seq := by
    intro hmem
    have hdigit := Nat.isDigit_of_mem_toDigits (by decide) (by decide) hmem
    revert hdigit
    decide
  have hname : '\n' ∉ e.type.name := by
    cases e.type <;> decide
  have hescape : ∀ c, '\n' ∉ escape c := by
    intro c
    unfold escape
    split
    · decide
    · decide
    · decide
    · rename_i hnewline _ _
      simpa using Ne.symm hnewline
  simp [dumps, hdigits, hname, hescape]

def json : Codec where
  dumps := dumps
  loads line := if dumps (parse line) = line then .event (parse line) else .notJson
  loads_dumps e := by
    rw [parse_dumps, if_pos rfl]
  newline_notMem := newline_notMem_dumps

def write (type : EventType) (data : List Char) : List Event :=
  [.load type data, .store 0, .number 0, .append 0]

/-- A command that the client follows from its start, and the next, which has written before the
client connects again. -/
def nextCommand : List Event :=
  [.reset, .connect, .endOfFile] ++ write .commandStart ['l', 's'] ++ [.read 45, .line, .receive] ++
    write .commandExit ['0'] ++ [.read 43, .line, .receive, .disconnect, .reset] ++
    write .commandStart ['p', 'w', 'd'] ++ write .output ['/', '\n'] ++ write .commandExit ['0'] ++
    [.connect, .read 128, .line, .line, .line, .receive]

theorem reset_not_resumed :
    (machine json).Reachable ((machine json).after {} nextCommand) ∧
      ¬((machine json).after {} nextCommand).Resumed json := by
  constructor
  · exact ⟨{}, nextCommand, rfl, Machine.run_after (by decide +kernel)⟩
  · intro h
    have hpart : ¬((machine json).after {} nextCommand).received <+:
        ((machine json).after {} nextCommand).history.drop
          ((machine json).after {} nextCommand).since := by
      decide +kernel
    exact hpart h.part

/-- Two writers that have loaded the counter before either has stored it. -/
example : (((machine json).after {} [.load .output ['a'], .load .output ['b'], .store 0, .store 1,
    .number 0, .number 1, .append 0, .append 0]).history.map LogEvent.seq) = [1, 1] := by
  decide +kernel

/-- After a command that no client has followed, one that is disconnected before it has received the
second of three events, and that receives the last two on its second connection. -/
def reconnected : List Event :=
  write .commandExit ['1'] ++ [.reset, .connect, .endOfFile] ++ write .commandStart ['l', 's'] ++
    write .output ['/', '\n'] ++
    [.read 60, .line, .receive, .disconnect, .connect, .read 60, .line, .read 24, .line, .receive,
      .endOfFile] ++ write .commandExit ['0'] ++ [.read 43, .line, .receive]

theorem reconnected_resumed : ((machine json).after {} reconnected).Resumed json := by
  apply resumed_of_orderly (s := {}) rfl
  apply Machine.runIf_of_accepts (C := fun s e => match e with
    | .load _ _ => decide (s.writers = [])
    | .reset => decide (s.writers = [] ∧ s.received = [] ∧ s.connection = none)
    | _ => true) (I := fun _ => True)
  · intro s e _ he
    cases e with
    | load type data =>
      have hwriters : s.writers = [] := by simpa using he
      exact hwriters
    | reset =>
      obtain ⟨hwriters, hreceived, hconnection⟩ : s.writers = [] ∧ s.received = [] ∧
        s.connection = none := by simpa using he
      refine ⟨hwriters, hreceived, fun c hc => ?_⟩
      rw [hconnection] at hc
      cases hc
    | _ => trivial
  · intro s e t _ _ _
    trivial
  · trivial
  · decide +kernel

end Runs

end Hill90.Agentbox.TerminalLog
