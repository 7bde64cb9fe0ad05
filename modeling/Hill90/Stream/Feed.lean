import Hill90.Stream.Connection

/-! # The cursor protocol

What a connection does to its cursor, its polls and the rows it has sent, without the
socket.  Every move of the connection is one step here.
-/

namespace Hill90.Stream

open Chat (Message Uuid)

namespace Stage

def rows? : Stage → Option (List Message)
  | asked => none
  | answered rows | counting rows | counted rows _ => some rows

/-- Between the two statements of a backfill, or after them. -/
def isCount : Stage → Bool
  | asked | answered _ => false
  | counting _ | counted .. => true

end Stage

structure Feed where
  threadId : Uuid
  lastEventId : ℤ
  cursor : ℤ
  isBackfill : Bool
  polls : ℕ → Option Poll
  sent : List Message

namespace Feed

def setPoll (f : Feed) (j : ℕ) (p : Option Poll) : Feed :=
  { f with polls := Function.update f.polls j p }

def advance (cursor : ℤ) (rows : List Message) : ℤ :=
  rows.getLast?.elim cursor fun row => row.seq

/-- The rows a poll delivers when it resumes: an answer that is no backfill any more,
or a backfill that has been counted. -/
def Due (f : Feed) (p : Poll) (rows : List Message) : Prop :=
  p.stage = .answered rows ∧ f.isBackfill = false ∨ ∃ total, p.stage = .counted rows total

/-- `live` says whether the response can still be written. -/
inductive Step (l : Messages) (live : Bool) (f : Feed) : ConnectionMove → Feed → Prop where
  | idle (m : ConnectionMove) : Step l live f m f
  | ask (j : ℕ) :
    Step l live f .tick
      (f.setPoll j (some ⟨if f.isBackfill then .tail else .above, f.cursor, .asked⟩))
  | execute {j : ℕ} {p : Poll} (hpoll : f.polls j = some p) (hstage : p.stage = .asked) :
    Step l live f (.execute j)
      (f.setPoll j (some { p with stage := .answered (p.query.run l f.threadId p.since) }))
  | count {j : ℕ} {p : Poll} {rows : List Message} (total : ℕ) (hpoll : f.polls j = some p)
      (hstage : p.stage = .counting rows) :
    Step l live f (.execute j) (f.setPoll j (some { p with stage := .counted rows total }))
  | turn {j : ℕ} {p : Poll} {rows : List Message} (notice : Sink) (sinks : List Sink)
      (hpoll : f.polls j = some p) (hstage : p.stage = .answered rows)
      (hbackfill : f.isBackfill = true) :
    Step l live f (.resume j notice sinks)
      { f.setPoll j (some { p with stage := .counting rows }) with isBackfill := false }
  | deliver {j : ℕ} {p : Poll} {rows : List Message} (notice : Sink) (sinks : List Sink)
      (hpoll : f.polls j = some p) (hdue : f.Due p rows) (hlive : live = true ∨ rows = []) :
    Step l live f (.resume j notice sinks)
      { f.setPoll j none with sent := f.sent ++ rows, cursor := advance f.cursor rows }
  | cut {j : ℕ} {p : Poll} {rows rest : List Message} {lost : Message} {sinks : List Sink}
      (notice : Sink) (hpoll : f.polls j = some p) (hdue : f.Due p (rows ++ lost :: rest))
      (hlive : live = true) (hfull : ∃ sink ∈ sinks, hardCapBytes < sink.queued) :
    Step l live f (.resume j notice sinks)
      { f.setPoll j none with sent := f.sent ++ rows, cursor := lost.seq }
  | drop {m : ConnectionMove} (j : ℕ) : Step l live f m (f.setPoll j none)

theorem Step.of_live {l : Messages} {live live' : Bool} {f f' : Feed} {m : ConnectionMove}
    (h : f.Step l live m f') (hlive : live = true → live' = true) : f.Step l live' m f' := by
  cases h with
  | idle => exact .idle m
  | ask j => exact .ask j
  | execute hpoll hstage => exact .execute hpoll hstage
  | count total hpoll hstage => exact .count total hpoll hstage
  | turn notice sinks hpoll hstage hbackfill => exact .turn notice sinks hpoll hstage hbackfill
  | deliver notice sinks hpoll hdue hwrote =>
    exact .deliver notice sinks hpoll hdue (hwrote.imp_left hlive)
  | cut notice hpoll hdue hwrote hfull => exact .cut notice hpoll hdue (hlive hwrote) hfull
  | drop j => exact .drop j

end Feed

namespace Connection

def sent (c : Connection) : List Message := c.session.events.filterMap Event.row?

def feed (c : Connection) : Feed where
  threadId := c.threadId
  lastEventId := c.lastEventId
  cursor := c.cursor
  isBackfill := c.isBackfill
  polls := c.polls
  sent := c.sent

end Connection

theorem writeRows_of_dead {s : Session Event} (h : s.live = false) (cursor : ℤ)
    (rows : List Message) (sinks : List Sink) :
    (writeRows s cursor rows sinks).session = s ∧
      (writeRows s cursor rows sinks).cursor = cursor := by
  cases rows with
  | nil => exact ⟨rfl, rfl⟩
  | cons row rows => simp [writeRows, h]

@[simp] theorem Feed.advance_cons (cursor : ℤ) (row : Message) (rows : List Message) :
    Feed.advance cursor (row :: rows) = Feed.advance row.seq rows := by
  rw [Feed.advance, Feed.advance, List.getLast?_cons]
  cases rows.getLast? <;> rfl

/-- The row loop writes all the rows, or none to a response that is over, or it fills
the queue at one of them. -/
theorem writeRows_cases (s : Session Event) (cursor : ℤ) (rows : List Message)
    (sinks : List Sink) :
    let written := writeRows s cursor rows sinks
    let before := s.events.filterMap Event.row?
    let sent := written.session.events.filterMap Event.row?
    ((s.live = true ∨ rows = []) ∧ sent = before ++ rows ∧
      written.cursor = Feed.advance cursor rows) ∨
    (s.live = false ∧ sent = before ∧ written.cursor = cursor) ∨
    (∃ done lost rest, s.live = true ∧ rows = done ++ lost :: rest ∧ sent = before ++ done ∧
      written.cursor = lost.seq ∧ ∃ sink ∈ sinks, hardCapBytes < sink.queued) := by
  induction rows generalizing s cursor sinks with
  | nil =>
    left
    simp [writeRows, Feed.advance]
  | cons row rows ih =>
    cases hlive : s.live with
    | false =>
      have hdead := writeRows_of_dead hlive cursor (row :: rows) sinks
      right; left
      exact ⟨rfl, by rw [hdead.1], hdead.2⟩
    | true =>
      rw [writeRows, if_pos hlive]
      by_cases hfits : (sinks.headD {}).queued ≤ hardCapBytes
      · have hevents : (s.write (sinks.headD {}) (.event (.message row))).events =
            s.events ++ [.message row] := by
          rw [Session.events_write, if_pos ⟨hlive, hfits⟩]
          rfl
        have hrow : (s.events ++ [Event.message row]).filterMap Event.row? =
            s.events.filterMap Event.row? ++ [row] := by
          rw [List.filterMap_append]
          rfl
        have hnext := ih (s.write (sinks.headD {}) (.event (.message row))) row.seq sinks.tail
        rw [Session.live_write, hlive, hevents, hrow] at hnext
        obtain ⟨_, hsent, hcursor⟩ | ⟨hdead, _⟩ |
          ⟨done, lost, rest, _, hsplit, hsent, hcursor, sink, hsink, hfull⟩ := hnext
        · left
          exact ⟨.inl rfl, by simpa using hsent, by simpa using hcursor⟩
        · rw [Bool.true_and, decide_eq_false_iff_not] at hdead
          exact absurd hfits hdead
        · right; right
          refine ⟨row :: done, lost, rest, rfl, by rw [hsplit, List.cons_append], ?_, hcursor, sink,
            List.mem_of_mem_tail hsink, hfull⟩
          simpa using hsent
      · have hdead : (s.write (sinks.headD {}) (.event (.message row))).live = false := by
          rw [Session.live_write, decide_eq_false hfits, Bool.and_false]
        have hstop := writeRows_of_dead hdead row.seq rows sinks.tail
        right; right
        refine ⟨[], row, rows, rfl, rfl, ?_, hstop.2, ?_⟩
        · rw [hstop.1, Session.events_write, if_neg fun h => hfits h.2, List.append_nil]
        · cases sinks with
          | nil =>
            exact absurd (Nat.zero_le _) hfits
          | cons sink sinks =>
            exact ⟨sink, List.mem_cons_self, Nat.lt_of_not_le hfits⟩

namespace Connection

variable {l : Messages} {live : Bool} {c c' : Connection}

@[simp] theorem feed_setPoll (c : Connection) (j : ℕ) (p : Option Poll) :
    (c.setPoll j p).feed = c.feed.setPoll j p := rfl

@[simp] theorem feed_settle (c : Connection) (j : ℕ) : (c.settle j).feed = c.feed.setPoll j none := by
  unfold settle
  split <;> simp [feed, sent, Feed.setPoll, setPoll]

theorem feed_session {s : Session Event} (h : s.events = c.session.events) :
    { c with session := s }.feed = c.feed := by
  simp only [feed, sent, h]

theorem step_session {s : Session Event} (h : s.events = c.session.events) (m : ConnectionMove) :
    c.feed.Step l live m { c with session := s }.feed := by
  rw [feed_session h]
  exact .idle m

theorem step_drop {s : Session Event} (h : s.events = c.session.events) (signal : FailureSignal)
    (m : ConnectionMove) (j : ℕ) :
    c.feed.Step l live m ({ c with session := s, signal }.feed.setPoll j none) := by
  have hfeed : { c with session := s, signal }.feed = c.feed := by simp only [feed, sent, h]
  rw [hfeed]
  exact .drop j

theorem feed_announce (notice : BackfillNotice) (sink : Sink) :
    (c.announce notice sink).feed = c.feed := by
  unfold announce
  split
  · simp only [feed, sent, Session.events_write]
    split <;> simp [Frame.event?, Event.row?]
  · rfl

theorem live_announce (c : Connection) (notice : BackfillNotice) (sink : Sink)
    (h : (c.announce notice sink).session.live = true) : c.session.live = true := by
  unfold announce at h
  split at h
  · assumption
  · exact h

theorem feed_deliver {j : ℕ} {p : Poll} {rows : List Message} (notice : Sink) (sinks : List Sink)
    (hpoll : c.polls j = some p) (hdue : c.feed.Due p rows) :
    c.feed.Step l c.session.live (.resume j notice sinks) (c.deliver j rows sinks).feed := by
  have hfeed : (c.deliver j rows sinks).feed =
      { c.feed.setPoll j none with
        sent := (writeRows c.session c.cursor rows sinks).session.events.filterMap Event.row?
        cursor := (writeRows c.session c.cursor rows sinks).cursor } := by
    rw [deliver, feed_settle]
    rfl
  rw [hfeed]
  obtain ⟨hlive, hsent, hcursor⟩ | ⟨_, hsent, hcursor⟩ |
    ⟨done, lost, rest, hlive, rfl, hsent, hcursor, hfull⟩ := writeRows_cases c.session c.cursor rows sinks
  · rw [hsent, hcursor]
    exact .deliver notice sinks hpoll hdue hlive
  · rw [hsent, hcursor]
    exact .drop j
  · rw [hsent, hcursor]
    exact .cut notice hpoll hdue hlive hfull

theorem feed_step {m : ConnectionMove} (h : c.step l m = some c') :
    c.feed.Step l c.session.live m c'.feed := by
  cases m with
  | tick =>
    simp only [step, tick] at h
    split at h
    · cases h
    · split at h
      · cases h
        exact .idle .tick
      · cases h
        have hstep : c.feed.Step l c.session.live .tick _ := .ask c.started
        exact hstep
  | execute j =>
    simp only [step, execute] at h
    split at h
    · cases h
      exact .execute (p := ⟨_, _, .asked⟩) (by assumption) rfl
    · cases h
      exact .count _ (p := ⟨_, _, .counting _⟩) (by assumption) rfl
    all_goals cases h
  | resume j notice sinks =>
    simp only [step, resume] at h
    split at h
    · rename_i query since rows hpoll
      split at h
      · rename_i hbackfill
        cases h
        exact .turn (f := c.feed) notice sinks hpoll rfl hbackfill
      · rename_i hbackfill
        cases h
        have hsteady : c.feed.isBackfill = false := eq_false_of_ne_true hbackfill
        exact feed_deliver notice sinks hpoll (.inl ⟨rfl, hsteady⟩)
    · rename_i query since rows total hpoll
      cases h
      have hfeed := feed_announce (c := c) (backfillNotice rows total) notice
      rw [← hfeed]
      refine (feed_deliver (p := ⟨query, since, .counted rows total⟩) notice sinks ?_ ?_).of_live
        (live_announce c (backfillNotice rows total) notice)
      · rw [← hpoll]
        exact congrFun (congrArg Feed.polls hfeed) j
      · exact .inr ⟨total, rfl⟩
    all_goals cases h
  | fail j sink =>
    simp only [step, fail] at h
    split at h
    · cases h
      rw [feed_settle]
      refine step_drop ?_ _ _ j
      split
      · exact Session.events_write_error ..
      · rfl
    · cases h
  | heartbeat sink =>
    simp only [step] at h
    split at h
    · cases h
      exact step_session (by simp) _
    · cases h
  | drain | revoke | expire | close =>
    cases h
    exact step_session (by simp) _

end Connection

end Hill90.Stream
