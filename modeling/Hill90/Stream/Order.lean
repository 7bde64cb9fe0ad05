import Hill90.Stream.Feed

/-! # Delivery in order

As long as a poll that resumes finds its rows above the cursor, the rows of a connection
are sent in the order of their numbers, each version once.  Two polls that overlap can
break the condition.
-/

namespace Hill90.Stream

open Chat (Message Uuid)

namespace Feed

def Polls (f : Feed) (P : Poll → Prop) : Prop := ∀ j p, f.polls j = some p → P p

theorem Polls.drop {f : Feed} {P : Poll → Prop} (h : f.Polls P) (j : ℕ) :
    (f.setPoll j none).Polls P := by
  intro i p hp
  simp only [setPoll, Function.update_apply] at hp
  split at hp
  · cases hp
  · exact h i p hp

theorem Polls.set {f : Feed} {P : Poll → Prop} (h : f.Polls P) (j : ℕ) {q : Poll} (hq : P q) :
    (f.setPoll j (some q)).Polls P := by
  intro i p hp
  simp only [setPoll, Function.update_apply] at hp
  split at hp
  · cases hp
    exact hq
  · exact h i p hp

/-- The rows a poll holds come from above its cursor, in order. -/
def PollSound (lastEventId : ℤ) (p : Poll) : Prop :=
  lastEventId ≤ p.since ∧ ∀ rows, p.stage.rows? = some rows →
    rows.Pairwise (fun v w => v.seq < w.seq) ∧ ∀ row ∈ rows, p.since < row.seq

theorem mem_query {l : Messages} {threadId : Uuid} {since : ℤ} {q : Query} {row : Message}
    (h : row ∈ q.run l threadId since) :
    row ∈ l.log ∧ row.threadId = threadId ∧ since < row.seq := by
  have hmem : row ∈ pollRows l threadId since := by
    cases q with
    | tail => exact (Ledger.newest_suffix _ _).subset h
    | above => exact h
  have hlog := Ledger.mem_log_of_mem_select hmem
  simp only [Bool.and_eq_true, decide_eq_true_eq] at hlog
  exact hlog

theorem query_rising (l : Messages) (threadId : Uuid) (since : ℤ) (q : Query) :
    (q.run l threadId since).Pairwise fun v w => v.seq < w.seq := by
  cases q with
  | tail => exact (l.select_rising _).sublist (Ledger.newest_suffix _ _).sublist
  | above => exact l.select_rising _

theorem Due.rows? {f : Feed} {p : Poll} {rows : List Message} (h : f.Due p rows) :
    p.stage.rows? = some rows := by
  obtain ⟨h, _⟩ | ⟨total, h⟩ := h
  · rw [h]
    rfl
  · rw [h]
    rfl

structure Sound (f : Feed) : Prop where
  cursor : f.lastEventId ≤ f.cursor
  polls : f.Polls (PollSound f.lastEventId)

theorem le_advance {low cursor : ℤ} {rows : List Message} (h : low ≤ cursor)
    (hrows : ∀ row ∈ rows, low < row.seq) : low ≤ advance cursor rows := by
  unfold advance
  cases hlast : rows.getLast? with
  | none => exact h
  | some row => exact le_of_lt (hrows row (List.mem_of_getLast? hlast))

theorem Sound.step {l : Messages} {live : Bool} {f f' : Feed} {m : ConnectionMove}
    (hs : f.Sound) (h : f.Step l live m f') : f'.Sound := by
  cases h with
  | idle => exact hs
  | ask j =>
    refine ⟨hs.cursor, hs.polls.set j ⟨hs.cursor, ?_⟩⟩
    intro rows hrows
    cases hrows
  | @execute j p hpoll hstage =>
    refine ⟨hs.cursor, hs.polls.set j ⟨(hs.polls j p hpoll).1, ?_⟩⟩
    intro rows hrows
    cases hrows
    exact ⟨query_rising .., fun row hrow => (mem_query hrow).2.2⟩
  | @count j p rows total hpoll hstage =>
    have hp := hs.polls j p hpoll
    refine ⟨hs.cursor, hs.polls.set j ⟨hp.1, ?_⟩⟩
    intro rows' hrows'
    cases hrows'
    exact hp.2 rows (by rw [hstage]; rfl)
  | @turn j p rows notice sinks hpoll hstage hbackfill =>
    have hp := hs.polls j p hpoll
    refine ⟨hs.cursor, hs.polls.set j ⟨hp.1, ?_⟩⟩
    intro rows' hrows'
    cases hrows'
    exact hp.2 rows (by rw [hstage]; rfl)
  | @deliver j p rows notice sinks hpoll hdue hlive =>
    have hp := hs.polls j p hpoll
    have habove := (hp.2 rows hdue.rows?).2
    exact ⟨le_advance hs.cursor fun row hrow => lt_of_le_of_lt hp.1 (habove row hrow),
      hs.polls.drop j⟩
  | @cut j p rows rest lost sinks notice hpoll hdue hlive hfull =>
    have hp := hs.polls j p hpoll
    have habove := (hp.2 _ hdue.rows?).2 lost (by simp)
    exact ⟨le_of_lt (lt_of_le_of_lt hp.1 habove), hs.polls.drop j⟩
  | drop j => exact ⟨hs.cursor, hs.polls.drop j⟩

/-- The rows sent so far rise up to the cursor. -/
structure InOrder (f : Feed) : Prop where
  rising : f.sent.Pairwise fun v w => v.seq < w.seq
  below : ∀ row ∈ f.sent, (row.seq : ℤ) ≤ f.cursor

/-- A poll that resumes with rows for a live response finds them above the cursor. -/
def Ahead (live : Bool) (f : Feed) : ConnectionMove → Prop
  | .resume j _ _ =>
    live = true → ∀ p rows, f.polls j = some p → f.Due p rows → ∀ row ∈ rows, f.cursor < row.seq
  | _ => True

theorem InOrder.append {f : Feed} {rows : List Message} {cursor : ℤ} (h : f.InOrder) (j : ℕ)
    (hrising : rows.Pairwise fun v w => v.seq < w.seq) (habove : ∀ row ∈ rows, f.cursor < row.seq)
    (hcursor : f.cursor ≤ cursor) (hbelow : ∀ row ∈ rows, (row.seq : ℤ) ≤ cursor) :
    InOrder { f.setPoll j none with sent := f.sent ++ rows, cursor } := by
  constructor
  · refine List.pairwise_append.mpr ⟨h.rising, hrising, ?_⟩
    intro v hv w hw
    have := h.below v hv
    have := habove w hw
    omega
  · intro row hrow
    obtain hrow | hrow := List.mem_append.mp hrow
    · exact (h.below row hrow).trans hcursor
    · exact hbelow row hrow

theorem le_advance_of_mem {cursor : ℤ} {rows : List Message} {row : Message}
    (hrising : rows.Pairwise fun v w => v.seq < w.seq) (hrow : row ∈ rows) :
    (row.seq : ℤ) ≤ advance cursor rows := by
  induction rows generalizing cursor with
  | nil => cases hrow
  | cons head rows ih =>
    rw [advance_cons]
    obtain ⟨hhead, hrising⟩ := List.pairwise_cons.mp hrising
    obtain rfl | hrow := List.mem_cons.mp hrow
    · exact le_advance (Int.le_refl _) fun v hv => by exact_mod_cast hhead v hv
    · exact ih hrising hrow

/-- A step keeps the order and does not move the cursor back. -/
theorem InOrder.step {l : Messages} {live : Bool} {f f' : Feed} {m : ConnectionMove}
    (hs : f.Sound) (ho : f.InOrder) (hok : Ahead live f m) (h : f.Step l live m f') :
    f'.InOrder ∧ f.cursor ≤ f'.cursor := by
  cases h with
  | idle | ask | execute | count | turn | drop => exact ⟨⟨ho.rising, ho.below⟩, Int.le_refl _⟩
  | @deliver j p rows notice sinks hpoll hdue hlive =>
    have hrising := ((hs.polls j p hpoll).2 rows hdue.rows?).1
    have habove : ∀ row ∈ rows, f.cursor < row.seq := by
      obtain hlive | rfl := hlive
      · exact hok hlive p rows hpoll hdue
      · simp
    have hcursor : f.cursor ≤ advance f.cursor rows := le_advance (Int.le_refl _) habove
    exact ⟨ho.append j hrising habove hcursor fun row => le_advance_of_mem hrising, hcursor⟩
  | @cut j p rows rest lost sinks notice hpoll hdue hlive hfull =>
    have hrising := ((hs.polls j p hpoll).2 _ hdue.rows?).1
    have habove := hok hlive p _ hpoll hdue
    have hcursor : f.cursor ≤ lost.seq := le_of_lt (habove lost (by simp))
    have hsplit := List.pairwise_append.mp hrising
    refine ⟨ho.append j hsplit.1 ?_ hcursor ?_, hcursor⟩
    · intro row hrow
      exact habove row (List.mem_append_left _ hrow)
    · intro row hrow
      have := hsplit.2.2 row hrow lost (by simp)
      omega

theorem sound_start (threadId : Uuid) (lastEventId : ℤ) :
    (Connection.start threadId lastEventId).feed.Sound := by
  refine ⟨Int.le_refl _, ?_⟩
  intro j p hp
  simp only [Connection.feed, Connection.start, Function.update_apply] at hp
  split at hp
  · cases hp
    refine ⟨Int.le_refl _, ?_⟩
    intro rows hrows
    cases hrows
  · cases hp

end Feed

/-- The condition on a step of the stream. -/
def State.Ahead (s : State) : Move → Prop
  | .connection m => Feed.Ahead s.connection.session.live s.connection.feed m
  | .database _ => True

theorem connection_of_step {s t : State} {m : ConnectionMove}
    (h : stream.step s (.connection m) = some t) :
    t.messages = s.messages ∧
      s.connection.feed.Step s.messages s.connection.session.live m t.connection.feed := by
  obtain ⟨c, hc, rfl⟩ := Option.map_eq_some_iff.mp h
  exact ⟨rfl, Connection.feed_step hc⟩

theorem messages_of_step {s t : State} {a : Ledger.Action Message}
    (h : stream.step s (.database a) = some t) :
    t.connection = s.connection ∧ s.messages.act a = some t.messages := by
  obtain ⟨l, hl, rfl⟩ := Option.map_eq_some_iff.mp h
  exact ⟨rfl, hl⟩

def State.InOrder (s : State) : Prop := s.connection.feed.Sound ∧ s.connection.feed.InOrder

theorem inOrder_step {s t : State} {a : Move} (hs : s.InOrder) (hok : s.Ahead a)
    (h : stream.step s a = some t) : t.InOrder ∧ s.connection.cursor ≤ t.connection.cursor := by
  cases a with
  | database a =>
    rw [State.InOrder, (messages_of_step h).1]
    exact ⟨hs, Int.le_refl _⟩
  | connection m =>
    have hstep := (connection_of_step h).2
    have hnext := hs.2.step hs.1 hok hstep
    exact ⟨⟨hs.1.step hstep, hnext.1⟩, hnext.2⟩

theorem inOrder_initial {s : State} (h : stream.initial s) : s.InOrder := by
  obtain ⟨threadId, lastEventId, hs⟩ := h
  rw [State.InOrder, hs]
  refine ⟨Feed.sound_start _ _, ⟨?_, ?_⟩⟩
  · exact List.Pairwise.nil
  · intro row hrow
    cases hrow

/-- The rows of a connection are sent in the order of their numbers, no version of a
message twice, and the cursor never goes back. -/
theorem delivery_in_order {s t : State} {as : List Move} (hs : stream.ReachableIf State.Ahead s)
    (hrun : stream.RunIf State.Ahead s as t) :
    (t.connection.sent.Pairwise fun v w => v.seq < w.seq) ∧
      (t.connection.sent.map fun row => (row.id, row.seq)).Nodup ∧
      s.connection.cursor ≤ t.connection.cursor := by
  have hinit : s.InOrder :=
    hs.invariant (fun _ => inOrder_initial) fun _ _ _ hu hok h => (inOrder_step hu hok h).1
  have hfinal : t.InOrder :=
    hrun.invariant hinit fun _ _ _ hu hok h => (inOrder_step hu hok h).1
  refine ⟨hfinal.2.rising, ?_, ?_⟩
  · refine List.pairwise_map.mpr (hfinal.2.rising.imp ?_)
    intro v w hlt heq
    have := congrArg Prod.snd heq
    exact Nat.ne_of_lt hlt this
  · exact hrun.relates (R := fun u v => u.connection.cursor ≤ v.connection.cursor) hinit
      (fun _ _ _ hu hok h => (inOrder_step hu hok h).1) (fun _ => Int.le_refl _)
      (fun _ _ _ => Int.le_trans) fun _ _ _ hu hok h => (inOrder_step hu hok h).2

/-! A small setting: an empty table and a connection to thread 1. -/

namespace Sample

def start : State := ⟨Ledger.empty, Connection.start 1 0⟩

def row (id seq : ℕ) : Message :=
  { id, seq, threadId := 1, authorId := 3, authorType := .human, role := .user, content := "hi"
    status := .complete, createdAt := 0, updatedAt := 0 }

def insert (tx id seq : ℕ) : Move := .database (.write tx (row id seq))

def commit (tx : ℕ) : Move := .database (.commit tx)

def tick : Move := .connection .tick

def execute (j : ℕ) : Move := .connection (.execute j)

def resume (j : ℕ) : Move := .connection (.resume j {} [])

/-- The first poll from its query to its rows. -/
def backfill : List Move := [execute 0, resume 0, execute 0, resume 0]

def after (moves : List Move) : State := stream.after start moves

theorem initial_start : stream.initial start := ⟨1, 0, rfl⟩

def ahead (s : State) : Move → Bool
  | .connection (.resume j _ _) =>
    (s.connection.polls j).all fun p =>
      (p.stage.rows?.getD []).all fun row => s.connection.cursor < row.seq
  | _ => true

theorem ahead_spec {s : State} {a : Move} (h : ahead s a = true) : s.Ahead a := by
  cases a with
  | database a => trivial
  | connection m =>
    cases m with
    | resume j notice sinks =>
      intro _ p rows hp hdue row hrow
      have hp : s.connection.polls j = some p := hp
      simp only [ahead, hp, Option.all_some, hdue.rows?, Option.getD_some, List.all_eq_true,
        decide_eq_true_eq] at h
      exact h row hrow
    | _ => trivial

theorem step_after {moves : List Move} {a : Move}
    (h : (stream.exec start (moves ++ [a])).isSome = true) :
    stream.step (after moves) a = some (after (moves ++ [a])) := Machine.step_after h

theorem runs_ahead (moves : List Move) (h : stream.accepts ahead start moves = true) :
    stream.RunIf State.Ahead start moves (after moves) :=
  Machine.runIf_of_accepts (I := fun _ => True) (fun _ _ _ => ahead_spec)
    (fun _ _ _ _ _ _ => trivial) trivial h

end Sample

theorem delivery_in_order_sample :
    ((Sample.after (Sample.backfill ++ [Sample.insert 0 7 1, Sample.commit 0, Sample.tick,
        Sample.execute 1, Sample.resume 1])).connection.sent.Pairwise
      fun v w => v.seq < w.seq) := by
  have hrun := Sample.runs_ahead (Sample.backfill ++ [Sample.insert 0 7 1,
    Sample.commit 0, Sample.tick, Sample.execute 1, Sample.resume 1]) (by decide +kernel)
  exact (delivery_in_order ⟨_, [], Sample.initial_start, .nil _⟩ hrun).1

/-- Two polls that read the cursor before either has moved it send the same row. -/
theorem overlapping_polls_repeat :
    ∃ s as t, stream.initial s ∧ stream.Run s as t ∧
      ¬(t.connection.sent.map fun row => (row.id, row.seq)).Nodup ∧
      ¬t.connection.sent.Pairwise fun v w => v.seq < w.seq := by
  refine ⟨Sample.start, Sample.backfill ++ [Sample.insert 0 7 1, Sample.commit 0, Sample.tick,
    Sample.tick, Sample.execute 1, Sample.execute 2, Sample.resume 1, Sample.resume 2], _,
    Sample.initial_start, Machine.run_after (by decide +kernel), ?_, ?_⟩
  · decide +kernel
  · decide +kernel

end Hill90.Stream
