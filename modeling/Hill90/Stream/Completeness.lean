import Hill90.Stream.Order

/-! # Completeness of the cursor

After the backfill the cursor never passes a visible version that has not been sent or
replaced, as long as no transaction shows a version whose number the cursor, or a poll
in flight, is already past, no row is lost to a full queue, and a backfill query that
resumes late has not cut its answer short.
-/

namespace Hill90.Stream

open Chat (Message Uuid)

namespace Feed

/-- The versions numbered from `base` up to `high` have been sent or replaced. -/
def Covered (l : Messages) (f : Feed) (base high : ℤ) : Prop :=
  ∀ v ∈ l.log, v.threadId = f.threadId → base < v.seq → v.seq ≤ high →
    v ∈ f.sent ∨ l.Superseded v

/-- An answer that may leave out versions above its cursor. -/
def Short (p : Poll) (rows : List Message) : Prop :=
  p.query = .tail ∧ sseBackfillLimit ≤ rows.length

/-- An answer holds the versions between its cursor, or its first row, and its last row. -/
def Whole (l : Messages) (threadId : Uuid) (p : Poll) (rows : List Message) : Prop :=
  ∀ v ∈ l.log, v.threadId = threadId → p.since < v.seq → (∃ high ∈ rows, v.seq ≤ high.seq) →
    (Short p rows → ∃ low ∈ rows, low.seq ≤ v.seq) → v ∈ rows ∨ l.Superseded v

structure Complete (l : Messages) (base : ℤ) (f : Feed) : Prop where
  cursor : f.Covered l base f.cursor
  since : f.Polls fun p => f.Covered l base p.since
  whole : f.Polls fun p => ∀ rows, p.stage.rows? = some rows → Whole l f.threadId p rows

def Behind (f : Feed) (v : Message) : Prop :=
  f.cursor < v.seq ∧ f.Polls fun p => p.since < v.seq ∧
    ∀ rows, p.stage.rows? = some rows → ∀ row ∈ rows, row.seq < v.seq

/-- No row is refused, and a short answer that is no backfill any more starts within
what has been sent. -/
def Unbroken (f : Feed) : ConnectionMove → Prop
  | .resume j _ sinks => (∀ sink ∈ sinks, sink.queued ≤ hardCapBytes) ∧
    ∀ p rows, f.polls j = some p → p.stage = .answered rows → f.isBackfill = false →
      Short p rows → ∃ row ∈ rows, (row.seq : ℤ) ≤ f.cursor
  | _ => True

theorem Covered.grow {l l' : Messages} {f : Feed} {base high : ℤ} {new : List Message}
    (h : f.Covered l base high) (hlog : l'.log = l.log ++ new)
    (hnew : ∀ v ∈ new, v.threadId = f.threadId → high < v.seq) : f.Covered l' base high := by
  intro v hv hthread hbase hhigh
  rw [hlog, List.mem_append] at hv
  obtain hv | hv := hv
  · exact (h v hv hthread hbase hhigh).imp_right fun hs => hs.grow hlog
  · have := hnew v hv hthread
    omega

theorem Covered.mono {l : Messages} {f f' : Feed} {base base' high : ℤ}
    (h : f.Covered l base high) (hthread : f'.threadId = f.threadId)
    (hsent : ∀ v ∈ f.sent, v ∈ f'.sent) (hbase : base ≤ base') : f'.Covered l base' high := by
  intro v hv hv' hlt hle
  exact (h v hv (hv'.trans hthread) (by omega) hle).imp_left (hsent v)

theorem Whole.grow {l l' : Messages} {threadId : Uuid} {p : Poll} {rows new : List Message}
    (h : Whole l threadId p rows) (hlog : l'.log = l.log ++ new)
    (hnew : ∀ v ∈ new, v.threadId = threadId → ∀ row ∈ rows, row.seq < v.seq) :
    Whole l' threadId p rows := by
  intro v hv hthread hsince hhigh hshort
  rw [hlog, List.mem_append] at hv
  obtain hv | hv := hv
  · exact (h v hv hthread hsince hhigh hshort).imp_right fun hs => hs.grow hlog
  · obtain ⟨high, hmem, hle⟩ := hhigh
    have := hnew v hv hthread high hmem
    omega

/-- An answer is whole when the database gives it. -/
theorem whole_query (l : Messages) (threadId : Uuid) (p : Poll) :
    Whole l threadId p (p.query.run l threadId p.since) := by
  intro v hv hthread hsince _ hshort
  have hselect := Ledger.mem_select_or_superseded (l := l)
    (q := fun m => m.threadId = threadId && p.since < m.seq) hv (by simp [hthread, hsince])
  refine hselect.imp_left fun hmem => ?_
  cases hquery : p.query with
  | above => exact hmem
  | tail =>
    rw [hquery] at hshort
    by_cases hlength : sseBackfillLimit ≤ (backfillTail l threadId p.since sseBackfillLimit).length
    · obtain ⟨low, hlow, hle⟩ := hshort ⟨hquery, hlength⟩
      exact Ledger.mem_newest (l.select_rising _) hmem hlow hle
    · rw [Query.run, backfillTail, Ledger.newest_eq_self (Nat.lt_of_not_le hlength)]
      exact hmem

/-- A transaction shows only versions the cursor and the polls are behind of. -/
theorem Complete.grow {l l' : Messages} {base : ℤ} {f : Feed} {new : List Message}
    (h : f.Complete l base) (hlog : l'.log = l.log ++ new)
    (hnew : ∀ v ∈ new, v.threadId = f.threadId → f.Behind v) : f.Complete l' base := by
  constructor
  · exact h.cursor.grow hlog fun v hv hthread => (hnew v hv hthread).1
  · intro j p hp
    exact (h.since j p hp).grow hlog fun v hv hthread => ((hnew v hv hthread).2 j p hp).1
  · intro j p hp rows hrows
    exact (h.whole j p hp rows hrows).grow hlog fun v hv hthread =>
      ((hnew v hv hthread).2 j p hp).2 rows hrows

theorem Complete.covered_deliver {l : Messages} {base : ℤ} {f : Feed} {j : ℕ} {p : Poll}
    {rows : List Message} (h : f.Complete l base) (hp : f.polls j = some p)
    (hrows : p.stage.rows? = some rows)
    (hshort : Short p rows → ∃ row ∈ rows, (row.seq : ℤ) ≤ f.cursor) {v : Message}
    (hv : v ∈ l.log) (hthread : v.threadId = f.threadId) (hbase : base < v.seq)
    (hhigh : v.seq ≤ advance f.cursor rows) : v ∈ f.sent ++ rows ∨ l.Superseded v := by
  have hsent : v ∈ f.sent ∨ l.Superseded v → v ∈ f.sent ++ rows ∨ l.Superseded v :=
    Or.imp_left fun hmem => List.mem_append_left _ hmem
  cases hlast : rows.getLast? with
  | none =>
    rw [advance, hlast] at hhigh
    exact hsent (h.cursor v hv hthread hbase hhigh)
  | some high =>
    rw [advance, hlast] at hhigh
    have hle : v.seq ≤ high.seq := by simpa using hhigh
    have hmem := List.mem_of_getLast? hlast
    by_cases hsince : p.since < v.seq
    · have hwhole := h.whole j p hp rows hrows v hv hthread hsince ⟨high, hmem, hle⟩
      by_cases hcut : Short p rows
      · obtain ⟨low, hlow, hlowle⟩ := hshort hcut
        by_cases hlt : low.seq ≤ v.seq
        · exact (hwhole fun _ => ⟨low, hlow, hlt⟩).imp_left (List.mem_append_right _)
        · exact hsent (h.cursor v hv hthread hbase (by omega))
      · exact (hwhole fun h => absurd h hcut).imp_left (List.mem_append_right _)
    · exact hsent (h.since j p hp v hv hthread hbase (by omega))

theorem Complete.drop {l : Messages} {base : ℤ} {f : Feed} (h : f.Complete l base) (j : ℕ) :
    (f.setPoll j none).Complete l base :=
  ⟨h.cursor, h.since.drop j, h.whole.drop j⟩

/-- The poll the move resumes, if any, is no counted backfill. -/
def Resumes (f : Feed) (m : ConnectionMove) : Prop :=
  ∃ j notice sinks p, m = .resume j notice sinks ∧ f.polls j = some p ∧ p.stage.isCount = true

theorem Complete.step {l : Messages} {live : Bool} {base : ℤ} {f f' : Feed} {m : ConnectionMove}
    (hc : f.Complete l base) (hok : f.Unbroken m) (h : f.Step l live m f')
    (hcount : ¬f.Resumes m) : f'.Complete l base := by
  cases h with
  | idle => exact hc
  | ask j =>
    refine ⟨hc.cursor, hc.since.set j hc.cursor, hc.whole.set j ?_⟩
    intro rows hrows
    cases hrows
  | @execute j p hpoll hstage =>
    refine ⟨hc.cursor, hc.since.set j (hc.since j p hpoll), hc.whole.set j ?_⟩
    intro rows hrows
    cases hrows
    exact whole_query l f.threadId p
  | @count j p rows total hpoll hstage | @turn j p rows _ _ hpoll hstage _ =>
    refine ⟨hc.cursor, hc.since.set j (hc.since j p hpoll), hc.whole.set j ?_⟩
    intro rows' hrows'
    cases hrows'
    exact hc.whole j p hpoll rows (by rw [hstage]; rfl)
  | @deliver j p rows notice sinks hpoll hdue hlive =>
    obtain ⟨hanswered, hsteady⟩ | ⟨total, hcounted⟩ := hdue
    · have hgrow : ∀ {high}, f.Covered l base high →
          Covered l { f.setPoll j none with
            sent := f.sent ++ rows, cursor := advance f.cursor rows } base high :=
        fun hcov => hcov.mono rfl (fun v hv => List.mem_append_left _ hv) (Int.le_refl _)
      refine ⟨?_, fun i q hq => hgrow (hc.since.drop j i q hq), hc.whole.drop j⟩
      intro v hv hthread hbase hhigh
      refine hc.covered_deliver hpoll (by rw [hanswered]; rfl) ?_ hv hthread hbase hhigh
      exact hok.2 p rows hpoll hanswered hsteady
    · refine absurd ⟨j, notice, sinks, p, rfl, hpoll, ?_⟩ hcount
      rw [hcounted]
      rfl
  | @cut j p rows rest lost sinks notice hpoll hdue hlive hfull =>
    obtain ⟨sink, hsink, hlt⟩ := hfull
    have := hok.1 sink hsink
    omega
  | drop j => exact hc.drop j

/-- From its own last row on, a backfill leaves nothing out. -/
theorem Complete.turnover {l : Messages} {live : Bool} {f f' : Feed} {m : ConnectionMove}
    (hs : f.Sound) (hc : f.Complete l f.lastEventId) (hok : f.Unbroken m)
    (h : f.Step l live m f') (hcount : f.Resumes m) : f'.Complete l f'.cursor := by
  have hs' := hs.step h
  obtain ⟨i, notice', sinks', q, rfl, hq, hstage'⟩ := hcount
  cases h with
  | idle =>
    exact ⟨hc.cursor.mono rfl (fun _ => id) hs.cursor,
      fun j p hp => (hc.since j p hp).mono rfl (fun _ => id) hs.cursor, hc.whole⟩
  | @turn j p rows _ _ hpoll hstage _ =>
    cases hq.symm.trans hpoll
    rw [hstage] at hstage'
    cases hstage'
  | @deliver j p rows notice sinks hpoll hdue hlive =>
    refine ⟨?_, fun i q hq => ?_, hc.whole.drop _⟩
    · intro v hv _ hbase hhigh
      omega
    · exact (hc.since.drop _ i q hq).mono rfl (fun v hv => List.mem_append_left _ hv) hs'.cursor
  | @cut j p rows rest lost sinks notice hpoll hdue hlive hfull =>
    obtain ⟨sink, hsink, hlt⟩ := hfull
    have := hok.1 sink hsink
    omega
  | drop j =>
    have hdrop := hc.drop j
    exact ⟨hdrop.cursor.mono rfl (fun _ => id) hs.cursor,
      fun i p hp => (hdrop.since i p hp).mono rfl (fun _ => id) hs.cursor, hdrop.whole⟩

/-- The backfill has not been delivered, nor has it failed. -/
def Backfilling (f : Feed) : Prop :=
  f.isBackfill = true ∨ ∃ j p, f.polls j = some p ∧ p.stage.isCount = true

theorem poll_of_setPoll {f : Feed} {i j : ℕ} {x : Option Poll} {p : Poll}
    (h : (f.setPoll j x).polls i = some p) : i = j ∧ x = some p ∨ i ≠ j ∧ f.polls i = some p := by
  simp only [setPoll, Function.update_apply] at h
  split at h
  · exact .inl ⟨by assumption, h⟩
  · exact .inr ⟨by assumption, h⟩

theorem Backfilling.of_setPoll {f : Feed} {j : ℕ} {x : Option Poll}
    (h : (f.setPoll j x).Backfilling) (hx : ∀ p, x = some p → p.stage.isCount = true → f.Backfilling) :
    f.Backfilling := by
  obtain h | ⟨i, p, hp, hstage⟩ := h
  · exact .inl h
  · obtain ⟨_, hnew⟩ | ⟨_, hold⟩ := poll_of_setPoll hp
    · exact hx p hnew hstage
    · exact .inr ⟨i, p, hold, hstage⟩

/-- A backfill that is over stays over. -/
theorem Backfilling.of_step {l : Messages} {live : Bool} {f f' : Feed} {m : ConnectionMove}
    (h' : f'.Backfilling) (h : f.Step l live m f') : f.Backfilling := by
  cases h with
  | idle => exact h'
  | ask j =>
    refine h'.of_setPoll ?_
    rintro p ⟨⟩ hstage
    cases hstage
  | @execute j p hpoll _ =>
    refine h'.of_setPoll ?_
    rintro q ⟨⟩ hstage
    cases hstage
  | @count j p rows total hpoll hstage =>
    exact .inr ⟨j, p, hpoll, by rw [hstage]; rfl⟩
  | turn _ _ _ _ hbackfill => exact .inl hbackfill
  | @deliver j p rows _ _ hpoll hdue _ =>
    refine Backfilling.of_setPoll (j := j) (x := none) h' ?_
    rintro q ⟨⟩
  | @cut j p rows rest lost sinks _ hpoll hdue _ _ =>
    refine Backfilling.of_setPoll (j := j) (x := none) h' ?_
    rintro q ⟨⟩
  | drop j =>
    refine h'.of_setPoll ?_
    rintro q ⟨⟩

/-- Only one poll is ever counted. -/
structure OneCount (f : Feed) : Prop where
  fresh : f.isBackfill = true → f.Polls fun p => p.stage.isCount = false
  unique : ∀ i j p q, f.polls i = some p → f.polls j = some q → p.stage.isCount = true →
    q.stage.isCount = true → i = j

theorem OneCount.set {f : Feed} (h : f.OneCount) {j : ℕ} {x : Option Poll}
    (hx : ∀ q, x = some q → q.stage.isCount = true →
      ∃ p, f.polls j = some p ∧ p.stage.isCount = true) : (f.setPoll j x).OneCount := by
  have hold : ∀ i p, (f.setPoll j x).polls i = some p → p.stage.isCount = true →
      ∃ q, f.polls i = some q ∧ q.stage.isCount = true := by
    intro i p hp hstage
    obtain ⟨rfl, hnew⟩ | ⟨_, hold⟩ := poll_of_setPoll hp
    · exact hx p hnew hstage
    · exact ⟨p, hold, hstage⟩
  constructor
  · intro hbackfill i p hp
    refine eq_false_of_ne_true fun hstage => ?_
    obtain ⟨q, hq, hq'⟩ := hold i p hp hstage
    have := h.fresh hbackfill i q hq
    simp_all
  · intro i k p q hp hq hstagep hstageq
    obtain ⟨p', hp', hstagep'⟩ := hold i p hp hstagep
    obtain ⟨q', hq', hstageq'⟩ := hold k q hq hstageq
    exact h.unique i k p' q' hp' hq' hstagep' hstageq'

theorem OneCount.step {l : Messages} {live : Bool} {f f' : Feed} {m : ConnectionMove}
    (hs : f.OneCount) (h : f.Step l live m f') : f'.OneCount := by
  cases h with
  | idle => exact hs
  | ask j | execute _ _ | drop j =>
    refine hs.set ?_
    rintro q ⟨⟩ hstage
    try cases hstage
  | @count j p rows total hpoll hstage =>
    refine hs.set ?_
    rintro q ⟨⟩ _
    exact ⟨p, hpoll, by rw [hstage]; rfl⟩
  | @turn j p rows _ _ hpoll hstage hbackfill =>
    have hfresh := hs.fresh hbackfill
    constructor
    · intro hfalse
      cases hfalse
    · intro i k q q' hq hq' hcount hcount'
      have hmine : ∀ i q, (f.setPoll j (some { p with stage := .counting rows })).polls i = some q →
          q.stage.isCount = true → i = j := by
        intro i q hq hcount
        obtain ⟨rfl, _⟩ | ⟨_, hold⟩ := poll_of_setPoll hq
        · rfl
        · have := hfresh i q hold
          simp_all
      rw [hmine i q hq hcount, hmine k q' hq' hcount']
  | @deliver j p rows _ _ hpoll hdue _ | @cut j p _ _ _ _ _ hpoll hdue _ _ =>
    have hnext : (f.setPoll j none).OneCount := hs.set (by rintro q ⟨⟩)
    exact ⟨hnext.fresh, hnext.unique⟩

/-- The counted poll is the whole backfill. -/
theorem OneCount.over {f : Feed} (h : f.OneCount) {j : ℕ} {p : Poll} (hp : f.polls j = some p)
    (hstage : p.stage.isCount = true) : ¬(f.setPoll j none).Backfilling := by
  rintro (hbackfill | ⟨i, q, hq, hcount⟩)
  · have := h.fresh hbackfill j p hp
    simp_all
  · obtain ⟨_, hnone⟩ | ⟨hne, hold⟩ := poll_of_setPoll hq
    · cases hnone
    · exact hne (h.unique i j q p hold hp hcount hstage)

/-- What every state before the end of the backfill satisfies. -/
structure Begun (l : Messages) (f : Feed) : Prop where
  sound : f.Sound
  one : f.OneCount
  complete : f.Backfilling → f.Complete l f.lastEventId

theorem Begun.step {l : Messages} {live : Bool} {f f' : Feed} {m : ConnectionMove}
    (hs : f.Begun l) (hok : f.Unbroken m) (h : f.Step l live m f') : f'.Begun l := by
  refine ⟨hs.sound.step h, hs.one.step h, ?_⟩
  intro hbackfilling
  have hc := hs.complete (hbackfilling.of_step h)
  by_cases hcount : f.Resumes m
  · obtain ⟨i, notice', sinks', q, rfl, hq, hstage'⟩ := hcount
    cases h with
    | idle => exact hc
    | @turn j p rows _ _ hpoll hstage _ =>
      cases hq.symm.trans hpoll
      rw [hstage] at hstage'
      cases hstage'
    | @deliver j p rows _ _ hpoll hdue _ =>
      exact absurd hbackfilling (hs.one.over hq hstage')
    | @cut j p rows rest lost sinks _ hpoll hdue _ _ =>
      exact absurd hbackfilling (hs.one.over hq hstage')
    | drop j => exact hc.drop j
  · have hnext := hc.step hok h hcount
    cases h <;> exact hnext

/-- With the step that ends the backfill the cursor begins to be complete. -/
theorem Begun.turnover {l : Messages} {live : Bool} {f f' : Feed} {m : ConnectionMove}
    (hs : f.Begun l) (hok : f.Unbroken m) (h : f.Step l live m f') (hbefore : f.Backfilling) :
    f'.Complete l f'.cursor := by
  have hc := hs.complete hbefore
  by_cases hcount : f.Resumes m
  · exact hc.turnover hs.sound hok h hcount
  · have hnext := hc.step hok h hcount
    have hlow : f.lastEventId ≤ f'.cursor := by
      have := (hs.sound.step h).cursor
      cases h <;> exact this
    exact ⟨hnext.cursor.mono rfl (fun _ => id) hlow,
      fun j p hp => (hnext.since j p hp).mono rfl (fun _ => id) hlow, hnext.whole⟩

/-- After the backfill. -/
structure Steady (l : Messages) (base : ℤ) (f : Feed) : Prop where
  ended : ¬f.Backfilling
  complete : f.Complete l base

theorem Steady.step {l : Messages} {live : Bool} {base : ℤ} {f f' : Feed} {m : ConnectionMove}
    (hs : f.Steady l base) (hok : f.Unbroken m) (h : f.Step l live m f') : f'.Steady l base := by
  refine ⟨fun h' => hs.ended (h'.of_step h), hs.complete.step hok h ?_⟩
  rintro ⟨j, notice, sinks, p, rfl, hp, hstage⟩
  exact hs.ended (.inr ⟨j, p, hp, hstage⟩)

end Feed

namespace State

/-- The condition on a step of the stream. -/
def Regular (s : State) : Move → Prop
  | .database a => ∀ v ∈ s.messages.shown a, v.threadId = s.connection.threadId →
    s.connection.feed.Behind v
  | .connection m => s.connection.feed.Unbroken m

def Begun (s : State) : Prop := s.connection.feed.Begun s.messages

end State

theorem begun_initial {s : State} (h : stream.initial s) : s.Begun := by
  obtain ⟨threadId, lastEventId, hs⟩ := h
  have hpolls : s.connection.feed.Polls fun p => p = ⟨.tail, lastEventId, .asked⟩ := by
    intro j p hp
    simp only [hs, Connection.feed, Connection.start, Function.update_apply] at hp
    split at hp
    · exact (Option.some.inj hp).symm
    · cases hp
  have hcovered : s.connection.feed.Covered s.messages lastEventId lastEventId := by
    intro v _ _ hlt hle
    omega
  refine ⟨hs ▸ Feed.sound_start _ _, ⟨?_, ?_⟩, fun _ => ?_⟩
  · intro _ j p hp
    rw [hpolls j p hp]
    rfl
  · intro i j p q hp _ hstage
    rw [hpolls i p hp] at hstage
    cases hstage
  · have hid : s.connection.feed.lastEventId = lastEventId := by rw [hs]; rfl
    have hcursor : s.connection.feed.cursor = lastEventId := by rw [hs]; rfl
    rw [hid]
    refine ⟨by rw [hcursor]; exact hcovered, ?_, ?_⟩
    · intro j p hp
      rw [hpolls j p hp]
      exact hcovered
    · intro j p hp rows hrows
      rw [hpolls j p hp] at hrows
      cases hrows

theorem begun_step {s t : State} {a : Move} (hs : s.Begun) (hok : s.Regular a)
    (h : stream.step s a = some t) : t.Begun := by
  cases a with
  | database a =>
    obtain ⟨hconn, hact⟩ := messages_of_step h
    rw [State.Begun, hconn]
    exact ⟨hs.sound, hs.one, fun hb => (hs.complete hb).grow (Ledger.log_of_act hact) hok⟩
  | connection m =>
    obtain ⟨hmessages, hstep⟩ := connection_of_step h
    rw [State.Begun, hmessages]
    exact hs.step hok hstep

theorem steady_step {base : ℤ} {s t : State} {a : Move}
    (hs : s.connection.feed.Steady s.messages base) (hok : s.Regular a)
    (h : stream.step s a = some t) : t.connection.feed.Steady t.messages base := by
  cases a with
  | database a =>
    obtain ⟨hconn, hact⟩ := messages_of_step h
    rw [hconn]
    exact ⟨hs.ended, hs.complete.grow (Ledger.log_of_act hact) hok⟩
  | connection m =>
    obtain ⟨hmessages, hstep⟩ := connection_of_step h
    rw [hmessages]
    exact hs.step hok hstep

/-- From the end of the backfill on, every visible version of the thread that the
cursor has passed has been sent, or a later version of the message is visible. -/
theorem cursor_complete {s₀ s t : State} {a : Move} {as : List Move}
    (hs₀ : stream.ReachableIf State.Regular s₀) (ha : s₀.Regular a)
    (hstep : stream.step s₀ a = some s) (hbefore : s₀.connection.feed.Backfilling)
    (hover : ¬s.connection.feed.Backfilling) (hrun : stream.RunIf State.Regular s as t) :
    ∀ v ∈ t.messages.log, v.threadId = t.connection.threadId → s.connection.cursor < v.seq →
      v.seq ≤ t.connection.cursor → v ∈ t.connection.sent ∨ t.messages.Superseded v := by
  have hbegun : s₀.Begun := hs₀.invariant (fun _ => begun_initial) fun _ _ _ => begun_step
  have hsteady : s.connection.feed.Steady s.messages s.connection.cursor := by
    refine ⟨hover, ?_⟩
    cases a with
    | database a =>
      rw [(messages_of_step hstep).1] at hover
      exact absurd hbefore hover
    | connection m =>
      obtain ⟨hmessages, hmove⟩ := connection_of_step hstep
      rw [hmessages]
      exact hbegun.turnover ha hmove hbefore
  exact (hrun.invariant hsteady fun _ _ _ => steady_step).complete.cursor

namespace Connection

def Numbered (c : Connection) : Prop := ∀ j, c.started ≤ j → c.polls j = none

theorem Numbered.setPoll {c : Connection} (h : c.Numbered) {j : ℕ} {p : Poll}
    (hp : c.polls j = some p) (x : Option Poll) {n : ℕ} (hn : c.started ≤ n) :
    (c.setPoll j x).polls n = none := by
  have hne : n ≠ j := by
    rintro rfl
    rw [h n hn] at hp
    cases hp
  simpa only [Connection.setPoll, Function.update_of_ne hne] using h n hn

theorem Numbered.step {l : Messages} {c c' : Connection} {m : ConnectionMove} (h : c.Numbered)
    (hstep : c.step l m = some c') : c'.Numbered := by
  intro n hn
  cases m with
  | tick =>
    simp only [Connection.step, tick] at hstep
    split at hstep
    · cases hstep
    · split at hstep
      · cases hstep
        exact h n hn
      · cases hstep
        have hn : c.started + 1 ≤ n := hn
        have hne : n ≠ c.started := by omega
        simpa only [Connection.setPoll, Function.update_of_ne hne] using h n (by omega)
  | execute j =>
    simp only [Connection.step, execute] at hstep
    split at hstep
    · cases hstep
      exact h.setPoll (by assumption) _ hn
    · cases hstep
      exact h.setPoll (by assumption) _ hn
    all_goals cases hstep
  | resume j notice sinks =>
    simp only [Connection.step, resume] at hstep
    split at hstep
    · split at hstep
      · cases hstep
        exact h.setPoll (by assumption) _ hn
      · cases hstep
        exact h.setPoll (by assumption) _ hn
    · cases hstep
      rename_i hpoll
      have hannounce : ∀ notice sink, (c.announce notice sink).polls = c.polls ∧
          (c.announce notice sink).started = c.started := by
        intro notice sink
        unfold announce
        split <;> exact ⟨rfl, rfl⟩
      have hnumbered : ∀ notice sink, (c.announce notice sink).Numbered := by
        intro notice sink k hk
        rw [(hannounce notice sink).1]
        exact h k (by rw [← (hannounce notice sink).2]; exact hk)
      exact (hnumbered _ _).setPoll (by rw [(hannounce _ _).1]; exact hpoll) none hn
    all_goals cases hstep
  | fail j sink =>
    simp only [Connection.step, fail] at hstep
    split at hstep
    · cases hstep
      exact h.setPoll (by assumption) none hn
    · cases hstep
  | heartbeat sink =>
    simp only [Connection.step] at hstep
    split at hstep
    · cases hstep
      exact h n hn
    · cases hstep
  | drain | revoke | expire | close =>
    cases hstep
    exact h n hn

end Connection

namespace Sample

def inFlight (s : State) : List Poll :=
  (List.range s.connection.started).filterMap s.connection.polls

theorem mem_inFlight {s : State} (h : s.connection.Numbered) {j : ℕ} {p : Poll}
    (hp : s.connection.polls j = some p) : p ∈ inFlight s := by
  refine List.mem_filterMap.mpr ⟨j, List.mem_range.mpr ?_, hp⟩
  refine Nat.lt_of_not_le fun hle => ?_
  rw [h j hle] at hp
  cases hp

def regular (s : State) : Move → Bool
  | .database a => (s.messages.shown a).all fun v =>
    s.connection.cursor < v.seq && (inFlight s).all fun p =>
      p.since < v.seq && (p.stage.rows?.getD []).all fun row => row.seq < v.seq
  | .connection (.resume j _ sinks) => sinks.all (·.queued ≤ hardCapBytes) &&
    (s.connection.polls j).all fun p =>
      (p.stage.rows?.getD []).length < sseBackfillLimit
  | .connection _ => true

theorem regular_spec {s : State} {a : Move} (hs : s.connection.Numbered)
    (h : regular s a = true) : s.Regular a := by
  cases a with
  | database a =>
    intro v hv _
    simp only [regular, List.all_eq_true, Bool.and_eq_true, decide_eq_true_eq] at h
    refine ⟨(h v hv).1, ?_⟩
    intro j p hp
    have hpoll := (h v hv).2 p (mem_inFlight hs hp)
    refine ⟨hpoll.1, ?_⟩
    intro rows hrows row hrow
    rw [hrows] at hpoll
    exact hpoll.2 row hrow
  | connection m =>
    cases m with
    | resume j notice sinks =>
      simp only [regular, Bool.and_eq_true, List.all_eq_true, decide_eq_true_eq] at h
      refine ⟨h.1, ?_⟩
      intro p rows hp hstage _ hshort
      have hp : s.connection.polls j = some p := hp
      have hlength := h.2
      simp only [hp, Option.all_some, hstage, Stage.rows?, Option.getD_some,
        decide_eq_true_eq] at hlength
      exact absurd hshort.2 (by omega)
    | _ => trivial

theorem numbered_start : start.connection.Numbered := by
  intro j hj
  have hne : j ≠ 0 := by
    have : 1 ≤ j := hj
    omega
  simp only [start, Connection.start, Function.update_of_ne hne]

theorem numbered_step {s t : State} {a : Move} (hs : s.connection.Numbered)
    (h : stream.step s a = some t) : t.connection.Numbered := by
  cases a with
  | database a =>
    rw [(messages_of_step h).1]
    exact hs
  | connection m =>
    obtain ⟨c, hc, rfl⟩ := Option.map_eq_some_iff.mp h
    exact hs.step hc

theorem numbered_after {moves : List Move} (h : (stream.exec start moves).isSome = true) :
    (after moves).connection.Numbered :=
  (Machine.run_after h).invariant (I := fun s => s.connection.Numbered) numbered_start
    fun _ _ _ hs _ => numbered_step hs

theorem runs_regular {s : State} (hs : s.connection.Numbered) (moves : List Move)
    (h : stream.accepts regular s moves = true) :
    stream.RunIf State.Regular s moves (stream.after s moves) :=
  Machine.runIf_of_accepts (I := fun s => s.connection.Numbered)
    (fun _ _ hs => regular_spec hs) (fun _ _ _ hs _ h => numbered_step hs h) hs h

theorem not_backfilling {s : State} (hs : s.connection.Numbered)
    (h : s.connection.isBackfill = false ∧ ((inFlight s).all fun p => !p.stage.isCount) = true) :
    ¬s.connection.feed.Backfilling := by
  rintro (hbackfill | ⟨j, p, hp, hstage⟩)
  · cases h.1.symm.trans hbackfill
  · have := List.all_eq_true.mp h.2 p (mem_inFlight hs hp)
    simp_all

def counted : List Move := [execute 0, resume 0, execute 0]

def arrive : List Move := [insert 0 7 1, commit 0, tick, execute 1, resume 1]

end Sample

theorem cursor_complete_sample :
    Sample.row 7 1 ∈ (stream.after (Sample.after Sample.backfill) Sample.arrive).connection.sent ∨
      (stream.after (Sample.after Sample.backfill) Sample.arrive).messages.Superseded
        (Sample.row 7 1) := by
  have hmid : (Sample.after Sample.backfill).connection.Numbered :=
    Sample.numbered_after (by decide +kernel)
  have hbefore : (Sample.after Sample.counted).connection.Numbered :=
    Sample.numbered_after (by decide +kernel)
  have hlast : stream.step (Sample.after Sample.counted) (Sample.resume 0) =
      some (Sample.after Sample.backfill) := Sample.step_after (by decide +kernel)
  exact cursor_complete
    ⟨Sample.start, Sample.counted, Sample.initial_start,
      Sample.runs_regular Sample.numbered_start Sample.counted (by decide +kernel)⟩
    (Sample.regular_spec hbefore (by decide +kernel))
    hlast (.inr ⟨0, ⟨.tail, 0, .counted [] 0⟩, by decide +kernel, rfl⟩)
    (Sample.not_backfilling hmid (by decide +kernel))
    (Sample.runs_regular hmid Sample.arrive (by decide +kernel))
    _ (by decide +kernel) (by decide +kernel) (by decide +kernel) (by decide +kernel)

/-- A version numbered first and committed last is passed over for good. -/
theorem late_commit_is_lost :
    ∃ s₀ s t a as v, stream.Reachable s₀ ∧ stream.step s₀ a = some s ∧
      s₀.connection.feed.Backfilling ∧ ¬s.connection.feed.Backfilling ∧ stream.Run s as t ∧
      v ∈ t.messages.log ∧ v.threadId = t.connection.threadId ∧ s.connection.cursor < v.seq ∧
      v.seq ≤ t.connection.cursor ∧ ¬(v ∈ t.connection.sent ∨ t.messages.Superseded v) := by
  refine ⟨Sample.after Sample.counted, Sample.after Sample.backfill, _, Sample.resume 0,
    [Sample.insert 0 7 1, Sample.insert 1 8 2, Sample.commit 1, Sample.tick, Sample.execute 1,
      Sample.resume 1, Sample.commit 0], Sample.row 7 1,
    ⟨_, Sample.counted, Sample.initial_start, Machine.run_after (by decide +kernel)⟩,
    Sample.step_after (by decide +kernel), .inr ⟨0, ⟨.tail, 0, .counted [] 0⟩, by decide +kernel, rfl⟩,
    Sample.not_backfilling (Sample.numbered_after (by decide +kernel)) (by decide +kernel),
    Machine.run_after (by decide +kernel), ?_, ?_, ?_, ?_, ?_⟩
  all_goals decide +kernel

end Hill90.Stream
