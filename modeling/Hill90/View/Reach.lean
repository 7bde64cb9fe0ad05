import Hill90.View.History

/-! # The history of a thread over its runs

What a connection has sent and what waits to be sent leave no gap above the oldest number that the
view knows, in any run that is orderly.
-/

namespace Hill90.View.History

section Serve

variable {T U : State} {c : Connection} {ms q : List Message} {m : Message} {oldest : Option ℤ}

/-- The rows of a backfill: a tail above the cursor. -/
structure Snapshot (rows : List Message) (high cursor : ℤ) (q : List Message) : Prop where
  length : q.length ≤ sseBackfillLimit
  distinct : (q.map Message.id).Nodup
  above : ∀ m ∈ q, cursor < m.seq
  stored : ∀ m ∈ q, ¬Below (q.head?.map Message.seq) m.seq ∧ ∃ x ∈ rows, x.id = m.id ∧ m.seq ≤ x.seq
  flow : Flow rows (q.head?.map Message.seq) high ∅ q

/-- A connection whose notice has not arrived. -/
structure Quiet (T : State) (c : Connection) : Prop where
  fetch : T.fetch = none
  shown : ∀ d ∈ T.messages, d.seq ≤ c.lastEventId
  high : c.lastEventId ≤ T.high
  greeted : c.greeted = false

/-- Nothing is written yet; the backfill is asked for, or counted. -/
structure Opening (T : State) (c : Connection) : Prop where
  quiet : Quiet T c
  cursor : c.cursor = c.lastEventId
  channel : c.channel = []
  first : c.first = none
  backfill : c.isBackfill = true ∧ c.counting = none ∧ c.queries.length ≤ 1 ∧
      (∀ q ∈ c.queries, Snapshot T.rows T.high c.cursor q) ∨
    c.isBackfill = false ∧ c.queries = [] ∧
      ∃ q, c.counting = some q ∧ Snapshot T.rows T.high c.cursor q

/-- `ms` are the messages written and not received.  They leave no gap, down to `oldest`, nor do the
answers that wait, and the cursor has none below it. -/
structure Sending (T : State) (c : Connection) (oldest : Option ℤ) (ms : List Message) : Prop where
  backfill : c.isBackfill = false
  counting : c.counting = none
  first : ∃ b, c.first = some b ∧ b.messages.length ≤ sseBackfillLimit ∧
    ∃ n, b.notice = some n ∧ n.oldestSeqSent = b.messages.head?.map Message.seq
  flow : Flow T.rows oldest T.high (shown T.messages) ms
  queries : ∀ q ∈ c.queries, Flow T.rows oldest T.high (shown T.messages ∪ shown ms) q
  high : c.cursor ≤ T.high
  cursor : Filled T.rows oldest (shown T.messages ∪ shown ms) c.cursor

/-- The notice is on its way. -/
structure Announced (T : State) (c : Connection) (n : Backfill) (ms : List Message) : Prop where
  quiet : Quiet T c
  channel : c.channel = .backfill n :: ms.map Frame.message
  sending : Sending T c n.oldestSeqSent ms
  filled : Filled T.rows n.oldestSeqSent (shown T.messages) c.lastEventId
  bottom : n.hasOlder = false → ∀ x ∈ T.rows, ¬Below n.oldestSeqSent x.seq
  low : ∀ o, n.oldestSeqSent = some o → o ≤ T.high

/-- The notice has arrived. -/
structure Streaming (T : State) (c : Connection) (b : Backfill) (ms : List Message) : Prop where
  greeted : c.greeted = true
  backfill : T.backfill = some b
  channel : c.channel = ms.map Frame.message
  sending : Sending T c b.oldestSeqSent ms

def Served (T : State) (c : Connection) : Prop :=
  Opening T c ∨ (∃ n ms, Announced T c n ms) ∨ ∃ b ms, Streaming T c b ms

structure Kept (T : State) : Prop where
  stored : Stored T.rows T.high
  viewed : Viewed T
  asked : Asked T
  served : ∀ c, T.connection = some c → Served T c

theorem Quiet.congr {c' : Connection} (h : Quiet T c) (hfetch : U.fetch = T.fetch)
    (hmessages : U.messages = T.messages) (hhigh : U.high = T.high)
    (hid : c'.lastEventId = c.lastEventId) (hgreeted : c'.greeted = c.greeted) : Quiet U c' where
  fetch := by rw [hfetch]; exact h.fetch
  shown := by rw [hmessages, hid]; exact h.shown
  high := by rw [hid, hhigh]; exact h.high
  greeted := by rw [hgreeted]; exact h.greeted

/-- What is under way does not matter, nor what has been received. -/
theorem Sending.congr {channel : List Frame} {greeted : Bool} (h : Sending T c oldest ms)
    (hrows : U.rows = T.rows) (hmessages : U.messages = T.messages) (hhigh : U.high = T.high) :
    Sending U { c with channel, greeted } oldest ms where
  backfill := h.backfill
  counting := h.counting
  first := h.first
  flow := by rw [hrows, hmessages, hhigh]; exact h.flow
  queries := by rw [hrows, hmessages, hhigh]; exact h.queries
  high := by rw [hhigh]; exact h.high
  cursor := by rw [hrows, hmessages]; exact h.cursor

theorem Viewed.congr (h : Viewed T) (c : Option Connection) (f : Option (ℤ × Option Page)) :
    Viewed { T with connection := c, fetch := f } :=
  ⟨h.seq, h.empty, h.filled, h.bottom, h.low⟩

theorem Kept.setConnection (h : Kept T) {c : Connection}
    (hserved : Served T c → Served (T.setConnection c) c) (hc : Served T c) :
    Kept (T.setConnection c) := by
  refine ⟨h.stored, h.viewed.congr _ _, h.asked, fun c' hc' => ?_⟩
  cases hc'
  exact hserved hc

theorem Served.setConnection (h : Served T c) (c' : Connection) : Served (T.setConnection c') c := by
  rcases h with h | ⟨n, ms, h⟩ | ⟨b, ms, h⟩
  · exact .inl ⟨h.quiet.congr rfl rfl rfl rfl rfl, h.cursor, h.channel, h.first, h.backfill⟩
  · exact .inr (.inl ⟨n, ms, h.quiet.congr rfl rfl rfl rfl rfl, h.channel,
      h.sending.congr rfl rfl rfl, h.filled, h.bottom, h.low⟩)
  · exact .inr (.inr ⟨b, ms, h.greeted, h.backfill, h.channel, h.sending.congr rfl rfl rfl⟩)

theorem Kept.connection (h : Kept T) (hc : Served T c) : Kept (T.setConnection c) :=
  h.setConnection (fun hc => hc.setConnection c) hc

/-- The tail that a backfill reads. -/
theorem snapshot_backfillTail (h : Stored T.rows T.high) (cursor : ℤ) :
    Snapshot T.rows T.high cursor (backfillTail T.rows cursor) := by
  have hsorted := h.sorted.filter fun m => decide (cursor < m.seq)
  have hsub := newest_sublist sseBackfillLimit (T.rows.filter fun m => cursor < m.seq)
  have hmem : ∀ m ∈ backfillTail T.rows cursor, m ∈ T.rows ∧ cursor < m.seq := by
    intro m hm
    have hfilter := hsub.subset hm
    exact ⟨List.mem_of_mem_filter hfilter, of_decide_eq_true (List.mem_filter.mp hfilter).2⟩
  refine ⟨length_newest _ _, ?_, fun m hm => (hmem m hm).2, fun m hm => ?_, ?_⟩
  · exact h.distinct.sublist ((hsub.trans List.filter_sublist).map _)
  · exact ⟨not_below_of_mem (hsorted.sublist hsub) hm, m, (hmem m hm).1, rfl, le_rfl⟩
  · intro front m back hq
    have hm : m ∈ backfillTail T.rows cursor := by
      rw [hq]
      exact List.mem_append_right _ List.mem_cons_self
    refine ⟨h.high m (hmem m hm).1, ?_⟩
    intro x hx hle hb
    have hpos : 0 < sseBackfillLimit := by
      unfold sseBackfillLimit
      exact Nat.succ_pos 499
    -- the row is above the first of the tail, so above the cursor
    have habove : cursor < x.seq := by
      cases hhead : backfillTail T.rows cursor with
      | nil =>
        rw [hhead] at hm
        cases hm
      | cons f rest =>
        have hf := (hmem f (by rw [hhead]; exact List.mem_cons_self)).2
        by_contra hlow
        refine hb ⟨f.seq, ?_, by omega⟩
        rw [hhead]
        rfl
    have hin := mem_newest hsorted hpos (List.mem_filter.mpr ⟨hx, decide_eq_true habove⟩) hb
    exact .inr ⟨x, mem_front (hsorted.sublist hsub) hq hin hle, rfl⟩

theorem Snapshot.store {cursor : ℤ} (h : Snapshot T.rows T.high cursor q) (hm : T.high < m.seq) :
    Snapshot (store T.rows m) (max T.high m.seq) cursor q := by
  refine ⟨h.length, h.distinct, h.above, fun y hy => ?_, h.flow.store hm⟩
  obtain ⟨hb, x, hx, hid, hle⟩ := h.stored y hy
  refine ⟨hb, ?_⟩
  by_cases heq : x.id = m.id
  · obtain ⟨front, back, rfl⟩ := List.append_of_mem hy
    have hhigh := (h.flow front y back rfl).1
    exact ⟨m, mem_store.mpr (.inl rfl), heq.symm.trans hid, by omega⟩
  · exact ⟨x, mem_store.mpr (.inr ⟨hx, heq⟩), hid, hle⟩

/-- A notice that says there is nothing older tells the truth. -/
theorem Snapshot.bottom {cursor : ℤ} (h : Snapshot T.rows T.high cursor q)
    (hstored : Stored T.rows T.high)
    (hno : (backfillNotice q T.rows.length).hasOlder = false) :
    ∀ x ∈ T.rows, ¬Below (q.head?.map Message.seq) x.seq := by
  intro x hx
  have hlength : T.rows.length ≤ q.length := not_lt.mp (of_decide_eq_false hno)
  have hsub : q.map Message.id ⊆ T.rows.map Message.id := by
    intro id hid
    obtain ⟨m, hm, rfl⟩ := List.mem_map.mp hid
    obtain ⟨-, y, hy, hyid, -⟩ := h.stored m hm
    exact hyid ▸ List.mem_map_of_mem hy
  have hperm := (List.subperm_of_subset h.distinct hsub).perm_of_length_le (by simpa using hlength)
  obtain ⟨m, hm, hid⟩ := List.mem_map.mp (hperm.mem_iff.mpr (List.mem_map_of_mem hx))
  obtain ⟨hb, y, hy, hyid, hle⟩ := h.stored m hm
  obtain rfl : y = x := List.inj_on_of_nodup_map hstored.distinct hy hx (hyid.trans hid)
  rintro ⟨o, ho, hlt⟩
  exact hb ⟨o, ho, by omega⟩

theorem Sending.store {oldest : Option ℤ} (h : Sending T c oldest ms) (hm : T.high < m.seq) :
    Sending { T with rows := store T.rows m, high := max T.high m.seq } c oldest ms :=
  ⟨h.backfill, h.counting, h.first, h.flow.store hm, fun q hq => (h.queries q hq).store hm,
    Int.le_trans h.high (Int.le_max_left _ _), h.cursor.store (Int.lt_of_le_of_lt h.high hm)⟩

theorem Quiet.store (h : Quiet T c) (m : Message) :
    Quiet { T with rows := store T.rows m, high := max T.high m.seq } c :=
  ⟨h.fetch, h.shown, Int.le_trans h.high (Int.le_max_left _ _), h.greeted⟩

/-- The new row stands above everything that a notice or a page speaks of. -/
theorem not_below_store {rows : List Message} {high : ℤ} (hlow : ∀ o, oldest = some o → o ≤ high)
    (hm : high < m.seq) (h : ∀ x ∈ rows, ¬Below oldest x.seq) :
    ∀ x ∈ store rows m, ¬Below oldest x.seq := by
  intro x hx
  rcases mem_store.mp hx with rfl | ⟨hx, -⟩
  · rintro ⟨o, ho, hlt⟩
    have hle := hlow o ho
    omega
  · exact h x hx

theorem Served.store (h : Served T c) (hm : T.high < m.seq) :
    Served { T with rows := store T.rows m, high := max T.high m.seq } c := by
  rcases h with h | ⟨n, ms, h⟩ | ⟨b, ms, h⟩
  · refine .inl ⟨h.quiet.store m, h.cursor, h.channel, h.first, ?_⟩
    rcases h.backfill with ⟨hb, hc, hlength, hq⟩ | ⟨hb, hq, q, hc, hsnap⟩
    · exact .inl ⟨hb, hc, hlength, fun q hq' => (hq q hq').store hm⟩
    · exact .inr ⟨hb, hq, q, hc, hsnap.store hm⟩
  · have hlast := Int.lt_of_le_of_lt h.quiet.high hm
    exact .inr (.inl ⟨n, ms, h.quiet.store m, h.channel, h.sending.store hm, h.filled.store hlast,
      fun hno => not_below_store h.low hm (h.bottom hno),
      fun o ho => Int.le_trans (h.low o ho) (Int.le_max_left _ _)⟩)
  · exact .inr (.inr ⟨b, ms, h.greeted, h.backfill, h.channel, h.sending.store hm⟩)

theorem Kept.commit (h : Kept T) (hm : T.high < m.seq) :
    Kept { T with rows := store T.rows m, high := max T.high m.seq } := by
  refine ⟨h.stored.store hm, ?_, ?_, fun c hc => (h.served c hc).store hm⟩
  · refine ⟨fun d hd => Int.le_trans (h.viewed.seq d hd) (Int.le_max_left _ _), h.viewed.empty,
      fun b hb d hd => ?_, fun b hb hno => ?_, fun b o hb ho => ?_⟩
    · have hd' := h.viewed.seq d hd
      exact (h.viewed.filled b hb d hd).store (by omega)
    · exact not_below_store (fun o ho => h.viewed.low b o hb ho) hm (h.viewed.bottom b hb hno)
    · exact Int.le_trans (h.viewed.low b o hb ho) (Int.le_max_left _ _)
  · intro before p hp
    obtain ⟨⟨b, hb, ho⟩, hpage⟩ := h.asked before p hp
    have hlow := h.viewed.low b before hb ho
    exact ⟨⟨b, hb, ho⟩, fun page hpp => (hpage page hpp).store (by omega)⟩

theorem Sending.poll {oldest : Option ℤ} (h : Sending T c oldest ms)
    (hstored : Stored T.rows T.high) : Sending T (c.poll T.rows) oldest ms := by
  refine ⟨h.backfill, h.counting, h.first, h.flow, ?_, h.high, h.cursor⟩
  intro q hq
  rcases List.mem_append.mp hq with hq | hq
  · exact h.queries q hq
  rw [List.mem_singleton.mp hq, if_neg (by rw [h.backfill]; exact Bool.false_ne_true)]
  intro front m back heq
  have hm : m ∈ pollRows T.rows c.cursor := by
    rw [heq]
    exact List.mem_append_right _ List.mem_cons_self
  refine ⟨hstored.high m (List.mem_of_mem_filter hm), ?_⟩
  intro x hx hle hb
  rcases lt_or_ge c.cursor x.seq with hlt | hge
  · have hin : x ∈ pollRows T.rows c.cursor := List.mem_filter.mpr ⟨hx, decide_eq_true hlt⟩
    exact .inr ⟨x, mem_front (hstored.sorted.filter _) heq hin hle, rfl⟩
  · exact .inl (h.cursor x hx hge hb)

theorem Served.poll (h : Served T c) (hstored : Stored T.rows T.high)
    (hok : c.counting = none ∧ (c.isBackfill = true → c.queries = [])) :
    Served T (c.poll T.rows) := by
  rcases h with h | ⟨n, ms, h⟩ | ⟨b, ms, h⟩
  · rcases h.backfill with ⟨hb, hc, -, -⟩ | ⟨-, -, q, hc, -⟩
    · refine .inl ⟨h.quiet.congr rfl rfl rfl rfl rfl, h.cursor,
        h.channel, h.first, .inl ⟨hb, hc, ?_, ?_⟩⟩
      · change (c.queries ++ [_]).length ≤ 1
        rw [hok.2 hb]
        exact le_rfl
      · intro q hq
        change q ∈ c.queries ++ [_] at hq
        rw [hok.2 hb, List.nil_append, List.mem_singleton, if_pos hb] at hq
        rw [hq]
        exact snapshot_backfillTail hstored c.cursor
    · rw [hok.1] at hc
      cases hc
  · exact .inr (.inl ⟨n, ms, h.quiet.congr rfl rfl rfl rfl rfl,
      h.channel, h.sending.poll hstored, h.filled, h.bottom, h.low⟩)
  · exact .inr (.inr ⟨b, ms, h.greeted, h.backfill, h.channel, h.sending.poll hstored⟩)

theorem Sending.write {oldest : Option ℤ} (h : Sending T c oldest ms)
    (hq : Flow T.rows oldest T.high (shown T.messages ∪ shown ms) q) :
    Sending T (c.write none q) oldest (ms ++ q) := by
  have hshown : shown T.messages ∪ shown (ms ++ q) = shown T.messages ∪ shown ms ∪ shown q := by
    rw [shown_append, Set.union_assoc]
  have hgrow : shown T.messages ∪ shown ms ⊆ shown T.messages ∪ shown (ms ++ q) := by
    rw [hshown]
    exact Set.subset_union_left
  obtain ⟨b, hb, hlength, hnotice⟩ := h.first
  have hcursor : (c.write none q).cursor ≤ T.high ∧
      Filled T.rows oldest (shown T.messages ∪ shown (ms ++ q)) (c.write none q).cursor := by
    cases hlast : q.getLast? with
    | none =>
      have heq : (c.write none q).cursor = c.cursor := by
        unfold Connection.write
        rw [hlast]
        rfl
      rw [heq]
      exact ⟨h.high, h.cursor.mono hgrow⟩
    | some m =>
      have heq : (c.write none q).cursor = m.seq := by
        unfold Connection.write
        rw [hlast]
        rfl
      rw [heq, hshown]
      exact hq.last hlast
  refine ⟨h.backfill, h.counting, ⟨b, ?_, hlength, hnotice⟩, h.flow.append hq,
    fun q' hq' => (h.queries q' hq').mono hgrow, hcursor.1, hcursor.2⟩
  change c.first.or _ = _
  rw [hb]
  rfl

theorem Sending.erase {oldest : Option ℤ} (h : Sending T c oldest ms) (i : ℕ) :
    Sending T { c with queries := c.queries.eraseIdx i } oldest ms :=
  ⟨h.backfill, h.counting, h.first, h.flow,
    fun q hq => h.queries q (List.mem_of_mem_eraseIdx hq), h.high, h.cursor⟩

theorem Sending.settle {oldest : Option ℤ} (h : Sending T c oldest ms) {i : ℕ}
    (hi : c.queries[i]? = some q) : Sending T (c.settle i q) oldest (ms ++ q) := by
  unfold Connection.settle
  rw [if_neg (by rw [h.backfill]; exact Bool.false_ne_true)]
  exact (h.erase i).write (h.queries q (List.mem_of_getElem? hi))

theorem Served.settle (h : Served T c) {i : ℕ} (hi : c.queries[i]? = some q) :
    Served T (c.settle i q) := by
  rcases h with h | ⟨n, ms, h⟩ | ⟨b, ms, h⟩
  · rcases h.backfill with ⟨hb, -, hlength, hq⟩ | ⟨-, hq, -⟩
    · have hone : c.queries.eraseIdx i = [] := by
        obtain ⟨hlt, -⟩ := List.getElem?_eq_some_iff.mp hi
        refine List.length_eq_zero_iff.mp ?_
        rw [List.length_eraseIdx_of_lt hlt]
        omega
      have hsnap := hq q (List.mem_of_getElem? hi)
      unfold Connection.settle
      rw [if_pos hb]
      exact .inl ⟨h.quiet.congr rfl rfl rfl rfl rfl, h.cursor, h.channel,
        h.first, .inr ⟨rfl, hone, q, rfl, hsnap⟩⟩
    · rw [hq] at hi
      cases hi
  · have hchannel : (c.settle i q).channel = .backfill n :: (ms ++ q).map Frame.message := by
      unfold Connection.settle
      rw [if_neg (by rw [h.sending.backfill]; exact Bool.false_ne_true), List.map_append]
      exact congrArg (· ++ q.map Frame.message) h.channel
    have hsame : (c.settle i q).lastEventId = c.lastEventId ∧ (c.settle i q).greeted = c.greeted := by
      unfold Connection.settle
      rw [if_neg (by rw [h.sending.backfill]; exact Bool.false_ne_true)]
      exact ⟨rfl, rfl⟩
    refine .inr (.inl ⟨n, ms ++ q, ⟨h.quiet.fetch, ?_, ?_, ?_⟩, hchannel, h.sending.settle hi, ?_,
      h.bottom, h.low⟩)
    · rw [hsame.1]
      exact h.quiet.shown
    · rw [hsame.1]
      exact h.quiet.high
    · rw [hsame.2]
      exact h.quiet.greeted
    · rw [hsame.1]
      exact h.filled
  · refine .inr (.inr ⟨b, ms ++ q, ?_, h.backfill, ?_, h.sending.settle hi⟩)
    · unfold Connection.settle
      rw [if_neg (by rw [h.sending.backfill]; exact Bool.false_ne_true)]
      exact h.greeted
    · unfold Connection.settle
      rw [if_neg (by rw [h.sending.backfill]; exact Bool.false_ne_true), List.map_append]
      exact congrArg (· ++ q.map Frame.message) h.channel

theorem Served.counted (h : Served T c) (hstored : Stored T.rows T.high)
    (hq : c.counting = some q)
    (hempty : q = [] → ∀ x ∈ T.rows, x.seq ≤ c.cursor → x.id ∈ shown T.messages) :
    Served T (c.counted q T.rows.length true) := by
  rcases h with h | ⟨n, ms, h⟩ | ⟨b, ms, h⟩
  · rcases h.backfill with ⟨-, hc, -⟩ | ⟨hb, hqueries, q', hc, hsnap⟩
    · rw [hc] at hq
      cases hq
    rw [hq] at hc
    cases hc
    have hflow : Flow T.rows (q.head?.map Message.seq) T.high (shown T.messages) q :=
      hsnap.flow.mono (Set.empty_subset _)
    have hfilled : Filled T.rows (q.head?.map Message.seq) (shown T.messages) c.cursor := by
      intro x hx hle hbelow
      cases hhead : q with
      | nil => exact hempty hhead x hx hle
      | cons f rest =>
        have hf := hsnap.above f (by rw [hhead]; exact List.mem_cons_self)
        refine absurd ⟨f.seq, ?_, by omega⟩ hbelow
        rw [hhead]
        rfl
    have hlow : ∀ o, q.head?.map Message.seq = some o → o ≤ T.high := by
      intro o ho
      cases hhead : q with
      | nil =>
        rw [hhead] at ho
        cases ho
      | cons f rest =>
        rw [hhead] at ho
        cases ho
        exact (hsnap.flow [] f rest hhead).1
    have hcursor : (c.counted q T.rows.length true).cursor ≤ T.high ∧
        Filled T.rows (q.head?.map Message.seq) (shown T.messages ∪ shown q)
          (c.counted q T.rows.length true).cursor := by
      cases hlast : q.getLast? with
      | none =>
        have heq : (c.counted q T.rows.length true).cursor = c.cursor := by
          change (q.getLast?.map Message.seq).getD c.cursor = c.cursor
          rw [hlast]
          rfl
        rw [heq]
        exact ⟨h.cursor ▸ h.quiet.high, hfilled.mono Set.subset_union_left⟩
      | some m =>
        have heq : (c.counted q T.rows.length true).cursor = m.seq := by
          change (q.getLast?.map Message.seq).getD c.cursor = m.seq
          rw [hlast]
          rfl
        rw [heq]
        exact hflow.last hlast
    refine .inr (.inl ⟨backfillNotice q T.rows.length, q,
      h.quiet.congr rfl rfl rfl rfl rfl, ?_, ?_, ?_, ?_, hlow⟩)
    · change c.channel ++ _ = _
      rw [h.channel]
      rfl
    · refine ⟨hb, rfl, ⟨⟨some (backfillNotice q T.rows.length), q⟩, ?_, hsnap.length, _, rfl, rfl⟩,
        hflow, ?_, hcursor.1, hcursor.2⟩
      · change c.first.or _ = _
        rw [h.first]
        rfl
      · intro q' hq'
        change q' ∈ c.queries at hq'
        rw [hqueries] at hq'
        cases hq'
    · rw [h.cursor] at hfilled
      exact hfilled
    · exact fun hno => hsnap.bottom hstored hno
  · rw [h.sending.counting] at hq
    cases hq
  · rw [h.sending.counting] at hq
    cases hq

theorem Announced.receive {n : Backfill} (h : Announced T c n ms) (hk : Kept T) :
    Kept ((T.receive (.backfill n)).setConnection
      { c with channel := ms.map Frame.message, greeted := true }) := by
  refine ⟨hk.stored, ⟨hk.viewed.seq, fun hnone => (by cases hnone), fun b hb d hd => ?_,
    fun b hb => ?_, fun b o hb => ?_⟩, fun before p hp => ?_, fun c' hc' => ?_⟩
  · cases hb
    have hle := h.quiet.shown d hd
    exact fun x hx hr => h.filled x hx (Int.le_trans hr hle)
  · cases hb
    exact h.bottom
  · cases hb
    exact h.low o
  · have hnone := h.quiet.fetch
    change T.fetch = some (before, p) at hp
    rw [hnone] at hp
    cases hp
  · cases hc'
    exact .inr (.inr ⟨n, ms, rfl, rfl, rfl, h.sending.congr rfl rfl rfl⟩)

theorem Streaming.receive {b : Backfill} (h : Streaming T c b (m :: ms)) (hk : Kept T) :
    Kept ((T.receive (.message m)).setConnection { c with channel := ms.map Frame.message }) := by
  obtain ⟨hhigh, hfilled⟩ := h.sending.flow [] m ms rfl
  have hmerge := shown_merge T.messages m
  have hgrow : shown T.messages ⊆ shown (merge T.messages m) := by
    rw [hmerge]
    exact Set.subset_union_left
  have hshown : shown T.messages ∪ shown (m :: ms) = shown (merge T.messages m) ∪ shown ms := by
    have hcons : shown (m :: ms) = shown [m] ∪ shown ms := shown_append [m] ms
    rw [hmerge, Set.union_assoc, hcons]
  refine ⟨hk.stored, ⟨fun d hd => ?_, fun hnone => ?_, fun b' hb' d hd => ?_, hk.viewed.bottom,
    hk.viewed.low⟩, hk.asked, fun c' hc' => ?_⟩
  · rcases mem_of_mem_merge hd with rfl | hd
    · exact hhigh
    · exact hk.viewed.seq d hd
  · change T.backfill = none at hnone
    rw [h.backfill] at hnone
    cases hnone
  · change T.backfill = some b' at hb'
    rw [h.backfill] at hb'
    cases hb'
    change Filled T.rows b.oldestSeqSent (shown (merge T.messages m)) d.seq
    rcases mem_of_mem_merge hd with rfl | hd
    · rw [hmerge]
      exact hfilled
    · exact (hk.viewed.filled b h.backfill d hd).mono hgrow
  · cases hc'
    have hflow : Flow T.rows b.oldestSeqSent T.high (shown (merge T.messages m)) ms := by
      rw [hmerge]
      exact h.sending.flow.tail
    have hqueries := h.sending.queries
    have hcursor := h.sending.cursor
    rw [hshown] at hqueries hcursor
    exact .inr (.inr ⟨b, ms, h.greeted, h.backfill, rfl, h.sending.backfill, h.sending.counting,
      h.sending.first, hflow, hqueries, h.sending.high, hcursor⟩)

/-- While a page is under way the connection has sent its notice. -/
theorem Served.streaming (h : Served T c) (hok : c.greeted = true ∨ T.fetch ≠ none) :
    ∃ b ms, Streaming T c b ms := by
  have hquiet : ¬Quiet T c := by
    intro hq
    rcases hok with hok | hok
    · rw [hq.greeted] at hok
      cases hok
    · exact hok hq.fetch
  rcases h with h | ⟨n, ms, h⟩ | h
  · exact absurd h.quiet hquiet
  · exact absurd h.quiet hquiet
  · exact h

theorem Kept.setFetch (h : Kept T) (f : Option (ℤ × Option Page))
    (hasked : Asked { T with fetch := f })
    (hserved : ∀ c, T.connection = some c → ∃ b ms, Streaming T c b ms) :
    Kept { T with fetch := f } := by
  refine ⟨h.stored, h.viewed.congr _ _, hasked, fun c hc => ?_⟩
  obtain ⟨b, ms, hs⟩ := hserved c hc
  exact .inr (.inr ⟨b, ms, hs.greeted, hs.backfill, hs.channel, hs.sending.congr rfl rfl rfl⟩)

theorem Sending.respond {page : Page} {before : ℤ} {ids : Set String}
    (h : Sending T c (some before) ms) (hpage : PageOk T.rows before page)
    (hgrow : shown T.messages ⊆ ids) (hshown : shown page.messages ⊆ ids) :
    Flow T.rows (page.messages.head?.map Message.seq) T.high ids ms ∧
      (∀ q ∈ c.queries, Flow T.rows (page.messages.head?.map Message.seq) T.high (ids ∪ shown ms) q) ∧
      Filled T.rows (page.messages.head?.map Message.seq) (ids ∪ shown ms) c.cursor := by
  have hlower : ∀ {more : Set String} {qs : List Message},
      Flow T.rows (some before) T.high (shown T.messages ∪ more) qs →
        Flow T.rows (page.messages.head?.map Message.seq) T.high (ids ∪ more) qs := by
    intro more qs hflow front m back heq
    obtain ⟨hle, hfilled⟩ := hflow front m back heq
    refine ⟨hle, hfilled.respond hpage ?_ ?_⟩
    · exact Set.union_subset_union_left _ (Set.union_subset_union_left _ hgrow)
    · exact hshown.trans (Set.subset_union_left.trans Set.subset_union_left)
  refine ⟨?_, fun q hq => hlower (h.queries q hq), ?_⟩
  · have hflow : Flow T.rows (some before) T.high (shown T.messages ∪ ∅) ms := by
      rw [Set.union_empty]
      exact h.flow
    have hlow := hlower hflow
    rwa [Set.union_empty] at hlow
  · exact h.cursor.respond hpage (Set.union_subset_union_left _ hgrow)
      (hshown.trans Set.subset_union_left)

theorem Kept.respond (h : Kept T) {before : ℤ} {page : Page}
    (hfetch : T.fetch = some (before, some page)) : Kept { T.respond page with fetch := none } := by
  obtain ⟨⟨b, hb, ho⟩, hpage⟩ := h.asked before (some page) hfetch
  have hpage := hpage page rfl
  obtain ⟨hrows, hhigh, hconnection, -⟩ := rows_respond T page
  have hviewed := h.viewed.respond hb ho hpage
  refine ⟨?_, hviewed.congr _ _, fun before p hp => (by cases hp), fun c hc => ?_⟩
  · change Stored (T.respond page).rows (T.respond page).high
    rw [hrows, hhigh]
    exact h.stored
  change (T.respond page).connection = some c at hc
  rw [hconnection] at hc
  have hsome : T.fetch ≠ none := by
    rw [hfetch]
    exact fun heq => by cases heq
  obtain ⟨b', ms, hs⟩ := (h.served c hc).streaming (.inr hsome)
  have hb' := hs.backfill
  rw [hb] at hb'
  cases hb'
  have hsending := hs.sending
  rw [ho] at hsending
  have hlower : page.messages ≠ [] → _ := fun _ =>
    hsending.respond hpage (shown_prepend page.messages T.messages).1
      (shown_prepend page.messages T.messages).2
  unfold State.respond
  split
  · refine .inr (.inr ⟨{ b with hasOlder := false }, ms, hs.greeted, ?_, hs.channel,
      hs.sending.congr rfl rfl rfl⟩)
    change T.backfill.map _ = _
    rw [hb]
    rfl
  · next f rest hcons =>
    obtain ⟨hflow, hqueries, hcursor⟩ := hlower (by rw [hcons]; exact List.cons_ne_nil _ _)
    have hhead : page.messages.head?.map Message.seq = some f.seq := by
      rw [hcons]
      rfl
    rw [hhead] at hflow hqueries hcursor
    refine .inr (.inr ⟨⟨some f.seq, page.hasOlder⟩, ms, hs.greeted, ?_, hs.channel,
      hs.sending.backfill, hs.sending.counting, hs.sending.first, hflow, hqueries, hs.sending.high,
      hcursor⟩)
    change T.backfill.map _ = _
    rw [hb]
    rfl

end Serve

section Runs

variable {T U : State}

theorem kept_initial : Kept {} := by
  refine ⟨⟨List.Pairwise.nil, List.nodup_nil, fun x hx => by cases hx⟩, ?_, ?_, ?_⟩
  · exact ⟨fun d hd => (by cases hd), fun _ => rfl, fun b hb => (by cases hb),
      fun b hb => (by cases hb), fun b o hb => (by cases hb)⟩
  · exact fun before p hp => by cases hp
  · exact fun c hc => by cases hc

theorem Kept.deliver (h : Kept T) (hstep : step T .deliver = some U) : Kept U := by
  obtain ⟨c, hc, hstep⟩ := Option.bind_eq_some_iff.mp hstep
  rcases h.served c hc with hs | ⟨n, ms, hs⟩ | ⟨b, ms, hs⟩
  · rw [hs.channel] at hstep
    cases hstep
  · rw [hs.channel] at hstep
    cases hstep
    exact hs.receive h
  · rw [hs.channel] at hstep
    cases ms with
    | nil => cases hstep
    | cons m ms =>
      cases hstep
      exact hs.receive h

/-- One event, taken as `Orderly` has it. -/
theorem Kept.step (h : Kept T) {e : Event} (hok : Orderly T e) (hstep : step T e = some U) :
    Kept U := by
  cases e with
  | commit m =>
    obtain ⟨-, hU⟩ := Option.ite_none_right_eq_some.mp hstep
    cases hU
    exact h.commit hok
  | connect n =>
    cases hc : T.connection with
    | some c => simp [History.step, hc] at hstep
    | none =>
      simp only [History.step, hc] at hstep
      cases hstep
      refine h.connection (.inl ⟨⟨hok.1, hok.2.1, hok.2.2, rfl⟩, rfl, rfl, rfl, ?_⟩)
      exact .inl ⟨rfl, rfl, Nat.zero_le _, fun q hq => by cases hq⟩
  | drop =>
    obtain ⟨c, -, rfl⟩ := Option.map_eq_some_iff.mp hstep
    exact ⟨h.stored, h.viewed.congr _ _, h.asked, fun c hc => by cases hc⟩
  | poll =>
    obtain ⟨c, hc, rfl⟩ := Option.map_eq_some_iff.mp hstep
    exact h.connection ((h.served c hc).poll h.stored (hok c hc))
  | settle i =>
    obtain ⟨c, hc, hstep⟩ := Option.bind_eq_some_iff.mp hstep
    obtain ⟨q, hq, rfl⟩ := Option.map_eq_some_iff.mp hstep
    exact h.connection ((h.served c hc).settle hq)
  | counted ok =>
    obtain ⟨rfl, hempty⟩ := hok
    obtain ⟨c, hc, hstep⟩ := Option.bind_eq_some_iff.mp hstep
    obtain ⟨q, hq, rfl⟩ := Option.map_eq_some_iff.mp hstep
    refine h.connection ((h.served c hc).counted h.stored hq fun hnil => ?_)
    exact hempty c hc (hnil ▸ hq)
  | deliver => exact h.deliver hstep
  | loadOlder =>
    obtain ⟨o, ho, hstep⟩ := Option.bind_eq_some_iff.mp hstep
    obtain ⟨-, hU⟩ := Option.ite_none_left_eq_some.mp hstep
    cases hU
    obtain ⟨b, hb, hbo⟩ := Option.bind_eq_some_iff.mp ho
    refine h.setFetch _ (fun before p hp => ?_) fun c hc =>
      (h.served c hc).streaming (.inl (hok c hc))
    cases hp
    exact ⟨⟨b, hb, hbo⟩, fun page hp => by cases hp⟩
  | answer =>
    obtain ⟨f, hf, hstep⟩ := Option.bind_eq_some_iff.mp hstep
    obtain ⟨-, hU⟩ := Option.ite_none_left_eq_some.mp hstep
    cases hU
    have hsome : T.fetch ≠ none := by
      rw [hf]
      exact fun heq => by cases heq
    refine h.setFetch _ (fun before p hp => ?_) fun c hc =>
      (h.served c hc).streaming (.inr hsome)
    cases hp
    refine ⟨(h.asked f.1 f.2 hf).1, fun page hp => ?_⟩
    cases hp
    exact pageOk_threadPage h.stored f.1
  | response =>
    obtain ⟨f, hf, hstep⟩ := Option.bind_eq_some_iff.mp hstep
    obtain ⟨page, hpage, rfl⟩ := Option.map_eq_some_iff.mp hstep
    have hfetch : T.fetch = some (f.1, some page) := by
      rw [hf, ← hpage]
    exact h.respond hfetch
  | failed =>
    obtain ⟨f, hf, rfl⟩ := Option.map_eq_some_iff.mp hstep
    have hsome : T.fetch ≠ none := by
      rw [hf]
      exact fun heq => by cases heq
    exact h.setFetch _ (fun before p hp => by cases hp) fun c hc =>
      (h.served c hc).streaming (.inr hsome)

theorem Kept.bounded (h : Kept T) {c : Connection} (hc : T.connection = some c) {b : Batch}
    (hb : c.first = some b) : b.messages.length ≤ sseBackfillLimit ∧
      ∃ n, b.notice = some n ∧ n.oldestSeqSent = b.messages.head?.map Message.seq := by
  have hfirst : ∀ {oldest ms}, Sending T c oldest ms → b.messages.length ≤ sseBackfillLimit ∧
      ∃ n, b.notice = some n ∧ n.oldestSeqSent = b.messages.head?.map Message.seq := by
    intro oldest ms hs
    obtain ⟨b', hb', hgood⟩ := hs.first
    rw [hb] at hb'
    cases hb'
    exact hgood
  rcases h.served c hc with hs | ⟨n, ms, hs⟩ | ⟨b', ms, hs⟩
  · rw [hs.first] at hb
    cases hb
  · exact hfirst hs.sending
  · exact hfirst hs.sending

/-- In a run whose steps are all orderly the history is bounded and within reach. -/
theorem reachable_of_orderly (h : machine.ReachableIf Orderly T) : Reachable T := by
  have hkept : Kept T := h.invariant (fun s hs => hs ▸ kept_initial)
    fun s e t hs hok hstep => hs.step hok hstep
  refine ⟨fun c hc b hb => hkept.bounded hc hb, hkept.viewed.reachable hkept.stored, ?_⟩
  exact fun before => ⟨fun m hm => (mem_threadPage hm).2, hasOlder_threadPage hkept.stored before⟩

def calm (T : State) : Event → Bool
  | .commit m => decide (T.high < m.seq)
  | .connect n => T.fetch.isNone && (T.messages.all fun d => decide (d.seq ≤ n)) && decide (n ≤ T.high)
  | .poll => T.connection.all fun c => c.counting.isNone && (!c.isBackfill || c.queries.isEmpty)
  | .counted ok => ok && T.connection.all fun c => c.counting.all fun q => !q.isEmpty
  | .loadOlder => T.connection.all fun c => c.greeted
  | _ => true

theorem orderly_of_calm {e : Event} (hcalm : calm T e = true) : Orderly T e := by
  cases e with
  | commit m =>
    have hlt : T.high < m.seq := of_decide_eq_true hcalm
    exact hlt
  | connect n =>
    simp only [calm, Bool.and_eq_true, Option.isNone_iff_eq_none, List.all_eq_true,
      decide_eq_true_eq] at hcalm
    exact ⟨hcalm.1.1, hcalm.1.2, hcalm.2⟩
  | poll =>
    intro c hc
    simp only [calm, hc, Option.all_some, Bool.and_eq_true, Option.isNone_iff_eq_none] at hcalm
    refine ⟨hcalm.1, fun hb => ?_⟩
    simpa [hb] using hcalm.2
  | counted ok =>
    simp only [calm, Bool.and_eq_true] at hcalm
    refine ⟨hcalm.1, fun c hc hq => ?_⟩
    simp [hc, hq] at hcalm
  | loadOlder =>
    intro c hc
    simpa [calm, hc] using hcalm
  | drop => trivial
  | settle i => trivial
  | deliver => trivial
  | answer => trivial
  | response => trivial
  | failed => trivial

/-- Two messages, a connection that sends them, and another one for the third. -/
def reconnected : List Event :=
  [.commit ⟨"a", 1⟩, .commit ⟨"b", 2⟩, .connect 0, .poll, .settle 0, .counted true, .deliver, .deliver,
    .deliver, .drop, .commit ⟨"c", 3⟩, .connect 2, .poll, .settle 0, .counted true, .deliver, .deliver]

theorem reachable_reconnected : Reachable (machine.after {} reconnected) := by
  have hcalm : machine.accepts calm {} reconnected = true := by decide +kernel
  have hrun : machine.RunIf Orderly {} reconnected (machine.after {} reconnected) :=
    Machine.runIf_of_accepts (C := calm) (I := fun _ => True) (fun _ _ _ h => orderly_of_calm h)
      (fun _ _ _ _ _ _ => trivial) trivial hcalm
  exact reachable_of_orderly ⟨{}, reconnected, rfl, hrun⟩

/-- The count of the backfill fails, and the next poll sends the message. -/
def uncounted : List Event :=
  [.commit ⟨"a", 1⟩, .connect 0, .poll, .settle 0, .counted false, .poll, .settle 0]

theorem uncounted_not_reachable : ¬∀ T, machine.Reachable T → Reachable T := by
  intro h
  have hrun : (machine.exec {} uncounted).isSome = true := by decide +kernel
  have hall := h _ ⟨{}, uncounted, rfl, Machine.run_after hrun⟩
  have hnotice : ((machine.after {} uncounted).connection.bind fun c =>
      c.first.map Batch.notice) = some none := by decide +kernel
  obtain ⟨c, hc, hfirst⟩ := Option.bind_eq_some_iff.mp hnotice
  obtain ⟨b, hb, hnone⟩ := Option.map_eq_some_iff.mp hfirst
  obtain ⟨-, n, hn, -⟩ := hall.bounded c hc b hb
  rw [hnone] at hn
  cases hn

end Runs

end Hill90.View.History
