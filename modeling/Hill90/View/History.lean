import Mathlib.Data.Set.Insert
import Mathlib.Data.Set.Lattice
import Mathlib.Data.List.Perm.Subperm
import Hill90.View.Screen

/-! # The history of a thread

The backfill of `GET /threads/:id/stream`, its polls and the pages of `GET /threads/:id`, with the
view that shows what they send: one thread, one mounted view, one connection after another.
-/

namespace Hill90.View.History

@[irreducible] def sseBackfillLimit : ℕ := 500

@[irreducible] def defaultPage : ℕ := 500

theorem defaultPage_pos : 0 < defaultPage := by
  unfold defaultPage
  exact Nat.succ_pos 499

def newest (n : ℕ) (rows : List Message) : List Message := rows.drop (rows.length - n)

def backfillTail (rows : List Message) (cursor : ℤ) : List Message :=
  newest sseBackfillLimit (rows.filter fun m => cursor < m.seq)

def pollRows (rows : List Message) (cursor : ℤ) : List Message :=
  rows.filter fun m => cursor < m.seq

def backfillNotice (sentRows : List Message) (total : ℕ) : Backfill :=
  ⟨sentRows.head?.map Message.seq, decide (total > sentRows.length)⟩

structure Page where
  messages : List Message
  hasOlder : Bool

/-- `GET /threads/:id?before_seq=`. -/
def threadPage (rows : List Message) (beforeSeq : ℤ) : Page :=
  let older := rows.filter fun m => m.seq < beforeSeq
  ⟨newest defaultPage older, decide (older.length > defaultPage)⟩

/-- A message is inserted, or its row gets a new number. -/
def store (rows : List Message) (m : Message) : List Message :=
  let others := rows.filter fun x => x.id ≠ m.id
  (others.filter fun x => x.seq ≤ m.seq) ++ m :: others.filter fun x => m.seq < x.seq

inductive Frame where
  | backfill (notice : Backfill)
  | message (m : Message)

structure Batch where
  notice : Option Backfill
  messages : List Message

/-- `queries` are the answers that polls have got and not used yet, `counting` the rows of the backfill
while its count is awaited, `channel` what is written and not received, `first` what is written
first. -/
structure Connection where
  lastEventId : ℤ
  cursor : ℤ
  isBackfill : Bool := true
  queries : List (List Message) := []
  counting : Option (List Message) := none
  channel : List Frame := []
  first : Option Batch := none
  greeted : Bool := false

/-- The rows in ascending order with the highest number committed; and the view, with the request of
Load older that is under way and the page it has got. -/
structure State where
  rows : List Message := []
  high : ℤ := 0
  connection : Option Connection := none
  messages : List Message := []
  backfill : Option Backfill := none
  fetch : Option (ℤ × Option Page) := none

inductive Event where
  | commit (m : Message)
  | connect (lastEventId : ℤ)
  | drop
  | poll
  | settle (i : ℕ)
  | counted (ok : Bool)
  | deliver
  | loadOlder
  | answer
  | response
  | failed

namespace Connection

def write (c : Connection) (notice : Option Backfill) (rows : List Message) : Connection :=
  { c with
    channel := c.channel ++ ((notice.map Frame.backfill).toList ++ rows.map Frame.message)
    cursor := (rows.getLast?.map Message.seq).getD c.cursor
    first := c.first.or (some ⟨notice, rows⟩) }

def poll (c : Connection) (rows : List Message) : Connection :=
  { c with queries := c.queries ++
      [if c.isBackfill then backfillTail rows c.cursor else pollRows rows c.cursor] }

def settle (c : Connection) (i : ℕ) (rows : List Message) : Connection :=
  let c := { c with queries := c.queries.eraseIdx i }
  if c.isBackfill then { c with isBackfill := false, counting := some rows } else c.write none rows

/-- The backfill goes on with its count, or ends without one. -/
def counted (c : Connection) (rows : List Message) (total : ℕ) (ok : Bool) : Connection :=
  let c := { c with counting := none }
  if ok then c.write (some (backfillNotice rows total)) rows else c

end Connection

namespace State

variable (T : State)

def setConnection (c : Connection) : State := { T with connection := some c }

def receive : Frame → State
  | .message m => { T with messages := merge T.messages m }
  | .backfill notice => { T with backfill := some notice }

/-- `loadOlder`, with the page of its response. -/
def respond (page : Page) : State :=
  match page.messages with
  | [] => { T with backfill := T.backfill.map fun b => { b with hasOlder := false } }
  | m :: _ => { T with
      messages := prepend page.messages T.messages
      backfill := T.backfill.map fun _ => ⟨some m.seq, page.hasOlder⟩ }

end State

def step (T : State) : Event → Option State
  | .commit m =>
    if m.seq ∉ T.rows.map Message.seq then
      some { T with rows := store T.rows m, high := max T.high m.seq }
    else none
  | .connect lastEventId =>
    match T.connection with
    | some _ => none
    | none => some (T.setConnection { lastEventId, cursor := lastEventId })
  | .drop => T.connection.map fun _ => { T with connection := none }
  | .poll => T.connection.map fun c => T.setConnection (c.poll T.rows)
  | .settle i => T.connection.bind fun c => c.queries[i]?.map fun rows =>
      T.setConnection (c.settle i rows)
  | .counted ok => T.connection.bind fun c => c.counting.map fun rows =>
      T.setConnection (c.counted rows T.rows.length ok)
  | .deliver => T.connection.bind fun c =>
    match c.channel with
    | [] => none
    | .message m :: rest => some ((T.receive (.message m)).setConnection { c with channel := rest })
    | .backfill notice :: rest =>
      some ((T.receive (.backfill notice)).setConnection { c with channel := rest, greeted := true })
  | .loadOlder => (T.backfill.bind Backfill.oldestSeqSent).bind fun oldest =>
      if T.fetch.isSome then none else some { T with fetch := some (oldest, none) }
  | .answer => T.fetch.bind fun f =>
      if f.2.isSome then none else some { T with fetch := some (f.1, some (threadPage T.rows f.1)) }
  | .response => T.fetch.bind fun f => f.2.map fun page => { T.respond page with fetch := none }
  | .failed => T.fetch.map fun _ => { T with fetch := none }

def machine : Machine State Event where
  initial T := T = {}
  step := step

def shown (messages : List Message) : Set String := {id | ∃ m ∈ messages, m.id = id}

/-- Every message up to a number that is shown is shown itself. -/
def State.Whole (T : State) : Prop :=
  ∀ d ∈ T.messages, ∀ x ∈ T.rows, x.seq ≤ d.seq → x.id ∈ shown T.messages

def State.Offers (T : State) : Prop :=
  ∃ o, T.backfill = some ⟨some o, true⟩

def State.load (T : State) : State :=
  match T.backfill.bind Backfill.oldestSeqSent with
  | none => T
  | some o => T.respond (threadPage T.rows o)

/-- The first messages of a connection are announced and bounded; the view shows all messages up to the
newest it shows, or loads them on request; and a page tells what is below it. -/
structure Reachable (T : State) : Prop where
  bounded : ∀ c, T.connection = some c → ∀ b, c.first = some b →
    b.messages.length ≤ sseBackfillLimit ∧
      ∃ n, b.notice = some n ∧ n.oldestSeqSent = b.messages.head?.map Message.seq
  shown : T.Whole ∨ (T.Offers ∧ ∃ k, (State.load^[k] T).Whole)
  paged : ∀ before : ℤ, (∀ m ∈ (threadPage T.rows before).messages, m.seq < before) ∧
    ((threadPage T.rows before).hasOlder = true ↔
      ∃ m ∈ T.rows, m.seq < before ∧ m ∉ (threadPage T.rows before).messages)

/-- Messages are committed in the order of their numbers.  A connection asks for what follows the
messages shown, while no page is under way; none is asked for until its notice has arrived.  No poll
starts while its backfill is under way, the count of which succeeds; and a backfill is empty only
where the view shows everything up to the cursor. -/
def Orderly (T : State) : Event → Prop
  | .commit m => T.high < m.seq
  | .connect n => T.fetch = none ∧ (∀ d ∈ T.messages, d.seq ≤ n) ∧ n ≤ T.high
  | .poll => ∀ c, T.connection = some c → c.counting = none ∧ (c.isBackfill = true → c.queries = [])
  | .counted ok => ok = true ∧ ∀ c, T.connection = some c → c.counting = some [] →
      ∀ x ∈ T.rows, x.seq ≤ c.cursor → x.id ∈ shown T.messages
  | .loadOlder => ∀ c, T.connection = some c → c.greeted = true
  | _ => True

section Filled

variable {rows ms : List Message} {oldest : Option ℤ} {ids ids' : Set String} {r high : ℤ}
  {m : Message}

def Below (oldest : Option ℤ) (x : ℤ) : Prop := ∃ o, oldest = some o ∧ x < o

def Filled (rows : List Message) (oldest : Option ℤ) (ids : Set String) (r : ℤ) : Prop :=
  ∀ x ∈ rows, x.seq ≤ r → ¬Below oldest x.seq → x.id ∈ ids

/-- Each message in turn leaves no gap below it. -/
def Flow (rows : List Message) (oldest : Option ℤ) (high : ℤ) (ids : Set String)
    (ms : List Message) : Prop :=
  ∀ front m back, ms = front ++ m :: back →
    m.seq ≤ high ∧ Filled rows oldest (ids ∪ shown (front ++ [m])) m.seq

theorem mem_shown {id : String} : id ∈ shown ms ↔ ∃ m ∈ ms, m.id = id := Iff.rfl

theorem shown_append (ms ms' : List Message) : shown (ms ++ ms') = shown ms ∪ shown ms' := by
  ext id
  simp only [mem_shown, Set.mem_union, List.mem_append, or_and_right, exists_or]

theorem Filled.mono (h : Filled rows oldest ids r) (hsub : ids ⊆ ids') : Filled rows oldest ids' r :=
  fun x hx hr hb => hsub (h x hx hr hb)

theorem Flow.mono (h : Flow rows oldest high ids ms) (hsub : ids ⊆ ids') :
    Flow rows oldest high ids' ms := fun front m back hms =>
  ⟨(h front m back hms).1, (h front m back hms).2.mono (Set.union_subset_union_left _ hsub)⟩

theorem Flow.tail (h : Flow rows oldest high ids (m :: ms)) :
    Flow rows oldest high (ids ∪ shown [m]) ms := by
  intro front x back hms
  have hx := h (m :: front) x back (congrArg (m :: ·) hms)
  refine ⟨hx.1, ?_⟩
  have hset : ids ∪ shown [m] ∪ shown (front ++ [x]) = ids ∪ shown (m :: front ++ [x]) := by
    rw [Set.union_assoc, ← shown_append]
    rfl
  rw [hset]
  exact hx.2

theorem Flow.append {ms' : List Message} (h : Flow rows oldest high ids ms)
    (h' : Flow rows oldest high (ids ∪ shown ms) ms') :
    Flow rows oldest high ids (ms ++ ms') := by
  intro front m back hms
  rcases List.append_eq_append_iff.mp hms with ⟨a, rfl, ha⟩ | ⟨a, rfl, ha⟩
  · have hm := h' a m back ha
    rw [Set.union_assoc, ← shown_append, ← List.append_assoc] at hm
    exact hm
  · cases a with
    | nil =>
      rw [List.append_nil] at h'
      have hm := h' [] m back ha.symm
      rw [Set.union_assoc, ← shown_append] at hm
      exact hm
    | cons x a =>
      obtain ⟨rfl, -⟩ := List.cons.inj ha
      exact h front m a rfl

/-- The last of them leaves no gap below it. -/
theorem Flow.last (h : Flow rows oldest high ids ms) (hm : ms.getLast? = some m) :
    m.seq ≤ high ∧ Filled rows oldest (ids ∪ shown ms) m.seq := by
  obtain ⟨front, rfl⟩ := List.getLast?_eq_some_iff.mp hm
  exact h front m [] rfl

end Filled

section Rows

variable {rows l : List Message} {oldest : Option ℤ} {ids ids' : Set String} {r high before : ℤ}
  {m x : Message} {ms : List Message} {page : Page}

theorem mem_store : x ∈ store rows m ↔ x = m ∨ x ∈ rows ∧ x.id ≠ m.id := by
  unfold store
  simp only [List.mem_append, List.mem_cons, List.mem_filter, decide_eq_true_eq]
  constructor
  · rintro (⟨hx, -⟩ | rfl | ⟨hx, -⟩)
    · exact .inr hx
    · exact .inl rfl
    · exact .inr hx
  · rintro (rfl | hx)
    · exact .inr (.inl rfl)
    · rcases lt_or_ge m.seq x.seq with hlt | hle
      · exact .inr (.inr ⟨hx, hlt⟩)
      · exact .inl ⟨hx, hle⟩

/-- The rows as a query sees them, with the highest number. -/
structure Stored (rows : List Message) (high : ℤ) : Prop where
  sorted : rows.Pairwise fun a b => a.seq < b.seq
  distinct : (rows.map Message.id).Nodup
  high : ∀ x ∈ rows, x.seq ≤ high

theorem Stored.store (h : Stored rows high) (hm : high < m.seq) :
    Stored (store rows m) (max high m.seq) := by
  have hall : (rows.filter fun x => x.id ≠ m.id).filter (fun x => x.seq ≤ m.seq) =
      rows.filter fun x => x.id ≠ m.id := by
    refine List.filter_eq_self.mpr fun x hx => decide_eq_true ?_
    have hle := h.high x (List.mem_of_mem_filter hx)
    omega
  have hnone : (rows.filter fun x => x.id ≠ m.id).filter (fun x => m.seq < x.seq) = [] := by
    refine List.filter_eq_nil_iff.mpr fun x hx => ?_
    have hle := h.high x (List.mem_of_mem_filter hx)
    simp only [decide_eq_true_eq]
    omega
  have heq : History.store rows m = (rows.filter fun x => x.id ≠ m.id) ++ [m] := by
    change (rows.filter fun x => x.id ≠ m.id).filter (fun x => x.seq ≤ m.seq) ++
      m :: (rows.filter fun x => x.id ≠ m.id).filter (fun x => m.seq < x.seq) = _
    rw [hall, hnone]
  rw [heq]
  refine ⟨?_, ?_, ?_⟩
  · refine List.pairwise_append.mpr ⟨h.sorted.filter _, List.pairwise_singleton _ _, ?_⟩
    intro x hx y hy
    rw [List.mem_singleton.mp hy]
    have hle := h.high x (List.mem_of_mem_filter hx)
    omega
  · rw [List.map_append, List.map_singleton]
    refine List.Nodup.append (h.distinct.sublist (List.filter_sublist.map _))
      (List.nodup_singleton _) ?_
    rintro id hid hid'
    obtain ⟨x, hx, rfl⟩ := List.mem_map.mp hid
    exact of_decide_eq_true (List.mem_filter.mp hx).2 (List.mem_singleton.mp hid')
  · intro x hx
    rcases List.mem_append.mp hx with hx | hx
    · exact Int.le_trans (h.high x (List.mem_of_mem_filter hx)) (Int.le_max_left _ _)
    · rw [List.mem_singleton.mp hx]
      exact Int.le_max_right _ _

theorem Filled.store (h : Filled rows oldest ids r) (hm : r < m.seq) :
    Filled (store rows m) oldest ids r := by
  intro x hx hr hb
  rcases mem_store.mp hx with rfl | ⟨hx, -⟩
  · omega
  · exact h x hx hr hb

theorem Flow.store (h : Flow rows oldest high ids ms) (hm : high < m.seq) :
    Flow (store rows m) oldest (max high m.seq) ids ms := by
  intro front x back hms
  obtain ⟨hle, hfilled⟩ := h front x back hms
  exact ⟨Int.le_trans hle (Int.le_max_left _ _), hfilled.store (by omega)⟩

/-- Of sorted rows those up to a row stand before it. -/
theorem mem_front {front back : List Message} (hsorted : l.Pairwise fun a b => a.seq < b.seq)
    (hl : l = front ++ m :: back) (hx : x ∈ l) (hle : x.seq ≤ m.seq) : x ∈ front ++ [m] := by
  subst hl
  rcases List.mem_append.mp hx with hx | hx
  · exact List.mem_append_left _ hx
  rcases List.mem_cons.mp hx with rfl | hx
  · exact List.mem_append_right _ (List.mem_singleton_self _)
  · have hlt := (List.pairwise_cons.mp (List.pairwise_append.mp hsorted).2.1).1 x hx
    omega

theorem newest_sublist (n : ℕ) (l : List Message) : (newest n l).Sublist l := List.drop_sublist _ _

theorem length_newest (n : ℕ) (l : List Message) : (newest n l).length ≤ n := by
  unfold newest
  rw [List.length_drop]
  omega

/-- The newest rows are those from the first of them on. -/
theorem mem_newest {n : ℕ} (hsorted : l.Pairwise fun a b => a.seq < b.seq) (hn : 0 < n)
    (hx : x ∈ l) (hb : ¬Below ((newest n l).head?.map Message.seq) x.seq) : x ∈ newest n l := by
  have hsplit : l = l.take (l.length - n) ++ newest n l := (List.take_append_drop _ l).symm
  rw [hsplit] at hx hsorted
  rcases List.mem_append.mp hx with hx | hx
  · cases hnew : newest n l with
    | nil =>
      have hlength := congrArg List.length hnew
      unfold newest at hlength
      rw [List.length_drop, List.length_nil] at hlength
      have hpos : 0 < (l.take (l.length - n)).length := List.length_pos_of_mem hx
      rw [List.length_take] at hpos
      omega
    | cons f rest =>
      rw [hnew] at hsorted hb
      have hlt := (List.pairwise_append.mp hsorted).2.2 x hx f List.mem_cons_self
      exact absurd ⟨f.seq, rfl, hlt⟩ hb
  · exact hx

theorem not_below_of_mem (hsorted : l.Pairwise fun a b => a.seq < b.seq) (hx : x ∈ l) :
    ¬Below (l.head?.map Message.seq) x.seq := by
  rintro ⟨o, ho, hlt⟩
  cases l with
  | nil => cases hx
  | cons f rest =>
    cases ho
    rcases List.mem_cons.mp hx with rfl | hx
    · omega
    · have := (List.pairwise_cons.mp hsorted).1 x hx
      omega

/-- What a page holds of the rows below a number. -/
structure PageOk (rows : List Message) (before : ℤ) (page : Page) : Prop where
  filled : ∀ x ∈ rows, x.seq < before → ¬Below (page.messages.head?.map Message.seq) x.seq →
    x.id ∈ shown page.messages
  bottom : page.hasOlder = false → ∀ x ∈ rows, x.seq < before →
    ¬Below (page.messages.head?.map Message.seq) x.seq
  under : ∀ m ∈ page.messages, m.seq < before

theorem PageOk.store (h : PageOk rows before page) (hm : before ≤ m.seq) :
    PageOk (store rows m) before page := by
  refine ⟨fun x hx hlt => ?_, fun hno x hx hlt => ?_, h.under⟩
  · rcases mem_store.mp hx with rfl | ⟨hx, -⟩
    · omega
    · exact h.filled x hx hlt
  · rcases mem_store.mp hx with rfl | ⟨hx, -⟩
    · omega
    · exact h.bottom hno x hx hlt

theorem messages_threadPage (rows : List Message) (before : ℤ) :
    (threadPage rows before).messages =
      newest defaultPage (rows.filter fun m => m.seq < before) := rfl

theorem newest_eq_self {n : ℕ} (h : l.length ≤ n) : newest n l = l := by
  rw [newest, Nat.sub_eq_zero_of_le h, List.drop_zero]

theorem not_mem_newest {n : ℕ} (hsorted : (m :: l).Pairwise fun a b => a.seq < b.seq)
    (hn : n < (m :: l).length) : m ∉ newest n (m :: l) := by
  obtain ⟨k, hk⟩ : ∃ k, (m :: l).length - n = k + 1 := ⟨(m :: l).length - n - 1, by omega⟩
  rw [newest, hk, List.drop_succ_cons]
  intro hin
  have hlt := (List.pairwise_cons.mp hsorted).1 m (List.mem_of_mem_drop hin)
  omega

theorem mem_threadPage (hm : m ∈ (threadPage rows before).messages) : m ∈ rows ∧ m.seq < before := by
  have hfilter := (newest_sublist _ _).subset hm
  exact ⟨List.mem_of_mem_filter hfilter, of_decide_eq_true (List.mem_filter.mp hfilter).2⟩

theorem pageOk_threadPage (h : Stored rows high) (before : ℤ) :
    PageOk rows before (threadPage rows before) := by
  have hsorted := h.sorted.filter fun m => decide (m.seq < before)
  have hmem : ∀ x ∈ rows, x.seq < before → x ∈ rows.filter fun m => m.seq < before :=
    fun x hx hlt => List.mem_filter.mpr ⟨hx, decide_eq_true hlt⟩
  refine ⟨fun x hx hlt hb => ?_, fun hno x hx hlt => ?_, fun m hm => (mem_threadPage hm).2⟩
  · rw [messages_threadPage] at hb ⊢
    exact ⟨x, mem_newest hsorted defaultPage_pos (hmem x hx hlt) hb, rfl⟩
  · have hle := of_decide_eq_false hno
    rw [messages_threadPage, newest_eq_self (not_lt.mp hle)]
    exact not_below_of_mem hsorted (hmem x hx hlt)

theorem hasOlder_threadPage (h : Stored rows high) (before : ℤ) :
    (threadPage rows before).hasOlder = true ↔
      ∃ m ∈ rows, m.seq < before ∧ m ∉ (threadPage rows before).messages := by
  have hsorted := h.sorted.filter fun m => decide (m.seq < before)
  constructor
  · intro hmore
    have hlt : (rows.filter fun m => m.seq < before).length > defaultPage :=
      of_decide_eq_true hmore
    rw [messages_threadPage]
    cases hl : rows.filter fun m => m.seq < before with
    | nil =>
      rw [hl] at hlt
      exact absurd hlt (Nat.not_lt_zero _)
    | cons m rest =>
      have hm : m ∈ rows.filter fun m => m.seq < before := hl ▸ List.mem_cons_self
      rw [hl] at hlt hsorted
      exact ⟨m, List.mem_of_mem_filter hm, of_decide_eq_true (List.mem_filter.mp hm).2,
        not_mem_newest hsorted hlt⟩
  · rintro ⟨m, hm, hlt, hout⟩
    cases hmore : (threadPage rows before).hasOlder with
    | true => rfl
    | false =>
      have hb := (pageOk_threadPage h before).bottom hmore m hm hlt
      have hin : m ∈ rows.filter fun m => m.seq < before :=
        List.mem_filter.mpr ⟨hm, decide_eq_true hlt⟩
      rw [messages_threadPage] at hb hout
      exact absurd (mem_newest hsorted defaultPage_pos hin hb) hout

/-- A page of what is below the oldest number closes the gap down to its own first. -/
theorem Filled.respond (h : Filled rows (some before) ids r) (hpage : PageOk rows before page)
    (hids : ids ⊆ ids') (hshown : shown page.messages ⊆ ids') :
    Filled rows (page.messages.head?.map Message.seq) ids' r := by
  intro x hx hr hb
  rcases lt_or_ge x.seq before with hlt | hge
  · exact hshown (hpage.filled x hx hlt hb)
  · refine hids (h x hx hr ?_)
    rintro ⟨o, ho, hlt⟩
    cases ho
    omega

end Rows

section View

variable {T : State} {ms : List Message} {m : Message} {page : Page} {before : ℤ} {b : Backfill}

theorem shown_merge (prev : List Message) (m : Message) :
    shown (merge prev m) = shown prev ∪ shown [m] := by
  ext id
  simp only [Set.mem_union, mem_shown, List.mem_singleton, exists_eq_left]
  obtain ⟨l₁, x, l₂, rfl, hx, hmerge⟩ | ⟨-, hmerge⟩ := merge_splits prev m
  · rw [hmerge]
    simp only [List.mem_append, List.mem_cons, or_and_right, exists_or, exists_eq_left, hx]
    constructor
    · exact .inl
    · rintro (h | h)
      · exact h
      · exact .inr (.inl h)
  · rw [hmerge]
    simp only [List.mem_append, List.mem_singleton, or_and_right, exists_or, exists_eq_left]

theorem mem_of_mem_merge {prev : List Message} {d : Message} (h : d ∈ merge prev m) :
    d = m ∨ d ∈ prev := by
  obtain ⟨l₁, x, l₂, rfl, -, hmerge⟩ | ⟨-, hmerge⟩ := merge_splits prev m
  · rw [hmerge] at h
    rcases List.mem_append.mp h with h | h
    · exact .inr (List.mem_append_left _ h)
    rcases List.mem_cons.mp h with rfl | h
    · exact .inl rfl
    · exact .inr (List.mem_append_right _ (List.mem_cons_of_mem _ h))
  · rw [hmerge] at h
    rcases List.mem_append.mp h with h | h
    · exact .inr h
    · exact .inl (List.mem_singleton.mp h)

theorem shown_prepend (older prev : List Message) :
    shown prev ⊆ shown (prepend older prev) ∧ shown older ⊆ shown (prepend older prev) := by
  constructor
  · rintro id ⟨x, hx, rfl⟩
    exact ⟨x, mem_prepend.mpr (.inl hx), rfl⟩
  · rintro id ⟨x, hx, rfl⟩
    by_cases hin : x.id ∈ prev.map Message.id
    · obtain ⟨y, hy, hid⟩ := List.mem_map.mp hin
      exact ⟨y, mem_prepend.mpr (.inl hy), hid⟩
    · exact ⟨x, mem_prepend.mpr (.inr ⟨hx, hin⟩), rfl⟩

/-- Above the oldest number the view has no gap below a message that it shows. -/
structure Viewed (T : State) : Prop where
  seq : ∀ d ∈ T.messages, d.seq ≤ T.high
  empty : T.backfill = none → T.messages = []
  filled : ∀ b, T.backfill = some b →
    ∀ d ∈ T.messages, Filled T.rows b.oldestSeqSent (shown T.messages) d.seq
  bottom : ∀ b, T.backfill = some b → b.hasOlder = false →
    ∀ x ∈ T.rows, ¬Below b.oldestSeqSent x.seq
  low : ∀ b o, T.backfill = some b → b.oldestSeqSent = some o → o ≤ T.high

/-- The page under way continues what the view shows. -/
def Asked (T : State) : Prop :=
  ∀ before p, T.fetch = some (before, p) →
    (∃ b, T.backfill = some b ∧ b.oldestSeqSent = some before) ∧
      ∀ page, p = some page → PageOk T.rows before page

theorem Viewed.respond (h : Viewed T) (hb : T.backfill = some b)
    (holdest : b.oldestSeqSent = some before) (hpage : PageOk T.rows before page) :
    Viewed (T.respond page) := by
  have hlow := h.low b before hb holdest
  unfold State.respond
  split
  · next hnil =>
    refine ⟨h.seq, fun hnone => ?_, fun b' hb' => ?_, fun b' hb' _ x hx => ?_, fun b' o hb' ho => ?_⟩
    · rw [hb] at hnone
      cases hnone
    · rw [hb] at hb'
      cases hb'
      exact h.filled b hb
    · rw [hb] at hb'
      cases hb'
      change ¬Below b.oldestSeqSent x.seq
      rw [holdest]
      rintro ⟨o, ho, hlt⟩
      cases ho
      obtain ⟨y, hy, -⟩ := hpage.filled x hx hlt (by rw [hnil]; rintro ⟨o, ho, -⟩; cases ho)
      rw [hnil] at hy
      cases hy
    · rw [hb] at hb'
      cases hb'
      exact h.low b o hb ho
  · next f rest hcons =>
    obtain ⟨hprev, holder⟩ := shown_prepend page.messages T.messages
    have hhead : page.messages.head?.map Message.seq = some f.seq := by
      rw [hcons]
      rfl
    have hunder : ∀ d ∈ page.messages, d.seq < before := hpage.under
    refine ⟨fun d hd => ?_, fun hnone => ?_, fun b' hb' d hd => ?_, fun b' hb' hno x hx => ?_,
      fun b' o hb' ho => ?_⟩
    · rcases mem_prepend.mp hd with hd | ⟨hd, -⟩
      · exact h.seq d hd
      · have hlt := hunder d hd
        change d.seq ≤ T.high
        omega
    · rw [hb] at hnone
      cases hnone
    · rw [hb] at hb'
      cases hb'
      change Filled T.rows (some f.seq) (shown (prepend page.messages T.messages)) d.seq
      rw [← hhead]
      rcases mem_prepend.mp hd with hd | ⟨hd, -⟩
      · have hfilled := h.filled b hb d hd
        rw [holdest] at hfilled
        exact hfilled.respond hpage hprev holder
      · intro x hx hr hbelow
        have hlt := hunder d hd
        exact holder (hpage.filled x hx (by omega) hbelow)
    · rw [hb] at hb'
      cases hb'
      change ¬Below (some f.seq) x.seq
      rintro ⟨o, ho, hlt⟩
      cases ho
      have hf := hunder f (by rw [hcons]; exact List.mem_cons_self)
      refine hpage.bottom hno x hx (by omega) ?_
      rw [hhead]
      exact ⟨f.seq, rfl, hlt⟩
    · rw [hb] at hb'
      cases hb'
      cases ho
      have hf := hunder f (by rw [hcons]; exact List.mem_cons_self)
      change f.seq ≤ T.high
      omega

theorem rows_respond (T : State) (page : Page) : (T.respond page).rows = T.rows ∧
    (T.respond page).high = T.high ∧ (T.respond page).connection = T.connection ∧
      (T.respond page).fetch = T.fetch := by
  unfold State.respond
  split <;> exact ⟨rfl, rfl, rfl, rfl⟩

theorem Viewed.whole_of_none (h : Viewed T) (hb : ∀ b, T.backfill = some b →
    ∀ x ∈ T.rows, ¬Below b.oldestSeqSent x.seq) : T.Whole := by
  intro d hd x hx hle
  cases hbackfill : T.backfill with
  | none =>
    rw [h.empty hbackfill] at hd
    cases hd
  | some b => exact h.filled b hbackfill d hd x hx hle (hb b hbackfill x hx)

theorem length_below_lt {rows : List Message} {f : Message} {o : ℤ} (hf : f ∈ rows)
    (hlt : f.seq < o) : (rows.filter fun x => x.seq < f.seq).length <
      (rows.filter fun x => x.seq < o).length := by
  have hsub : (rows.filter fun x => x.seq < f.seq) =
      (rows.filter fun x => x.seq < o).filter fun x => x.seq < f.seq := by
    rw [List.filter_filter]
    refine List.filter_congr fun x _ => ?_
    rw [← Bool.decide_and]
    exact decide_eq_decide.mpr ⟨fun h => ⟨h, by omega⟩, And.left⟩
  rw [hsub]
  refine List.length_filter_lt_length_iff_exists.mpr
    ⟨f, List.mem_filter.mpr ⟨hf, decide_eq_true hlt⟩, ?_⟩
  rw [decide_eq_true_eq]
  omega

/-- Finitely many calls of Load older show what is below. -/
theorem Viewed.exists_loads {o : ℤ} (h : Viewed T) (hstored : Stored T.rows T.high)
    (hb : T.backfill = some b) (ho : b.oldestSeqSent = some o) : ∃ k, (State.load^[k] T).Whole := by
  generalize hn : (T.rows.filter fun x => x.seq < o).length = n
  induction n using Nat.strong_induction_on generalizing T b o with
  | _ n ih =>
    have hpage := pageOk_threadPage hstored o
    have hload : T.load = T.respond (threadPage T.rows o) := by
      unfold State.load
      rw [hb, Option.bind_some, ho]
    cases hmessages : (threadPage T.rows o).messages with
    | nil =>
      refine ⟨0, h.whole_of_none fun b' hb' x hx hbelow => ?_⟩
      rw [hb] at hb'
      cases hb'
      obtain ⟨o', ho', hlt⟩ := hbelow
      rw [ho] at ho'
      cases ho'
      obtain ⟨y, hy, -⟩ := hpage.filled x hx hlt (by rw [hmessages]; rintro ⟨o, ho, -⟩; cases ho)
      rw [hmessages] at hy
      cases hy
    | cons f rest =>
      have hf : f ∈ (threadPage T.rows o).messages := by
        rw [hmessages]
        exact List.mem_cons_self
      obtain ⟨hfrows, hflt⟩ := mem_threadPage hf
      obtain ⟨hrows, hhigh, -, -⟩ := rows_respond T (threadPage T.rows o)
      have hbackfill : (T.respond (threadPage T.rows o)).backfill =
          some ⟨some f.seq, (threadPage T.rows o).hasOlder⟩ := by
        unfold State.respond
        rw [hmessages, hb]
        rfl
      have hshorter := length_below_lt hfrows hflt
      rw [hn] at hshorter
      obtain ⟨k, hk⟩ := ih _ hshorter (h.respond hb ho hpage) (by rw [hrows, hhigh]; exact hstored)
        hbackfill rfl (by rw [hrows])
      refine ⟨k + 1, ?_⟩
      rw [Function.iterate_succ_apply, hload]
      exact hk

theorem Viewed.reachable (h : Viewed T) (hstored : Stored T.rows T.high) :
    T.Whole ∨ (T.Offers ∧ ∃ k, (State.load^[k] T).Whole) := by
  cases hb : T.backfill with
  | none =>
    left
    refine h.whole_of_none fun b hb' => ?_
    rw [hb] at hb'
    cases hb'
  | some b =>
    cases ho : b.oldestSeqSent with
    | none =>
      left
      refine h.whole_of_none fun b' hb' x _ => ?_
      rw [hb] at hb'
      cases hb'
      rw [ho]
      rintro ⟨o, ho, -⟩
      cases ho
    | some o =>
      cases hmore : b.hasOlder with
      | false =>
        left
        refine h.whole_of_none fun b' hb' x hx => ?_
        rw [hb] at hb'
        cases hb'
        exact h.bottom b hb hmore x hx
      | true =>
        right
        refine ⟨⟨o, ?_⟩, h.exists_loads hstored hb ho⟩
        rw [hb, ← ho, ← hmore]

end View

end Hill90.View.History
