import Hill90.Foundation.Keyset
import Hill90.Foundation.Machine
import Mathlib.Data.Prod.Lex

/-! # Inference events, followed

The follow mode of `GET /agents/:id/events` sends the latest rows of `model_usage` and then polls
for the rows after a cursor.  The cursor is the last row's time, in milliseconds, and its id; the
rows have microseconds, and before any row the id is the empty text, which no query accepts.
-/

namespace Hill90.Events

abbrev Uuid := ℕ

/-- What the queries ask of a row of `model_usage`; `createdAt` is in microseconds. -/
structure UsageRow where
  id : Uuid
  agentId : String
  owner : Option String
  createdAt : ℤ
  deriving DecidableEq

def UsageRow.key (r : UsageRow) : ℤ ×ₗ Uuid := toLex (r.createdAt, r.id)

/-- Who follows which agent. -/
structure Viewer where
  agentId : String
  userSub : String
  admin : Bool
  deriving DecidableEq

/-- `agent_id = $1`, and `owner = $2` for a user who is no admin. -/
def Viewer.sees (v : Viewer) (r : UsageRow) : Bool :=
  r.agentId = v.agentId && (v.admin || r.owner = some v.userSub)

/-- `cursorCreatedAt`, in milliseconds, and `cursorId`, `none` for the empty text. -/
structure Cursor where
  createdAt : ℤ
  id : Option Uuid
  deriving DecidableEq

/-- `created_at.toISOString()` and the id of the last row. -/
def Cursor.of (r : UsageRow) : Cursor := ⟨r.createdAt / 1000, some r.id⟩

/-- What `($2, $3)` is to the query: the empty text is no UUID. -/
def Cursor.key (c : Cursor) : Option (ℤ ×ₗ Uuid) := c.id.map fun id => toLex (c.createdAt * 1000, id)

def pollLimit : ℕ := 50

/-- `getRecentInference` without a cursor, over the rows the user sees. -/
def recentInference (limit : ℕ) (rows : List UsageRow) : List UsageRow :=
  ((Keyset.ordered UsageRow.key rows).reverse.take limit).reverse

/-- `getRecentInference` with a cursor: `none` where the query is refused. -/
def inferenceAfter (cursor : Cursor) (limit : ℕ) (rows : List UsageRow) : Option (List UsageRow) :=
  cursor.key.map fun c => Keyset.page UsageRow.key c limit rows

inductive InferencePoll where
  | asked (cursor : Cursor)
  | answered (cursor : Cursor) (rows : List UsageRow) (newRows : Option (List UsageRow))

/-- One follow stream and the table.  `sent` are the rows its polls have written.  To compare with,
`base` are the rows the user saw when the backfill was read, and `due` what the polls that have
come back should have written: each the first rows since then that none before it has had. -/
structure Inference where
  rows : List UsageRow := []
  cursor : Option Cursor := none
  polls : ℕ → Option InferencePoll := fun _ => none
  sent : List UsageRow := []
  base : List UsageRow := []
  due : List UsageRow := []

inductive InferenceMove where
  | insert (r : UsageRow)
  | backfill (now : ℤ) (limit : ℕ)
  | backfillFails (now : ℤ)
  | tick (j : ℕ)
  | execute (j : ℕ)
  | fail (j : ℕ)
  | resume (j : ℕ)

namespace Inference

variable (v : Viewer) (S : Inference)

def visible : List UsageRow := S.rows.filter v.sees

def setPoll (j : ℕ) (p : Option InferencePoll) : Inference :=
  { S with polls := Function.update S.polls j p }

def moved (newRows : List UsageRow) (cursor : Cursor) : Cursor :=
  (newRows.getLast?.map Cursor.of).getD cursor

/-- The first rows among those a poll has seen that came after the backfill and are not due yet. -/
def owed (rows : List UsageRow) : List UsageRow :=
  (Keyset.ordered UsageRow.key (rows.filter fun r => r ∉ S.base ∧ r ∉ S.due)).take pollLimit

def backfilled (cursor : Cursor) : Inference :=
  { S with cursor := some cursor, base := S.visible v }

def deliver (rows newRows : List UsageRow) (cursor : Cursor) : Inference :=
  { S with
    cursor := some (moved newRows cursor), sent := S.sent ++ newRows, due := S.due ++ S.owed rows }

def step : InferenceMove → Option Inference
  | .insert r => if ∃ x ∈ S.rows, x.id = r.id then none else some { S with rows := S.rows ++ [r] }
  | .backfill now limit =>
    if S.cursor.isSome then none
    else some (S.backfilled v (moved (recentInference limit (S.visible v)) ⟨now, none⟩))
  | .backfillFails now => if S.cursor.isSome then none else some (S.backfilled v ⟨now, none⟩)
  | .tick j =>
    match S.cursor, S.polls j with
    | some cursor, none => some (S.setPoll j (some (.asked cursor)))
    | _, _ => none
  | .execute j =>
    match S.polls j with
    | some (.asked cursor) =>
      some (S.setPoll j (some (.answered cursor (S.visible v)
        (inferenceAfter cursor pollLimit (S.visible v)))))
    | _ => none
  | .fail j => if (S.polls j).isSome then some (S.setPoll j none) else none
  | .resume j =>
    match S.cursor, S.polls j with
    | some cursor, some (.answered _ rows newRows) =>
      some ((S.setPoll j none).deliver rows (newRows.getD []) cursor)
    | _, _ => none

end Inference

def inference (v : Viewer) : Machine Inference InferenceMove where
  initial S := S = {}
  step := Inference.step v

namespace Inference

/-- The rows that were due have been sent, each once and in order, and no others: rows the user
sees that came after the backfill. -/
structure ExactlyOnce (v : Viewer) (S : Inference) : Prop where
  sent : S.sent = S.due
  sorted : S.sent.Pairwise fun a b => a.key < b.key
  later : ∀ r ∈ S.sent, r ∈ S.visible v ∧ r ∉ S.base

/-- The time of the row has no fraction of a millisecond. -/
def Whole (r : UsageRow) : Prop := r.createdAt % 1000 = 0

/-- No move loses its place: a row the user sees is inserted after the backfill only above a cursor
that has an id; the row a cursor is taken from has whole milliseconds; and a poll that brings rows
was asked at the cursor of now, and no other row has come before the last of them since. -/
def Orderly (v : Viewer) (S : Inference) : InferenceMove → Prop
  | .insert r => ∀ cursor, v.sees r = true → S.cursor = some cursor →
      ∃ k, cursor.key = some k ∧ k < r.key
  | .backfill _ limit => ∀ r, (recentInference limit (S.visible v)).getLast? = some r → Whole r
  | .resume j => ∀ cursor rows newRows, S.polls j = some (.answered cursor rows (some newRows)) →
      newRows ≠ [] → S.cursor = some cursor ∧ (∀ r, newRows.getLast? = some r → Whole r) ∧
        ∀ r ∈ S.visible v, r ∉ rows → ∀ p ∈ newRows, p.key < r.key
  | .backfillFails _ | .tick _ | .execute _ | .fail _ => True

/-- A cursor of a poll, and the cursor of now. -/
def Behind (c c' : Cursor) : Prop :=
  ∀ k', c'.key = some k' → ∃ k, c.key = some k ∧ k ≤ k'

structure Answered (v : Viewer) (S : Inference) (c : Cursor) (rows : List UsageRow)
    (newRows : Option (List UsageRow)) : Prop where
  seen : rows.Sublist (S.visible v)
  rows : newRows = inferenceAfter c pollLimit rows

structure Sound (v : Viewer) (S : Inference) : Prop where
  fresh : S.rows.Pairwise fun a b => a.id ≠ b.id
  base : ∀ r ∈ S.base, r ∈ S.rows
  due : ∀ r ∈ S.due, r ∈ S.rows
  once : ExactlyOnce v S
  before : S.cursor = none → S.due = [] ∧ ∀ j, S.polls j = none
  blank : ∀ c, S.cursor = some c → c.key = none → ∀ r ∈ S.visible v, r ∈ S.base
  bound : ∀ c k, S.cursor = some c → c.key = some k → (∀ r ∈ S.sent, r.key ≤ k) ∧
    ∀ r ∈ S.visible v, (k < r.key ↔ r ∉ S.base ∧ r ∉ S.due)
  asked : ∀ j c, S.polls j = some (.asked c) → ∀ c', S.cursor = some c' → Behind c c'
  answered : ∀ j c rows newRows, S.polls j = some (.answered c rows newRows) →
    Answered v S c rows newRows ∧ ∀ c', S.cursor = some c' → Behind c c'

section Keys

variable {v : Viewer} {S : Inference}

theorem key_eq {a b : UsageRow} (h : a.key = b.key) : a.id = b.id :=
  congrArg (fun p : ℤ ×ₗ Uuid => (ofLex p).2) h

theorem Whole.cursor_key {r : UsageRow} (h : Whole r) : (Cursor.of r).key = some r.key := by
  have hms : r.createdAt / 1000 * 1000 = r.createdAt := by
    unfold Whole at h
    omega
  simp [Cursor.of, Cursor.key, UsageRow.key, hms]

theorem distinct_of_sublist {rows : List UsageRow}
    (h : S.rows.Pairwise fun a b => a.id ≠ b.id) (hrows : rows.Sublist (S.visible v)) :
    Keyset.Distinct UsageRow.key rows :=
  (h.sublist (hrows.trans List.filter_sublist)).imp fun hne heq => hne (key_eq heq)

theorem visible_mem {r : UsageRow} (h : r ∈ S.visible v) : r ∈ S.rows := List.mem_of_mem_filter h

theorem moved_key {newRows : List UsageRow} {c : Cursor} {k : ℤ ×ₗ Uuid} (hc : c.key = some k)
    (hwhole : ∀ r, newRows.getLast? = some r → Whole r) :
    (moved newRows c).key = some (Keyset.advance UsageRow.key k newRows) := by
  cases hlast : newRows.getLast? with
  | none => simp [moved, Keyset.advance, hlast, hc]
  | some r => simp [moved, Keyset.advance, hlast, (hwhole r hlast).cursor_key]

end Keys

section Steps

variable {v : Viewer} {S : Inference}

theorem visible_insert (r : UsageRow) :
    ({ S with rows := S.rows ++ [r] } : Inference).visible v =
      S.visible v ++ if v.sees r then [r] else [] := by
  cases hsees : v.sees r <;> simp [visible, hsees]

theorem Sound.insert {r : UsageRow} (h : Sound v S) (hok : Orderly v S (.insert r))
    (hnew : ¬∃ x ∈ S.rows, x.id = r.id) : Sound v { S with rows := S.rows ++ [r] } := by
  have hr : r ∉ S.rows := fun hr => hnew ⟨r, hr, rfl⟩
  have hmem : ∀ x ∈ S.visible v ++ (if v.sees r then [r] else []),
      x ∈ S.visible v ∨ x = r ∧ v.sees r = true := by
    intro x hx
    rcases List.mem_append.mp hx with hx | hx
    · exact .inl hx
    · split at hx
      · exact .inr ⟨List.mem_singleton.mp hx, ‹_›⟩
      · cases hx
  refine ⟨?_, fun x hx => List.mem_append_left _ (h.base x hx),
    fun x hx => List.mem_append_left _ (h.due x hx), ⟨h.once.sent, h.once.sorted, ?_⟩, h.before,
    ?_, ?_, h.asked, ?_⟩
  · refine List.pairwise_append.mpr ⟨h.fresh, List.pairwise_singleton _ _, ?_⟩
    intro x hx y hy heq
    exact hnew ⟨x, hx, by rw [heq, List.mem_singleton.mp hy]⟩
  · intro x hx
    obtain ⟨hvisible, hbase⟩ := h.once.later x hx
    rw [visible_insert]
    exact ⟨List.mem_append_left _ hvisible, hbase⟩
  · intro c hc hkey x hx
    rw [visible_insert] at hx
    rcases hmem x hx with hx | ⟨rfl, hsees⟩
    · exact h.blank c hc hkey x hx
    · obtain ⟨k, hk, -⟩ := hok c hsees hc
      rw [hk] at hkey
      cases hkey
  · intro c k hc hkey
    refine ⟨(h.bound c k hc hkey).1, fun x hx => ?_⟩
    rw [visible_insert] at hx
    rcases hmem x hx with hx | ⟨rfl, hsees⟩
    · exact (h.bound c k hc hkey).2 x hx
    · obtain ⟨k', hk, hlt⟩ := hok c hsees hc
      obtain rfl : k' = k := Option.some.inj (hk.symm.trans hkey)
      exact ⟨fun _ => ⟨fun hb => hr (h.base _ hb), fun hd => hr (h.due _ hd)⟩, fun _ => hlt⟩
  · intro j c rows newRows hj
    obtain ⟨⟨hseen, hrows⟩, hbehind⟩ := h.answered j c rows newRows hj
    refine ⟨⟨?_, hrows⟩, hbehind⟩
    rw [visible_insert]
    exact hseen.trans (List.sublist_append_left _ _)

/-- The last row of the backfill is the last the user sees. -/
theorem recentInference_last {limit : ℕ} {rows : List UsageRow} {r : UsageRow}
    (hrows : Keyset.Distinct UsageRow.key rows)
    (h : (recentInference limit rows).getLast? = some r) : ∀ x ∈ rows, x.key ≤ r.key := by
  intro x hx
  have hlast : (Keyset.ordered UsageRow.key rows).getLast? = some r := by
    rw [recentInference, List.getLast?_reverse, List.head?_take] at h
    split at h
    · cases h
    · rwa [List.head?_reverse] at h
  have hle : x.key ≤ Keyset.advance UsageRow.key r.key (Keyset.ordered UsageRow.key rows) :=
    Keyset.le_advance (Keyset.ordered_sorted hrows) (Keyset.mem_ordered.mpr hx)
  simpa [Keyset.advance, hlast] using hle

theorem Sound.backfilled {c : Cursor} (h : Sound v S) (hcursor : S.cursor = none)
    (hc : ∀ k, c.key = some k → ∀ r ∈ S.visible v, r.key ≤ k) : Sound v (S.backfilled v c) := by
  obtain ⟨hdue, hpolls⟩ := h.before hcursor
  have hsent : S.sent = [] := h.once.sent.trans hdue
  refine ⟨h.fresh, fun r hr => visible_mem hr, h.due, ⟨h.once.sent, h.once.sorted, ?_⟩, ?_, ?_, ?_,
    ?_, ?_⟩
  · intro r hr
    change r ∈ S.sent at hr
    rw [hsent] at hr
    cases hr
  · intro hnone
    cases hnone
  · intro _ _ _ r hr
    exact hr
  · rintro _ k ⟨⟩ hk
    refine ⟨fun r hr => ?_, fun r hr => ⟨fun hlt => ?_, fun hout => absurd hr hout.1⟩⟩
    · change r ∈ S.sent at hr
      rw [hsent] at hr
      cases hr
    · exact absurd (hc k hk r hr) (not_le.mpr hlt)
  · intro j _ hj
    exact absurd ((hpolls j).symm.trans hj) (by simp)
  · intro j _ _ _ hj
    exact absurd ((hpolls j).symm.trans hj) (by simp)

theorem setPoll_polls (i j : ℕ) (p : Option InferencePoll) :
    (S.setPoll j p).polls i = if i = j then p else S.polls i := by
  simp [setPoll, Function.update_apply]

theorem behind_refl (c : Cursor) : Behind c c := fun k hk => ⟨k, hk, le_refl k⟩

theorem Sound.setPoll {j : ℕ} {p : Option InferencePoll} (h : Sound v S)
    (hcursor : S.cursor ≠ none)
    (hasked : ∀ c, p = some (.asked c) → ∀ c', S.cursor = some c' → Behind c c')
    (hanswered : ∀ c rows newRows, p = some (.answered c rows newRows) →
      Answered v S c rows newRows ∧ ∀ c', S.cursor = some c' → Behind c c') :
    Sound v (S.setPoll j p) := by
  refine ⟨h.fresh, h.base, h.due, ⟨h.once.sent, h.once.sorted, h.once.later⟩,
    fun hnone => absurd hnone hcursor, h.blank, h.bound, ?_, ?_⟩
  · intro i c hi
    rw [setPoll_polls] at hi
    split at hi
    · exact hasked c hi
    · exact h.asked i c hi
  · intro i c rows newRows hi
    rw [setPoll_polls] at hi
    split at hi
    · obtain ⟨⟨hseen, hrows⟩, hbehind⟩ := hanswered c rows newRows hi
      exact ⟨⟨hseen, hrows⟩, hbehind⟩
    · obtain ⟨⟨hseen, hrows⟩, hbehind⟩ := h.answered i c rows newRows hi
      exact ⟨⟨hseen, hrows⟩, hbehind⟩

theorem Behind.le {c c' : Cursor} {k k' : ℤ ×ₗ Uuid} (h : Behind c c') (hk : c.key = some k)
    (hk' : c'.key = some k') : k ≤ k' := by
  obtain ⟨l, hl, hle⟩ := h k' hk'
  obtain rfl : l = k := Option.some.inj (hl.symm.trans hk)
  exact hle

theorem owed_eq_nil {rows : List UsageRow} (h : ∀ r ∈ rows, ¬(r ∉ S.base ∧ r ∉ S.due)) :
    S.owed rows = [] := by
  have hfilter : (rows.filter fun r => r ∉ S.base ∧ r ∉ S.due) = [] := by
    rw [List.filter_eq_nil_iff]
    intro r hr
    simpa using h r hr
  rw [owed, hfilter]
  rfl

theorem Sound.owed_nil {c c' : Cursor} {rows : List UsageRow} {newRows : Option (List UsageRow)}
    (h : Sound v S) (hcursor : S.cursor = some c') (hanswer : Answered v S c rows newRows)
    (hbehind : Behind c c') (hnil : newRows.getD [] = []) : S.owed rows = [] := by
  apply owed_eq_nil
  rintro r hr ⟨hbase, hdue⟩
  have hvisible : r ∈ S.visible v := hanswer.seen.subset hr
  cases hk' : c'.key with
  | none => exact hbase (h.blank c' hcursor hk' r hvisible)
  | some k' =>
    obtain ⟨k, hk, hle⟩ := hbehind k' hk'
    have hlt : k < r.key := lt_of_le_of_lt hle
      (((h.bound c' k' hcursor hk').2 r hvisible).mpr ⟨hbase, hdue⟩)
    rw [hanswer.rows, inferenceAfter, hk] at hnil
    exact Keyset.not_lt_of_page_nil (by decide) hnil hr hlt

theorem deliver_nil {c : Cursor} {rows : List UsageRow} (hcursor : S.cursor = some c)
    (howed : S.owed rows = []) : S.deliver rows [] c = S := by
  simp [deliver, howed, moved, ← hcursor]

/-- A poll asked at the cursor of now brings what it is owed. -/
theorem Sound.owed_page {c : Cursor} {k : ℤ ×ₗ Uuid} {rows : List UsageRow} (h : Sound v S)
    (hcursor : S.cursor = some c) (hk : c.key = some k) (hseen : rows.Sublist (S.visible v)) :
    S.owed rows = Keyset.page UsageRow.key k pollLimit rows := by
  have hfilter : (rows.filter fun r => r ∉ S.base ∧ r ∉ S.due) =
      rows.filter fun r => k < r.key := by
    apply List.filter_congr
    intro r hr
    exact decide_eq_decide.mpr ((h.bound c k hcursor hk).2 r (hseen.subset hr)).symm
  rw [owed, hfilter, Keyset.page]

theorem Sound.deliver {c : Cursor} {k : ℤ ×ₗ Uuid} {rows newRows : List UsageRow}
    (h : Sound v S) (hcursor : S.cursor = some c) (hk : c.key = some k)
    (hseen : rows.Sublist (S.visible v))
    (hrows : newRows = Keyset.page UsageRow.key k pollLimit rows)
    (hnonempty : newRows ≠ []) (hwhole : ∀ r, newRows.getLast? = some r → Whole r)
    (hlate : ∀ r ∈ S.visible v, r ∉ rows → ∀ p ∈ newRows, p.key < r.key) :
    Sound v (S.deliver rows newRows c) := by
  have howed : S.owed rows = newRows := (h.owed_page hcursor hk hseen).trans hrows.symm
  have hdistinct := distinct_of_sublist h.fresh hseen
  have hsorted : newRows.Pairwise fun a b => a.key < b.key := by
    rw [hrows]
    exact Keyset.page_sorted hdistinct
  have habove : ∀ p ∈ newRows, p ∈ rows ∧ k < p.key := by
    rw [hrows]
    exact fun p hp => Keyset.of_mem_page hp
  have hmoved : (moved newRows c).key = some (Keyset.advance UsageRow.key k newRows) :=
    moved_key hk hwhole
  obtain ⟨p, hp⟩ := List.exists_mem_of_ne_nil newRows hnonempty
  have hk_lt : k < Keyset.advance UsageRow.key k newRows :=
    lt_of_lt_of_le (habove p hp).2 (Keyset.le_advance hsorted hp)
  obtain ⟨hsent, hbound⟩ := h.bound c k hcursor hk
  have hadvance : ∀ r ∈ S.visible v, (Keyset.advance UsageRow.key k newRows < r.key ↔
      r ∉ S.base ∧ r ∉ S.due ++ newRows) := by
    intro r hr
    have hsplit : (r ∉ S.base ∧ r ∉ S.due ++ newRows) ↔ k < r.key ∧ r ∉ newRows := by
      rw [hbound r hr, List.mem_append, not_or, and_assoc]
    rw [hsplit]
    by_cases hmem : r ∈ rows
    · rw [hrows]
      exact Keyset.advance_lt_iff hdistinct hmem
    · have hlt : ∀ p ∈ newRows, p.key < r.key := hlate r hr hmem
      refine ⟨fun h => ⟨hk_lt.trans h, fun hr' => hmem (habove r hr').1⟩, fun _ => ?_⟩
      cases hlast : newRows.getLast? with
      | none => exact absurd (List.getLast?_eq_none_iff.mp hlast) hnonempty
      | some last =>
        rw [Keyset.advance, hlast]
        exact hlt last (List.mem_of_getLast? hlast)
  have hnext : ∀ c₁, Behind c₁ c → Behind c₁ (moved newRows c) := by
    intro c₁ hbehind k' hk'
    obtain ⟨k₁, hk₁, hle⟩ := hbehind k hk
    obtain rfl : Keyset.advance UsageRow.key k newRows = k' :=
      Option.some.inj (hmoved.symm.trans hk')
    exact ⟨k₁, hk₁, hle.trans hk_lt.le⟩
  refine ⟨h.fresh, h.base, ?_, ⟨?_, ?_, ?_⟩, (fun hnone => by cases hnone), ?_, ?_, ?_, ?_⟩
  · intro r hr
    change r ∈ S.due ++ S.owed rows at hr
    rw [howed] at hr
    rcases List.mem_append.mp hr with hr | hr
    · exact h.due r hr
    · exact visible_mem (hseen.subset (habove r hr).1)
  · change S.sent ++ newRows = S.due ++ S.owed rows
    rw [howed, h.once.sent]
  · refine List.pairwise_append.mpr ⟨h.once.sorted, hsorted, fun a ha b hb => ?_⟩
    exact lt_of_le_of_lt (hsent a ha) (habove b hb).2
  · intro r hr
    rcases List.mem_append.mp hr with hr | hr
    · exact h.once.later r hr
    · have hvisible : r ∈ S.visible v := hseen.subset (habove r hr).1
      exact ⟨hvisible, ((hbound r hvisible).mp (habove r hr).2).1⟩
  · rintro _ ⟨⟩ hnone
    rw [hmoved] at hnone
    cases hnone
  · rintro _ k' ⟨⟩ hk'
    obtain rfl : Keyset.advance UsageRow.key k newRows = k' :=
      Option.some.inj (hmoved.symm.trans hk')
    refine ⟨fun r hr => ?_, fun r hr => ?_⟩
    · change r ∈ S.sent ++ newRows at hr
      rcases List.mem_append.mp hr with hr | hr
      · exact (hsent r hr).trans hk_lt.le
      · exact Keyset.le_advance hsorted hr
    · change _ ↔ r ∉ S.base ∧ r ∉ S.due ++ S.owed rows
      rw [howed]
      exact hadvance r hr
  · rintro j c₁ hj _ ⟨⟩
    exact hnext c₁ (h.asked j c₁ hj c hcursor)
  · intro j c₁ rows₁ newRows₁ hj
    obtain ⟨⟨hseen₁, hrows₁⟩, hbehind⟩ := h.answered j c₁ rows₁ newRows₁ hj
    refine ⟨⟨hseen₁, hrows₁⟩, ?_⟩
    rintro _ ⟨⟩
    exact hnext c₁ (hbehind c hcursor)

theorem Sound.step {a : InferenceMove} {S' : Inference} (h : Sound v S) (hok : Orderly v S a)
    (hstep : S.step v a = some S') : Sound v S' := by
  cases a with
  | insert r =>
    simp only [Inference.step, Option.ite_none_left_eq_some] at hstep
    obtain ⟨hnew, ⟨⟩⟩ := hstep
    exact h.insert hok hnew
  | backfill now limit =>
    simp only [Inference.step, Option.ite_none_left_eq_some] at hstep
    obtain ⟨hnone, ⟨⟩⟩ := hstep
    refine h.backfilled (by simpa using hnone) ?_
    intro k hk r hr
    cases hlast : (recentInference limit (S.visible v)).getLast? with
    | none =>
      rw [moved, hlast] at hk
      cases hk
    | some last =>
      rw [moved, hlast] at hk
      obtain rfl : last.key = k := Option.some.inj ((hok last hlast).cursor_key.symm.trans hk)
      exact recentInference_last (distinct_of_sublist h.fresh (List.Sublist.refl _)) hlast r hr
  | backfillFails now =>
    simp only [Inference.step, Option.ite_none_left_eq_some] at hstep
    obtain ⟨hnone, ⟨⟩⟩ := hstep
    exact h.backfilled (by simpa using hnone) fun k hk => nomatch hk
  | tick j =>
    simp only [Inference.step] at hstep
    split at hstep
    · rename_i c hcursor _
      cases hstep
      refine h.setPoll (by rw [hcursor]; simp) ?_ ?_
      · rintro _ ⟨⟩ c' hc'
        obtain rfl : c = c' := Option.some.inj (hcursor.symm.trans hc')
        exact behind_refl c
      · intro _ _ _ hp
        cases hp
    · cases hstep
  | execute j =>
    simp only [Inference.step] at hstep
    split at hstep
    · rename_i c hj
      cases hstep
      have hcursor : S.cursor ≠ none := fun hnone => by
        rw [(h.before hnone).2 j] at hj
        cases hj
      refine h.setPoll hcursor ?_ ?_
      · intro _ hp
        cases hp
      · rintro _ _ _ ⟨⟩
        exact ⟨⟨List.Sublist.refl _, rfl⟩, h.asked j c hj⟩
    · cases hstep
  | fail j =>
    simp only [Inference.step, Option.ite_none_right_eq_some] at hstep
    obtain ⟨hj, hstep⟩ := hstep
    cases hstep
    refine h.setPoll (fun hnone => ?_) (fun _ hp => nomatch hp) (fun _ _ _ hp => nomatch hp)
    rw [(h.before hnone).2 j] at hj
    cases hj
  | resume j =>
    simp only [Inference.step] at hstep
    split at hstep
    · rename_i c' c rows newRows hcursor hj
      cases hstep
      obtain ⟨hanswer, hbehind⟩ := h.answered j c rows newRows hj
      have hset : Sound v (S.setPoll j none) :=
        h.setPoll (by rw [hcursor]; simp) (fun _ hp => nomatch hp) (fun _ _ _ hp => nomatch hp)
      by_cases hnil : newRows.getD [] = []
      · rw [hnil, deliver_nil (S := S.setPoll j none) hcursor
          (h.owed_nil hcursor hanswer (hbehind c' hcursor) hnil)]
        exact hset
      · cases newRows with
        | none => exact absurd rfl hnil
        | some newRows =>
          obtain ⟨hnow, hwhole, hlate⟩ := hok c rows newRows hj hnil
          obtain rfl : c' = c := Option.some.inj (hcursor.symm.trans hnow)
          obtain ⟨k, hk, hpage⟩ := Option.map_eq_some_iff.mp hanswer.rows.symm
          exact hset.deliver hcursor hk hanswer.seen hpage.symm hnil hwhole hlate
    · cases hstep

theorem sound_initial : Sound v {} where
  fresh := List.Pairwise.nil
  base _ h := nomatch h
  due _ h := nomatch h
  once := ⟨rfl, List.Pairwise.nil, fun _ h => nomatch h⟩
  before _ := ⟨rfl, fun _ => rfl⟩
  blank _ h := nomatch h
  bound _ _ h := nomatch h
  asked _ _ h := nomatch h
  answered _ _ _ _ h := nomatch h

end Steps

/-- In a run whose moves all keep their place each row is sent exactly once, in order. -/
theorem exactlyOnce_of_orderly (v : Viewer) (S : Inference)
    (h : (inference v).ReachableIf (Orderly v) S) : ExactlyOnce v S :=
  (h.invariant (I := Sound v) (by rintro _ rfl; exact sound_initial)
    (fun _ _ _ hs hok hstep => hs.step hok hstep)).once

def orderly (v : Viewer) (S : Inference) : InferenceMove → Bool
  | .insert r =>
    match S.cursor with
    | none => true
    | some cursor => !v.sees r || cursor.key.any fun k => decide (k < r.key)
  | .backfill _ limit =>
    (recentInference limit (S.visible v)).getLast?.all fun r => r.createdAt % 1000 = 0
  | .resume j =>
    match S.polls j with
    | some (.answered cursor rows (some newRows)) =>
      newRows.isEmpty || (S.cursor = some cursor &&
        (newRows.getLast?.all fun r => r.createdAt % 1000 = 0) &&
        (S.visible v).all fun r => decide (r ∈ rows) || newRows.all fun p => decide (p.key < r.key))
    | _ => true
  | .backfillFails _ | .tick _ | .execute _ | .fail _ => true

theorem orderly_sound {v : Viewer} {S : Inference} {a : InferenceMove}
    (h : orderly v S a = true) : Orderly v S a := by
  cases a with
  | insert r =>
    intro cursor hsees hcursor
    simp only [orderly, hcursor, hsees, Bool.not_true, Bool.false_or, Option.any_eq_true] at h
    obtain ⟨k, hk, hlt⟩ := h
    exact ⟨k, hk, by simpa using hlt⟩
  | backfill now limit =>
    intro r hr
    simpa [orderly, hr, Whole] using h
  | resume j =>
    intro cursor rows newRows hj hne
    simp only [orderly, hj, Bool.or_eq_true, List.isEmpty_iff, hne, false_or, Bool.and_eq_true,
      decide_eq_true_eq, List.all_eq_true] at h
    obtain ⟨⟨hcursor, hwhole⟩, hlate⟩ := h
    refine ⟨hcursor, fun r hr => ?_, fun r hr hrows => (hlate r hr).resolve_left hrows⟩
    simpa [hr, Whole] using hwhole
  | backfillFails | tick | execute | fail => trivial

def someone : Viewer := ⟨"agent", "user", false⟩

def rowAt (id : Uuid) (createdAt : ℤ) : UsageRow := ⟨id, "agent", some "user", createdAt⟩

def poll : List InferenceMove := [.tick 0, .execute 0, .resume 0]

/-- A row before the backfill, and one in whole milliseconds after it. -/
theorem exactlyOnce_followed :
    ExactlyOnce someone ((inference someone).after {}
      ([.insert (rowAt 1 1000), .backfill 9 100, .insert (rowAt 2 3000)] ++ poll)) :=
  exactlyOnce_of_orderly someone _ (Machine.reachableIf_of_accepts
    (fun _ _ _ => orderly_sound) rfl (by decide +kernel))

/-- No row before the backfill: the cursor has no id, and each poll is refused. -/
def unread : List InferenceMove := [.backfill 9 100, .insert (rowAt 2 11000)] ++ poll

theorem unread_not_sent :
    ¬ ∀ (v : Viewer) (S : Inference), (inference v).Reachable S → ExactlyOnce v S := by
  intro h
  have hrun : (inference someone).Run {} unread ((inference someone).after {} unread) :=
    Machine.run_after (by decide +kernel)
  have honce := h someone _ ⟨{}, unread, rfl, hrun⟩
  have hsent : ((inference someone).after {} unread).sent = [] := by decide +kernel
  have hdue : ((inference someone).after {} unread).due = [rowAt 2 11000] := by decide +kernel
  rw [honce.sent, hdue] at hsent
  cases hsent

/-- A row with a fraction of a millisecond is after its own cursor. -/
example : ((inference someone).after {}
    ([.insert (rowAt 1 1000), .backfill 9 100, .insert (rowAt 2 3500)] ++ poll ++ poll)).sent =
      [rowAt 2 3500, rowAt 2 3500] := by decide +kernel

end Inference

end Hill90.Events
