import Mathlib
import Hill90.Foundation.Machine

/-! # Usage rows that could not be written

`usage_gaps.py`: a failed write is counted in memory, and the next write that succeeds records the
gap.  The gap is read before the INSERT and cleared after it.
-/

namespace Hill90.Router.Gaps

/-- `writes` are the failed writes that the gap stands for, by their numbers. -/
structure PendingGap where
  missedCount : ℕ
  firstFailedAt : ℤ
  lastFailedAt : ℤ
  reason : String
  writes : List ℕ
  deriving DecidableEq

/-- The process and the table `usage_write_gaps`.  A flush in flight has the gap it has read. -/
structure State where
  pending : Option PendingGap := none
  flushes : List PendingGap := []
  rows : List PendingGap := []
  failed : ℕ := 0
  deriving DecidableEq

/-- The INSERT of a flush returns, has no effect, or has one that the flush does not learn of. -/
inductive Outcome where
  | recorded
  | refused
  | unheard
  deriving DecidableEq

inductive Event where
  | failed (exc text : String) (now : ℤ)
  | written
  | inserted (i : ℕ) (outcome : Outcome)
  deriving DecidableEq

/-- The first two hundred characters. -/
def reason (exc text : String) : String := .ofList ((exc ++ ": " ++ text).toList.take 200)

namespace State

def recordFailedWrite (s : State) (exc text : String) (now : ℤ) : State :=
  match s.pending with
  | none =>
    { s with
      pending := some ⟨1, now, now, reason exc text, [s.failed]⟩
      failed := s.failed + 1 }
  | some gap =>
    { s with
      pending := some
        { gap with
          missedCount := gap.missedCount + 1
          lastFailedAt := now
          reason := reason exc text
          writes := gap.writes ++ [s.failed] }
      failed := s.failed + 1 }

/-- `flush_pending_gap`, up to its INSERT. -/
def flushPendingGap (s : State) : State :=
  match s.pending with
  | none => s
  | some gap => { s with flushes := s.flushes ++ [gap] }

/-- `flush_pending_gap`, from the INSERT on. -/
def settle (s : State) (gap : PendingGap) : Outcome → State
  | .recorded => { s with rows := s.rows ++ [gap], pending := none }
  | .refused => s
  | .unheard => { s with rows := s.rows ++ [gap] }

def step (s : State) : Event → Option State
  | .failed exc text now => some (s.recordFailedWrite exc text now)
  | .written => some s.flushPendingGap
  | .inserted i outcome =>
    s.flushes[i]?.map fun gap => { s with flushes := s.flushes.eraseIdx i }.settle gap outcome

def gaps (s : State) : List PendingGap := s.rows ++ s.pending.toList

/-- The counts add up to the writes that failed, and each of these is in one gap. -/
structure Conserved (s : State) : Prop where
  total : (s.gaps.map PendingGap.missedCount).sum = s.failed
  once : (s.gaps.flatMap PendingGap.writes).Perm (List.range s.failed)

/-- An INSERT that returns finds the failures pending that the flush has read, and one that does not
return has no effect. -/
def Undisturbed (s : State) : Event → Prop
  | .inserted i .recorded =>
    ∃ gap pending, s.flushes[i]? = some gap ∧ s.pending = some pending ∧
      pending.writes = gap.writes
  | .inserted _ .unheard => False
  | _ => True

/-- A gap counts the writes it stands for, which are in the order in which they failed. -/
structure Counted (s : State) (gap : PendingGap) : Prop where
  count : gap.missedCount = gap.writes.length
  sorted : gap.writes.Pairwise (· < ·)
  below : ∀ n ∈ gap.writes, n < s.failed
  nonempty : gap.writes ≠ []

structure Tracked (s : State) : Prop where
  pending : ∀ gap, s.pending = some gap → s.Counted gap
  flushes : ∀ gap ∈ s.flushes, s.Counted gap
  rows : ∀ gap ∈ s.rows, s.Counted gap

end State

def machine : Machine State Event where
  initial s := s = {}
  step := State.step

open State

variable {s t : State} {e : Event} {gap : PendingGap}

theorem State.Counted.mono (h : s.Counted gap) (hle : s.failed ≤ t.failed) : t.Counted gap :=
  ⟨h.count, h.sorted, fun n hn => (h.below n hn).trans_le hle, h.nonempty⟩

theorem counted_recordFailedWrite (h : s.Tracked) (exc text : String) (now : ℤ) :
    ∀ gap, (s.recordFailedWrite exc text now).pending = some gap →
      (s.recordFailedWrite exc text now).Counted gap := by
  intro gap hgap
  unfold recordFailedWrite at hgap ⊢
  cases hpending : s.pending with
  | none =>
    simp only [hpending, Option.some.injEq] at hgap ⊢
    subst hgap
    constructor <;> simp
  | some pending =>
    simp only [hpending, Option.some.injEq] at hgap ⊢
    subst hgap
    obtain ⟨hcount, hsorted, hbelow, _⟩ := h.pending pending hpending
    constructor
    · simp [hcount]
    · simpa [List.pairwise_append, hsorted] using hbelow
    · intro n hn
      obtain hn | rfl : n ∈ pending.writes ∨ n = s.failed := by simpa using hn
      · exact Nat.lt_succ_of_lt (hbelow n hn)
      · exact Nat.lt_succ_self _
    · simp

theorem tracked_recordFailedWrite (h : s.Tracked) (exc text : String) (now : ℤ) :
    (s.recordFailedWrite exc text now).Tracked := by
  have hfailed : s.failed ≤ (s.recordFailedWrite exc text now).failed := by
    unfold recordFailedWrite
    split <;> simp
  have hflushes : (s.recordFailedWrite exc text now).flushes = s.flushes := by
    unfold recordFailedWrite
    split <;> rfl
  have hrows : (s.recordFailedWrite exc text now).rows = s.rows := by
    unfold recordFailedWrite
    split <;> rfl
  constructor
  · exact counted_recordFailedWrite h exc text now
  · rw [hflushes]
    exact fun gap hgap => (h.flushes gap hgap).mono hfailed
  · rw [hrows]
    exact fun gap hgap => (h.rows gap hgap).mono hfailed

theorem tracked_settle (h : s.Tracked) (hgap : s.Counted gap) (outcome : Outcome) :
    (s.settle gap outcome).Tracked := by
  have hrows : ∀ g ∈ s.rows ++ [gap], s.Counted g := by
    intro g hg
    obtain hg | rfl : g ∈ s.rows ∨ g = gap := by simpa using hg
    · exact h.rows g hg
    · exact hgap
  have hmono : ∀ {t : State} {g : PendingGap}, t.failed = s.failed → s.Counted g → t.Counted g :=
    fun ht hg => hg.mono ht.ge
  cases outcome with
  | recorded =>
    constructor
    · intro g hg
      cases hg
    · exact fun g hg => hmono rfl (h.flushes g hg)
    · exact fun g hg => hmono rfl (hrows g hg)
  | refused => exact h
  | unheard =>
    constructor
    · exact fun g hg => hmono rfl (h.pending g hg)
    · exact fun g hg => hmono rfl (h.flushes g hg)
    · exact fun g hg => hmono rfl (hrows g hg)

theorem tracked_step (h : s.Tracked) (hstep : machine.step s e = some t) : t.Tracked := by
  cases e with
  | failed exc text now =>
    cases hstep
    exact tracked_recordFailedWrite h exc text now
  | written =>
    cases hstep
    unfold flushPendingGap
    cases hpending : s.pending with
    | none => exact h
    | some gap =>
      constructor
      · exact fun g hg => (h.pending g (hpending.trans hg)).mono le_rfl
      · intro g hg
        obtain hg | rfl : g ∈ s.flushes ∨ g = gap := by simpa using hg
        · exact (h.flushes g hg).mono le_rfl
        · exact (h.pending g hpending).mono le_rfl
      · exact fun g hg => (h.rows g hg).mono le_rfl
  | inserted i outcome =>
    obtain ⟨gap, hgap, rfl⟩ := Option.map_eq_some_iff.mp hstep
    have hbase : State.Tracked { s with flushes := s.flushes.eraseIdx i } :=
      ⟨fun g hg => (h.pending g hg).mono le_rfl,
        fun g hg => (h.flushes g (List.mem_of_mem_eraseIdx hg)).mono le_rfl,
        fun g hg => (h.rows g hg).mono le_rfl⟩
    exact tracked_settle hbase ((h.flushes gap (List.mem_of_getElem? hgap)).mono le_rfl) outcome

theorem conserved_iff (h : s.Tracked) :
    s.Conserved ↔ (s.gaps.flatMap PendingGap.writes).Perm (List.range s.failed) := by
  refine ⟨Conserved.once, fun honce => ⟨?_, honce⟩⟩
  have hcount : ∀ gap ∈ s.gaps, gap.missedCount = gap.writes.length := by
    intro gap hgap
    obtain hgap | hgap : gap ∈ s.rows ∨ s.pending = some gap := by simpa [gaps] using hgap
    · exact (h.rows gap hgap).count
    · exact (h.pending gap hgap).count
  have hsum : s.gaps.map PendingGap.missedCount = s.gaps.map fun gap => gap.writes.length :=
    List.map_congr_left hcount
  rw [hsum, ← List.length_flatMap, honce.length_eq, List.length_range]

theorem conserved_recordFailedWrite (h : s.Tracked) (hP : s.Conserved) (exc text : String) (now : ℤ) :
    (s.recordFailedWrite exc text now).Conserved := by
  rw [conserved_iff (tracked_recordFailedWrite h exc text now)]
  have honce := hP.once
  unfold recordFailedWrite
  cases hpending : s.pending with
  | none =>
    rw [gaps, hpending] at honce
    simpa [gaps, List.range_succ] using honce.append_right [s.failed]
  | some gap =>
    rw [gaps, hpending] at honce
    simpa [gaps, List.range_succ] using honce.append_right [s.failed]

/-- The gap that is recorded takes the place of the one that is cleared. -/
theorem once_recorded_iff (h : s.Tracked) (hgap : s.Counted gap) (hP : s.Conserved) :
    ((s.rows ++ [gap]).flatMap PendingGap.writes).Perm (List.range s.failed) ↔
      ∃ pending, s.pending = some pending ∧ pending.writes = gap.writes := by
  have honce := hP.once
  constructor
  · intro hperm
    have heq : ((s.rows ++ [gap]).flatMap PendingGap.writes).Perm
        (s.gaps.flatMap PendingGap.writes) := hperm.trans honce.symm
    rw [gaps, List.flatMap_append, List.flatMap_append, List.perm_append_left_iff] at heq
    cases hpending : s.pending with
    | none =>
      rw [hpending] at heq
      have hnil : gap.writes = [] := by simpa using heq
      exact absurd hnil hgap.nonempty
    | some pending =>
      rw [hpending] at heq
      have hperm : gap.writes.Perm pending.writes := by simpa using heq
      exact ⟨pending, rfl,
        (hperm.eq_of_pairwise' (hgap.sorted.imp Nat.le_of_lt)
          ((h.pending pending hpending).sorted.imp Nat.le_of_lt)).symm⟩
  · rintro ⟨pending, hpending, hwrites⟩
    rw [gaps, hpending] at honce
    simpa [hwrites] using honce

/-- A gap that stays pending is reported again. -/
theorem not_once_unheard (hgap : s.Counted gap) (hP : s.Conserved) :
    ¬ (((s.rows ++ [gap]) ++ s.pending.toList).flatMap PendingGap.writes).Perm
      (List.range s.failed) := by
  intro hperm
  have hlength := hperm.length_eq
  have hbefore := hP.once.length_eq
  have hpos : 0 < gap.writes.length := List.length_pos_iff.mpr hgap.nonempty
  simp only [gaps, List.flatMap_append, List.length_append, List.flatMap_singleton] at hlength hbefore
  omega

theorem conserved_step_iff (h : s.Tracked) (hP : s.Conserved)
    (hstep : machine.step s e = some t) : t.Conserved ↔ Undisturbed s e := by
  have ht := tracked_step h hstep
  cases e with
  | failed exc text now =>
    cases hstep
    exact iff_of_true (conserved_recordFailedWrite h hP exc text now) trivial
  | written =>
    cases hstep
    refine iff_of_true ?_ trivial
    unfold flushPendingGap
    split
    · exact hP
    · exact ⟨hP.total, hP.once⟩
  | inserted i outcome =>
    obtain ⟨gap, hgap, rfl⟩ := Option.map_eq_some_iff.mp hstep
    have hcounted : s.Counted gap := h.flushes gap (List.mem_of_getElem? hgap)
    rw [conserved_iff ht]
    cases outcome with
    | recorded =>
      have hexact := once_recorded_iff h hcounted hP
      simpa [gaps, settle, Undisturbed, hgap] using hexact
    | refused => exact iff_of_true hP.once trivial
    | unheard =>
      have hnot := not_once_unheard hcounted hP
      exact iff_of_false hnot id

theorem tracked_initial : State.Tracked {} := by
  constructor <;> simp

theorem conserved_initial : State.Conserved {} := by
  constructor <;> rfl

/-- The failed writes are accounted for throughout a run just if no flush is disturbed in it. -/
theorem always_conserved_iff {as : List Event} (hs : machine.initial s) (hrun : machine.Run s as t) :
    (∀ pre u, pre <+: as → machine.Run s pre u → u.Conserved) ↔
      machine.RunIf Undisturbed s as t := by
  cases hs
  exact hrun.always_iff tracked_initial conserved_initial (fun _ _ _ h => tracked_step h)
    fun _ _ _ h hP => conserved_step_iff h hP

/-- A write fails while the INSERT is in flight, and the next gap starts after it. -/
def forgetting : List Event :=
  [.failed "PostgresError" "refused" 1, .written, .failed "PostgresError" "refused" 2,
    .inserted 0 .recorded]

def twice : List Event :=
  [.failed "PostgresError" "refused" 1, .written, .written, .inserted 0 .recorded,
    .inserted 0 .recorded]

theorem not_always_conserved : ¬ ∀ t, machine.Reachable t → t.Conserved := by
  intro h
  have hrun : machine.Run {} forgetting (machine.after {} forgetting) :=
    Machine.run_after (by decide)
  have htotal := (h _ ⟨{}, forgetting, rfl, hrun⟩).total
  revert htotal
  decide

theorem not_always_conserved_iff_run :
    (∀ pre u, pre <+: twice → machine.Run {} pre u → u.Conserved) ↔
      machine.RunIf Undisturbed {} twice (machine.after {} twice) :=
  always_conserved_iff rfl (Machine.run_after (by decide))

end Hill90.Router.Gaps
