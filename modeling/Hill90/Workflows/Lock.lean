import Mathlib.Logic.Function.Basic
import Hill90.Foundation.AdvisoryLock
import Hill90.Foundation.Machine

/-! # The lock of the scheduler

The ticks of any number of API instances, each with a pool of connections of its own.
Every query of a tick may be served by any connection of the pool; the advisory lock
belongs to the connection that took it.
-/

namespace Hill90.Workflows

/-- A pooled connection: the instance and the number of the connection in its pool. -/
abbrev Session := ℕ × ℕ

/-- Where the tick of an instance is; `running` is every phase but the first. -/
inductive Phase where
  | idle
  | locking
  | executing
  | unlocking
  deriving DecidableEq

structure Locks where
  phase : ℕ → Phase
  lock : AdvisoryLock Session

inductive LockMove where
  /-- The interval of an instance fires. -/
  | fire (i : ℕ)
  /-- `pg_try_advisory_lock`, served by connection `c`. -/
  | tryLock (i c : ℕ)
  /-- The query fails before it reaches the database, or its answer is lost. -/
  | tryFails (i : ℕ)
  | tryLost (i c : ℕ)
  /-- The execution part ends, with or without an exception. -/
  | finish (i : ℕ)
  | unlock (i c : ℕ)
  | unlockFails (i : ℕ)
  | unlockLost (i c : ℕ)
  /-- The pool closes a connection, or the connection breaks. -/
  | endSession (s : Session)
  deriving DecidableEq

namespace Locks

def enter (L : Locks) (i : ℕ) (p : Phase) : Locks := { L with phase := Function.update L.phase i p }

def step (L : Locks) : LockMove → Option Locks
  | .fire i => if L.phase i = .idle then some (L.enter i .locking) else some L
  | .tryLock i c =>
    if L.phase i = .locking then
      let (acquired, lock) := L.lock.tryLock (i, c)
      some { L.enter i (if acquired then .executing else .idle) with lock }
    else none
  | .tryFails i => if L.phase i = .locking then some (L.enter i .idle) else none
  | .tryLost i c =>
    if L.phase i = .locking then
      some { L.enter i .idle with lock := (L.lock.tryLock (i, c)).2 }
    else none
  | .finish i => if L.phase i = .executing then some (L.enter i .unlocking) else none
  | .unlock i c | .unlockLost i c =>
    if L.phase i = .unlocking then
      some { L.enter i .idle with lock := L.lock.unlock (i, c) }
    else none
  | .unlockFails i => if L.phase i = .unlocking then some (L.enter i .idle) else none
  | .endSession s => some { L with lock := L.lock.endSession s }

end Locks

/-- All instances start with no tick under way, on a database where nobody holds the lock. -/
def locks : Machine Locks LockMove where
  initial L := L = ⟨fun _ => .idle, none⟩
  step := Locks.step

namespace Locks

def HeldIn (L : Locks) (i : ℕ) : Prop := ∃ c, L.lock.heldBy (i, c) = true

/-- The unlock is served by the session that holds the lock and does not fail; that
session lives as long as its tick executes; no acquisition is lost. -/
def Loyal (L : Locks) : LockMove → Prop
  | .unlock i c | .unlockLost i c => ∀ c', L.lock.heldBy (i, c') = true → c' = c
  | .unlockFails i => ¬L.HeldIn i
  | .tryLost _ _ => L.lock ≠ none
  | .endSession s => L.phase s.1 = .executing → L.lock.heldBy s = false
  | _ => True

/-- Who executes holds the lock, once; who holds it executes or is about to give it back. -/
structure Exclusive (L : Locks) : Prop where
  executing : ∀ i, L.phase i = .executing → L.HeldIn i
  held : ∀ i c n, L.lock = some ((i, c), n) →
    n = 1 ∧ (L.phase i = .executing ∨ L.phase i = .unlocking)

theorem heldIn_some {L : Locks} {j c n i : ℕ} (h : L.lock = some ((j, c), n)) :
    L.HeldIn i ↔ j = i := by
  constructor
  · rintro ⟨c', hc'⟩
    simp only [h, AdvisoryLock.heldBy_some, Prod.mk.injEq, decide_eq_true_eq] at hc'
    exact hc'.1
  · rintro rfl
    exact ⟨c, by simp [h]⟩

theorem not_heldIn_none {L : Locks} {i : ℕ} (h : L.lock = none) : ¬L.HeldIn i := by
  rintro ⟨c, hc⟩
  simp [h] at hc

/-- Two instances never execute together. -/
theorem Exclusive.unique {L : Locks} (h : L.Exclusive) {i j : ℕ} (hi : L.phase i = .executing)
    (hj : L.phase j = .executing) : i = j := by
  have hheld := h.executing i hi
  cases hlock : L.lock with
  | none => exact absurd hheld (not_heldIn_none hlock)
  | some holder =>
    obtain ⟨⟨k, c⟩, n⟩ := holder
    rw [← (heldIn_some hlock).mp hheld, ← (heldIn_some hlock).mp (h.executing j hj)]

/-- A change of phase that neither starts an execution nor leaves a held lock behind. -/
theorem Exclusive.enter {L : Locks} (h : L.Exclusive) {i : ℕ} {p : Phase} (hp : p ≠ .executing)
    (hkeep : L.HeldIn i → p = .unlocking) : (L.enter i p).Exclusive := by
  constructor
  · intro j hj
    simp only [Locks.enter, Function.update_apply] at hj
    split at hj
    · exact absurd hj hp
    · exact h.executing j hj
  · intro j c n hlock
    have hlock : L.lock = some ((j, c), n) := hlock
    refine ⟨(h.held j c n hlock).1, ?_⟩
    simp only [Locks.enter, Function.update_apply]
    split
    · rename_i hji
      exact .inr (hkeep ((heldIn_some hlock).mpr hji))
    · exact (h.held j c n hlock).2

theorem Exclusive.release {L : Locks} (h : L.Exclusive) {i : ℕ}
    (hheld : L.HeldIn i) : Exclusive { L.enter i .idle with lock := none } := by
  constructor
  · intro j hj
    simp only [Locks.enter, Function.update_apply] at hj
    split at hj
    · cases hj
    · -- Nobody else executes while the lock is with `i`.
      have hj' := h.executing j hj
      cases hlock : L.lock with
      | none => exact absurd hj' (not_heldIn_none hlock)
      | some holder =>
        obtain ⟨⟨k, c⟩, n⟩ := holder
        have := (heldIn_some hlock).mp hheld
        have := (heldIn_some hlock).mp hj'
        omega
  · intro j c n hlock
    cases hlock

theorem Exclusive.step {L L' : Locks} {a : LockMove} (h : L.Exclusive) (hok : L.Loyal a)
    (hstep : L.step a = some L') : L'.Exclusive := by
  have hidle : ∀ {i p}, L.phase i = p → p ≠ .executing → p ≠ .unlocking → ¬L.HeldIn i := by
    rintro i p rfl hexec hunlock ⟨c, hc⟩
    cases hlock : L.lock with
    | none => simp [hlock] at hc
    | some holder =>
      obtain ⟨⟨k, c'⟩, n⟩ := holder
      obtain rfl := (heldIn_some hlock).mp ⟨c, hc⟩
      exact (h.held _ c' n hlock).2.elim hexec hunlock
  cases a with
  | fire i =>
    simp only [Locks.step] at hstep
    split at hstep
    · rename_i hphase
      cases hstep
      exact h.enter (by simp) fun hheld => absurd hheld (hidle hphase (by simp) (by simp))
    · cases hstep
      exact h
  | tryLock i c =>
    simp only [Locks.step] at hstep
    split at hstep
    · rename_i hphase
      cases hstep
      have hnot := hidle hphase (by simp) (by simp)
      cases hlock : L.lock with
      | none =>
        constructor
        · intro j hj
          simp only [AdvisoryLock.tryLock_free, Locks.enter, Function.update_apply] at hj
          split at hj
          · rename_i hji
            exact ⟨c, by simp [AdvisoryLock.tryLock_free, hji]⟩
          · exact absurd (h.executing j hj) (not_heldIn_none hlock)
        · intro j c' n hheld
          simp only [AdvisoryLock.tryLock_free, Option.some.injEq, Prod.mk.injEq] at hheld
          obtain ⟨⟨rfl, _⟩, rfl⟩ := hheld
          simp [AdvisoryLock.tryLock_free, Locks.enter]
      | some holder =>
        obtain ⟨⟨k, c'⟩, n⟩ := holder
        have hne : (k, c') ≠ (i, c) := by
          rintro heq
          cases heq
          exact hnot ((heldIn_some hlock).mpr rfl)
        rw [AdvisoryLock.tryLock_taken hne]
        have hnext := h.enter (i := i) (p := .idle) (by simp) fun hheld => absurd hheld hnot
        rw [← hlock]
        exact hnext
    · cases hstep
  | tryFails i =>
    simp only [Locks.step] at hstep
    split at hstep
    · rename_i hphase
      cases hstep
      exact h.enter (by simp) fun hheld => absurd hheld (hidle hphase (by simp) (by simp))
    · cases hstep
  | tryLost i c =>
    simp only [Locks.step] at hstep
    split at hstep
    · rename_i hphase
      cases hstep
      have hnot := hidle hphase (by simp) (by simp)
      cases hlock : L.lock with
      | none => exact absurd hlock hok
      | some holder =>
        obtain ⟨⟨k, c'⟩, n⟩ := holder
        have hne : (k, c') ≠ (i, c) := by
          rintro heq
          cases heq
          exact hnot ((heldIn_some hlock).mpr rfl)
        rw [AdvisoryLock.tryLock_taken hne, ← hlock]
        exact h.enter (i := i) (p := .idle) (by simp) fun hheld => absurd hheld hnot
    · cases hstep
  | finish i =>
    simp only [Locks.step] at hstep
    split at hstep
    · cases hstep
      exact h.enter (by simp) fun _ => rfl
    · cases hstep
  | unlock i c | unlockLost i c =>
    simp only [Locks.step] at hstep
    split at hstep
    · rename_i hphase
      cases hstep
      cases hlock : L.lock with
      | none =>
        have hnext := h.enter (i := i) (p := .idle) (by simp) fun hheld =>
          absurd hheld (not_heldIn_none hlock)
        have hsame : (AdvisoryLock.unlock none (i, c) : AdvisoryLock Session) = L.lock := hlock.symm
        rw [hsame]
        exact hnext
      | some holder =>
        obtain ⟨⟨k, c'⟩, n⟩ := holder
        by_cases hki : k = i
        · subst hki
          have hloyal := hok c' (by simp [hlock])
          obtain ⟨rfl, _⟩ := h.held _ _ _ hlock
          rw [hloyal, AdvisoryLock.unlock_once]
          exact h.release ((heldIn_some hlock).mpr rfl)
        · rw [AdvisoryLock.unlock_other (by simp [hki]), ← hlock]
          exact h.enter (i := i) (p := .idle) (by simp) fun hheld =>
            absurd ((heldIn_some hlock).mp hheld) hki
    · cases hstep
  | unlockFails i =>
    simp only [Locks.step] at hstep
    split at hstep
    · cases hstep
      exact h.enter (by simp) fun hheld => absurd hheld hok
    · cases hstep
  | endSession s =>
    cases hstep
    obtain ⟨hsame, _⟩ | ⟨hnone, hheld⟩ := L.lock.endSession_cases s
    · rw [hsame]
      exact h
    · rw [hnone]
      constructor
      · intro j hj
        have hj' := h.executing j hj
        cases hlock : L.lock with
        | none => exact absurd hj' (not_heldIn_none hlock)
        | some holder =>
          obtain ⟨⟨k, c⟩, n⟩ := holder
          obtain rfl := (heldIn_some hlock).mp hj'
          have heq : (k, c) = s := by simpa [hlock] using hheld
          subst heq
          have := hok hj
          simp_all
      · intro j c n hlock
        cases hlock

theorem exclusive_initial {L : Locks} (h : locks.initial L) : L.Exclusive := by
  cases h
  constructor
  · intro i hi
    cases hi
  · intro i c n hlock
    cases hlock

end Locks

/-- At most one instance executes, an instance whose tick has ended holds nothing, and
with no tick past its lock query the next one gets the lock. -/
theorem scheduler_exclusion {L : Locks} (h : locks.ReachableIf Locks.Loyal L) :
    (∀ i j, L.phase i = .executing → L.phase j = .executing → i = j) ∧
      (∀ i, L.phase i = .idle → ¬L.HeldIn i) ∧
      ((∀ i, L.phase i = .idle ∨ L.phase i = .locking) →
        ∀ s, (L.lock.tryLock s).1 = true) := by
  have hx : L.Exclusive :=
    h.invariant (fun _ => Locks.exclusive_initial) fun _ _ _ hL hok hstep => hL.step hok hstep
  refine ⟨fun i j => hx.unique, ?_, ?_⟩
  · rintro i hidle ⟨c, hc⟩
    cases hlock : L.lock with
    | none => simp [hlock] at hc
    | some holder =>
      obtain ⟨⟨k, c'⟩, n⟩ := holder
      obtain rfl := (Locks.heldIn_some hlock).mp ⟨c, hc⟩
      have := (hx.held _ c' n hlock).2
      simp_all
  · intro hquiet s
    cases hlock : L.lock with
    | none => rfl
    | some holder =>
      obtain ⟨⟨k, c⟩, n⟩ := holder
      obtain hk | hk := (hx.held k c n hlock).2
      · have := hquiet k
        simp [hk] at this
      · have := hquiet k
        simp [hk] at this

namespace Locks.Sample

def start : Locks := ⟨fun _ => .idle, none⟩

def loyal (L : Locks) : LockMove → Bool
  | .unlock i c | .unlockLost i c =>
    L.lock.all fun h => h.1.1 ≠ i || h.1.2 = c
  | .unlockFails i => L.lock.all fun h => h.1.1 ≠ i
  | .tryLost _ _ => L.lock.isSome
  | .endSession s => L.phase s.1 ≠ .executing || !L.lock.heldBy s
  | _ => true

theorem loyal_spec {L : Locks} {a : LockMove} (h : loyal L a = true) : L.Loyal a := by
  cases a with
  | unlock i c | unlockLost i c =>
    intro c' hc'
    cases hlock : L.lock with
    | none => simp [hlock] at hc'
    | some holder =>
      simp only [loyal, hlock, Option.all_some, Bool.or_eq_true, decide_eq_true_eq] at h
      simp only [hlock, AdvisoryLock.heldBy, Option.any_some, decide_eq_true_eq] at hc'
      rw [hc'] at h
      exact h.resolve_left (by simp)
  | unlockFails i =>
    rintro ⟨c, hc⟩
    cases hlock : L.lock with
    | none => simp [hlock] at hc
    | some holder =>
      simp only [loyal, hlock, Option.all_some, decide_eq_true_eq] at h
      simp only [hlock, AdvisoryLock.heldBy, Option.any_some, decide_eq_true_eq] at hc
      exact h (congrArg Prod.fst hc)
  | tryLost i c =>
    intro hnone
    simp [loyal, hnone] at h
  | endSession s =>
    intro hphase
    simpa [loyal, hphase] using h
  | fire | tryLock | tryFails | finish => trivial

/-- Two ticks, one after the other. -/
def turns : List LockMove :=
  [.fire 0, .tryLock 0 7, .fire 1, .tryLock 1 3, .finish 0, .unlock 0 7, .fire 1, .tryLock 1 4]

end Locks.Sample

theorem scheduler_exclusion_sample :
    ¬(locks.after Locks.Sample.start Locks.Sample.turns).HeldIn 0 := by
  have hrun : locks.RunIf Locks.Loyal Locks.Sample.start Locks.Sample.turns
      (locks.after Locks.Sample.start Locks.Sample.turns) :=
    Machine.runIf_of_accepts (I := fun _ => True) (fun _ _ _ => Locks.Sample.loyal_spec)
      (fun _ _ _ _ _ _ => trivial) trivial (by decide +kernel)
  exact (scheduler_exclusion ⟨_, _, rfl, hrun⟩).2.1 0 (by decide +kernel)

/-- The unlock of a tick is served by a connection that does not hold the lock: the tick
is over, the lock is not, and the next instance is refused. -/
theorem unlock_misses_the_lock :
    ∃ L, locks.Reachable L ∧ (∀ i, L.phase i = .idle) ∧ L.HeldIn 0 ∧
      (L.lock.tryLock (1, 0)).1 = false := by
  refine ⟨⟨fun _ => .idle, some ((0, 7), 1)⟩, ?_, fun _ => rfl, ⟨7, by decide⟩, by decide⟩
  refine ⟨Locks.Sample.start, [.fire 0, .tryLock 0 7, .finish 0, .unlock 0 8], rfl, ?_⟩
  refine Machine.run_of_exec ?_
  simp [Machine.exec, locks, Locks.step, Locks.enter, Locks.Sample.start, AdvisoryLock.tryLock,
    AdvisoryLock.unlock]

end Hill90.Workflows
