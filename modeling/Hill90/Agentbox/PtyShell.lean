import Hill90.Foundation.Machine
import Mathlib.Data.Nat.Notation
import Mathlib.Tactic.NormNum
import Mathlib.Tactic.Ring

/-! # The timeout of a command in a terminal

`execute_streaming` of `pty_shell.py`.  Time passes where it waits: in `select`, and in `waitpid` once
the terminal is hung up.  The clock counts milliseconds; `elapsed` is a double, a sum of tenths of a
second of which each is rounded.
-/

namespace Hill90.Agentbox.PtyShell

def selectTimeout : ℕ := 100

def sigtermGrace : ℕ := 2000

def sigtermPollInterval : ℕ := 50

def drainTimeout : ℕ := 50

/-- A second, and the double `0.1`, in units of `2 ^ -55` seconds. -/
def second : ℕ := 36028797018963968

def tenth : ℕ := 3602879701896397

/-- The nearest double: 53 bits, and half to even. -/
def round (n : ℕ) : ℕ :=
  let unit := 2 ^ (n.log2 - 52)
  if 2 * (n % unit) < unit ∨ (2 * (n % unit) = unit ∧ n / unit % 2 = 0) then n / unit * unit
  else (n / unit + 1) * unit

/-- Where the loop is: `waiting` for a process that has hung up, in the `grace` after `SIGTERM`,
`draining` what the process, reaped or killed, has left, or past it. -/
inductive Phase where
  | polling
  | waiting
  | grace (deadline : ℕ)
  | draining (deadline : ℕ)
  | terminated
  | exited
  deriving DecidableEq

structure State where
  clock : ℕ := 0
  elapsed : ℕ := 0
  busy : ℕ := 0
  phase : Phase := .polling
  deriving DecidableEq

/-- What `select` or `waitpid` returns, with how long it has taken. -/
inductive Event where
  | output (d : ℕ)
  | idle
  | hangup (d : ℕ)
  | exit
  | wait (d : ℕ)
  | gracePoll (d : ℕ) (reaped : Bool)
  | kill
  | drain (d : ℕ)
  | drained (d : ℕ)
  deriving DecidableEq

section Source

variable (timeout : ℕ) (s : State)

def step : Event → Option State
  | .output d =>
    if s.phase = .polling ∧ d ≤ selectTimeout then
      some { s with clock := s.clock + d, busy := s.busy + d }
    else none
  | .idle =>
    if s.phase = .polling then
      let s := { s with clock := s.clock + selectTimeout, elapsed := round (s.elapsed + tenth) }
      -- `SIGTERM`
      if timeout * second ≤ s.elapsed then some { s with phase := .grace (s.clock + sigtermGrace) }
      else some s
    else none
  | .hangup d =>
    if s.phase = .polling ∧ d ≤ selectTimeout then
      some { s with clock := s.clock + d, phase := .waiting }
    else none
  | .exit =>
    if s.phase = .polling ∨ s.phase = .waiting then some { s with phase := .exited } else none
  | .wait d => if s.phase = .waiting then some { s with clock := s.clock + d } else none
  | .gracePoll d reaped =>
    match s.phase with
    | .grace deadline =>
      if s.clock < deadline ∧ d ≤ sigtermPollInterval then
        some { s with clock := s.clock + d, phase := if reaped then .draining deadline else s.phase }
      else none
    | _ => none
  | .kill =>
    match s.phase with
    | .grace deadline =>
      if deadline ≤ s.clock then some { s with phase := .draining deadline } else none
    | _ => none
  | .drain d =>
    match s.phase with
    | .draining _ => if d ≤ drainTimeout then some { s with clock := s.clock + d } else none
    | _ => none
  | .drained d =>
    match s.phase with
    | .draining _ =>
      if d ≤ drainTimeout then some { s with clock := s.clock + d, phase := .terminated } else none
    | _ => none

end Source

def machine (timeout : ℕ) : Machine State Event where
  initial s := s = {}
  step := step timeout

def elapsedAfter : ℕ → ℕ
  | 0 => 0
  | n + 1 => round (elapsedAfter n + tenth)

def Below (timeout n : ℕ) : Prop := ∀ m ≤ n, elapsedAfter m < timeout * second

/-- The polls with output leave time, before the timeout, for all idle polls that do not reach it; the
process does not hang up; and what it has left is read as quickly as the last grace poll. -/
def Quiet (timeout : ℕ) (s : State) : Event → Prop
  | .output d => ∀ n, Below timeout n → n * selectTimeout + (s.busy + d) ≤ timeout * 1000
  | .hangup _ => False
  | .drain d => ∀ deadline, s.phase = .draining deadline →
      s.clock + d ≤ deadline + sigtermPollInterval
  | _ => True

structure Polling (timeout : ℕ) (s : State) (n : ℕ) : Prop where
  clock : s.clock = n * 100 + s.busy
  elapsed : s.elapsed = elapsedAfter n
  below : Below timeout n
  rest : ∀ k, Below timeout k → k * 100 + s.busy ≤ timeout * 1000

def Kept (timeout : ℕ) (s : State) : Prop :=
  match s.phase with
  | .polling => ∃ n, Polling timeout s n
  | .waiting => False
  | .grace deadline | .draining deadline =>
    deadline ≤ timeout * 1000 + 2100 ∧ s.clock ≤ deadline + 50
  | .terminated | .exited => True

section Counting

variable {timeout n : ℕ}

theorem Below.mono {m : ℕ} (h : Below timeout n) (hle : m ≤ n) : Below timeout m :=
  fun k hk => h k (hk.trans hle)

end Counting

section Runs

variable {timeout : ℕ} {s t : State}

theorem Kept.polling (h : Kept timeout s) (hphase : s.phase = .polling) :
    ∃ n, Polling timeout s n := by
  rw [Kept, hphase] at h
  exact h

theorem Kept.grace (h : Kept timeout s) {deadline : ℕ} (hphase : s.phase = .grace deadline) :
    deadline ≤ timeout * 1000 + 2100 ∧ s.clock ≤ deadline + 50 := by
  rw [Kept, hphase] at h
  exact h

theorem Kept.draining (h : Kept timeout s) {deadline : ℕ} (hphase : s.phase = .draining deadline) :
    deadline ≤ timeout * 1000 + 2100 ∧ s.clock ≤ deadline + 50 := by
  rw [Kept, hphase] at h
  exact h

theorem Kept.not_waiting (h : Kept timeout s) : s.phase ≠ .waiting := by
  intro hphase
  rw [Kept, hphase] at h
  exact h

theorem kept_step {e : Event} (h : Kept timeout s) (hok : Quiet timeout s e)
    (hstep : (machine timeout).step s e = some t) : Kept timeout t := by
  cases e with
  | output d =>
    obtain ⟨⟨hphase, -⟩, ht⟩ := Option.ite_none_right_eq_some.mp hstep
    cases ht
    obtain ⟨n, hpolling⟩ := h.polling hphase
    rw [Kept, hphase]
    refine ⟨n, ?_, hpolling.elapsed, hpolling.below, hok⟩
    rw [hpolling.clock, Nat.add_assoc]
  | idle =>
    obtain ⟨hphase, ht⟩ := Option.ite_none_right_eq_some.mp hstep
    obtain ⟨n, hpolling⟩ := h.polling hphase
    have hclock := hpolling.clock
    have hrest := hpolling.rest n hpolling.below
    have helapsed : round (s.elapsed + tenth) = elapsedAfter (n + 1) := by
      rw [elapsedAfter, hpolling.elapsed]
    dsimp only [selectTimeout, sigtermGrace] at ht
    split at ht
    · -- the sum has reached the timeout, and `SIGTERM` is sent
      cases ht
      simp only [Kept]
      omega
    · rename_i hbelow
      cases ht
      simp only [Kept, hphase]
      refine ⟨n + 1, ?_, helapsed, ?_, hpolling.rest⟩
      · simp only
        omega
      · intro m hm
        obtain hlast | hm := Nat.eq_or_lt_of_le hm
        · rw [hlast, ← helapsed]
          exact not_le.mp hbelow
        · exact hpolling.below m (Nat.le_of_lt_succ hm)
  | hangup d => exact hok.elim
  | exit =>
    obtain ⟨-, ht⟩ := Option.ite_none_right_eq_some.mp hstep
    cases ht
    trivial
  | wait d =>
    obtain ⟨hphase, -⟩ := Option.ite_none_right_eq_some.mp hstep
    exact absurd hphase h.not_waiting
  | gracePoll d reaped =>
    simp only [machine, step] at hstep
    split at hstep
    · next deadline hphase =>
      obtain ⟨⟨hbefore, hd⟩, ht⟩ := Option.ite_none_right_eq_some.mp hstep
      cases ht
      have hpoll : d ≤ 50 := hd
      have hdeadline := (h.grace hphase).1
      cases reaped with
      | true =>
        simp only [Kept, if_true]
        omega
      | false =>
        simp only [Kept, hphase, Bool.false_eq_true, if_false]
        omega
    · cases hstep
  | kill =>
    simp only [machine, step] at hstep
    split at hstep
    · next deadline hphase =>
      obtain ⟨-, ht⟩ := Option.ite_none_right_eq_some.mp hstep
      cases ht
      exact h.grace hphase
    · cases hstep
  | drain d =>
    simp only [machine, step] at hstep
    split at hstep
    · next deadline hphase =>
      obtain ⟨-, ht⟩ := Option.ite_none_right_eq_some.mp hstep
      cases ht
      simp only [Kept, hphase]
      exact ⟨(h.draining hphase).1, hok deadline hphase⟩
    · cases hstep
  | drained d =>
    simp only [machine, step] at hstep
    split at hstep
    · obtain ⟨-, ht⟩ := Option.ite_none_right_eq_some.mp hstep
      cases ht
      trivial
    · cases hstep

/-- Ten tenths are below a second: with a timeout of one second the eleventh idle poll reaches it. -/
example : elapsedAfter 10 < second ∧ second ≤ elapsedAfter 11 := by decide +kernel

end Runs

end Hill90.Agentbox.PtyShell
