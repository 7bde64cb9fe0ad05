import Mathlib.Logic.Function.Basic
import Hill90.Foundation.Machine

/-! # The refresh loop of an agent and the API

`token_refresh.py` against `model-router-refresh.ts`, over a network that loses what it likes.  What
becomes of the tokens does not matter here, only who holds which secret.
-/

namespace Hill90.Agents.Renewal

/-- Where an exchange is: on its way, at the statements of the API, or on its way back. -/
inductive Stage where
  | sent
  | selected
  | signed
  | stored (fresh : ℕ)
  | renewed (fresh : ℕ)
  | refused
  deriving DecidableEq

structure Exchange where
  presented : ℕ
  stage : Stage
  deriving DecidableEq

/-- The secret in the row, the secret the loop holds, and the exchange that it waits for; `given` is
what the container was created with, and what its environment has again after a restart. -/
structure Link where
  row : ℕ
  next : ℕ
  given : ℕ
  secret : ℕ
  waiting : Option ℕ := none
  exchanges : ℕ → Option Exchange := fun _ => none
  count : ℕ := 0

/-- The update of the row returns, has no effect, or has one but returns an error. -/
inductive Outcome where
  | done
  | refused
  | unheard
  deriving DecidableEq

inductive Event where
  | attempt
  | arrive (i : ℕ)
  | sign (i : ℕ) (configured : Bool)
  | update (i : ℕ) (outcome : Outcome)
  | revoke (i : ℕ)
  | answer (i : ℕ)
  | lose (i : ℕ)
  | timeout
  /-- The container restarts, under its policy `unless-stopped`. -/
  | restart
  deriving DecidableEq

/-- The row has been written for the exchange. -/
def Exchange.rotated (x : Exchange) : Bool :=
  match x.stage with
  | .stored _ | .renewed _ => true
  | .sent | .selected | .signed | .refused => false

namespace Link

def set (s : Link) (i : ℕ) (x : Option Exchange) : Link :=
  { s with exchanges := Function.update s.exchanges i x }

def unwait (s : Link) (i : ℕ) : Option ℕ := if s.waiting = some i then none else s.waiting

def step (s : Link) : Event → Option Link
  | .attempt =>
    if s.waiting = none then
      some
        { s.set s.count (some ⟨s.secret, .sent⟩) with
          waiting := some s.count
          count := s.count + 1 }
    else none
  | .arrive i =>
    match s.exchanges i with
    | some ⟨presented, .sent⟩ =>
      some (s.set i (some ⟨presented, if s.row = presented then .selected else .refused⟩))
    | _ => none
  | .sign i configured =>
    match s.exchanges i with
    | some ⟨presented, .selected⟩ =>
      some (s.set i (some ⟨presented, if configured then .signed else .refused⟩))
    | _ => none
  | .update i outcome =>
    match s.exchanges i with
    | some ⟨presented, .signed⟩ =>
      match outcome with
      | .done =>
        some { s.set i (some ⟨presented, .stored s.next⟩) with row := s.next, next := s.next + 1 }
      | .refused => some (s.set i (some ⟨presented, .refused⟩))
      | .unheard => some { s.set i (some ⟨presented, .refused⟩) with row := s.next, next := s.next + 1 }
    | _ => none
  | .revoke i =>
    match s.exchanges i with
    | some ⟨presented, .stored fresh⟩ => some (s.set i (some ⟨presented, .renewed fresh⟩))
    | _ => none
  | .answer i =>
    match s.exchanges i with
    | some ⟨_, .renewed fresh⟩ =>
      some
        { s.set i none with
          -- an answer that nobody waits for is not read
          secret := if s.waiting = some i then fresh else s.secret
          waiting := s.unwait i }
    | some ⟨_, .refused⟩ => some { s.set i none with waiting := s.unwait i }
    | _ => none
  | .lose i =>
    match s.exchanges i with
    | some ⟨_, .sent⟩ | some ⟨_, .renewed _⟩ | some ⟨_, .refused⟩ => some (s.set i none)
    | _ => none
  | .timeout => if s.waiting = none then none else some { s with waiting := none }
  | .restart => some { s with secret := s.given, waiting := none }

def started (secret : ℕ) : Link where
  row := secret
  next := secret + 1
  given := secret
  secret := secret

def Quiet (s : Link) : Prop := s.waiting = none ∧ ∀ i, s.exchanges i = none

def Agreed (s : Link) : Prop := s.Quiet → s.secret = s.row

/-- The row is written while the loop waits for the exchange, and with a success; from then on neither
is the answer lost nor does the loop give up, and it is not started again. -/
def Heard (s : Link) : Event → Prop
  | .update i .done => s.waiting = some i
  | .update _ .unheard => False
  | .lose i => ∀ x, s.exchanges i = some x → x.rotated = false
  | .timeout => ∀ i x, s.waiting = some i → s.exchanges i = some x → x.rotated = false
  | .restart => s.row = s.given
  | _ => True

/-- No exchange has written the row since the loop has learned its secret. -/
def Settled (s : Link) : Prop :=
  s.secret = s.row ∧ ∀ i x, s.exchanges i = some x → x.rotated = false

/-- The loop waits for the one exchange that has written the row. -/
def Pending (s : Link) : Prop :=
  ∃ i presented, s.given < s.row ∧ s.waiting = some i ∧
    (s.exchanges i = some ⟨presented, .stored s.row⟩ ∨
      s.exchanges i = some ⟨presented, .renewed s.row⟩) ∧
    ∀ j x, s.exchanges j = some x → j ≠ i → x.rotated = false

end Link

open Link

def machine : Machine Link Event where
  initial s := ∃ secret, s = started secret
  step := Link.step

variable {s t : Link} {i j : ℕ} {x : Exchange} {e : Event}

/-- A restart after a refresh that was heard: the loop holds the old secret again. -/
def restarted : List Event :=
  [.attempt, .arrive 0, .sign 0 true, .update 0 .done, .revoke 0, .answer 0, .restart]

example : (machine.after (started 0) restarted).secret ≠ (machine.after (started 0) restarted).row := by
  decide

end Hill90.Agents.Renewal
