import Mathlib.Algebra.Order.Ring.Int
import Mathlib.Data.List.Nodup
import Mathlib.Logic.Function.Basic
import Hill90.Foundation.Machine

/-! # The rotation of refresh secrets

`model-router-refresh.ts`, one statement at a time: many calls for one running agent look its row up,
sign, write the row and revoke what they replaced.
-/

namespace Hill90.Agents.Rotation

/-- A token and the secret signed with it; the number stands for both of their random values. -/
structure Credential where
  serial : ℕ
  exp : ℤ
  deriving DecidableEq

/-- How far a call is: its row is selected, its token is signed until then, its row is written. -/
inductive Phase where
  | selected
  | signed (exp : ℤ)
  | stored (fresh : Credential)
  deriving DecidableEq

/-- The secret that a call presents, and the credential it has found in the row. -/
structure Call where
  presented : ℕ
  replaced : Credential
  phase : Phase
  deriving DecidableEq

/-- The row of the agent with the calls in flight.  `issued` are the tokens that were ever stored,
`redeemed` the secrets of the calls whose update has returned, as these all answer 200. -/
structure Server where
  now : ℤ
  row : Credential
  calls : ℕ → Option Call := fun _ => none
  issued : List Credential
  revoked : List ℕ := []
  redeemed : List ℕ := []
  next : ℕ

inductive Outcome where
  | done
  | refused
  | unheard
  deriving DecidableEq

inductive Event where
  | select (i secret : ℕ)
  | sign (i : ℕ) (configured : Bool)
  | update (i : ℕ) (outcome : Outcome)
  | revoke (i : ℕ) (outcome : Outcome)
  | tick (now : ℤ)
  deriving DecidableEq

def lifetime : ℤ := 3600

namespace Server

def setCall (s : Server) (i : ℕ) (call : Option Call) : Server :=
  { s with calls := Function.update s.calls i call }

def store (s : Server) (exp : ℤ) : Server :=
  { s with
    row := ⟨s.next, exp⟩
    issued := ⟨s.next, exp⟩ :: s.issued
    next := s.next + 1 }

def step (s : Server) : Event → Option Server
  | .select i secret =>
    match s.calls i with
    | none =>
      some (if s.row.serial = secret then s.setCall i (some ⟨secret, s.row, .selected⟩) else s)
    | some _ => none
  | .sign i configured =>
    match s.calls i with
    | some ⟨presented, replaced, .selected⟩ =>
      some (s.setCall i
        (if configured then some ⟨presented, replaced, .signed (s.now + lifetime)⟩ else none))
    | _ => none
  | .update i outcome =>
    match s.calls i with
    | some ⟨presented, replaced, .signed exp⟩ =>
      match outcome with
      | .done =>
        some
          { (s.store exp).setCall i (some ⟨presented, replaced, .stored ⟨s.next, exp⟩⟩) with
            redeemed := presented :: s.redeemed }
      | .refused => some (s.setCall i none)
      | .unheard => some ((s.store exp).setCall i none)
    | _ => none
  | .revoke i outcome =>
    match s.calls i with
    | some ⟨_, replaced, .stored _⟩ =>
      -- an error is logged and the call answers 200 all the same
      some
        { s.setCall i none with
          revoked := if outcome = .refused then s.revoked else replaced.serial :: s.revoked }
    | _ => none
  | .tick now => if s.now ≤ now then some { s with now } else none

def started (now : ℤ) (row : Credential) : Server where
  now := now
  row := row
  issued := [row]
  next := row.serial + 1

/-- The token can be used no more. -/
def Spent (s : Server) (c : Credential) : Prop := c.exp ≤ s.now ∨ c.serial ∈ s.revoked

/-- Each secret is redeemed once, and once all calls have ended no token but that of the row can be
used. -/
structure Rotated (s : Server) : Prop where
  once : s.redeemed.Nodup
  sole : (∀ i, s.calls i = none) → ∀ c ∈ s.issued, ¬s.Spent c → c = s.row

/-- An update that returns finds the secret of its call in the row, and one that returns an error
writes over no token that can be used; a revocation that fails is of no such token either. -/
def Orderly (s : Server) : Event → Prop
  | .update i .done => ∀ call, s.calls i = some call → s.row.serial = call.presented
  | .update _ .unheard => s.Spent s.row
  | .revoke i .refused => ∀ call, s.calls i = some call → s.Spent call.replaced
  | _ => True

/-- A call in flight that is about to revoke the token. -/
def Revoking (s : Server) (c : Credential) : Prop :=
  ∃ i presented fresh, s.calls i = some ⟨presented, c, .stored fresh⟩

structure Kept (s : Server) : Prop where
  row : s.row ∈ s.issued
  serials : ∀ c ∈ s.issued, ∀ c' ∈ s.issued, c.serial = c'.serial → c = c'
  bound : ∀ c ∈ s.issued, c.serial < s.next
  replaced : ∀ i call, s.calls i = some call →
    call.replaced ∈ s.issued ∧ call.replaced.serial = call.presented
  redeemed : ∀ secret ∈ s.redeemed, secret ≠ s.row.serial ∧ ∃ c ∈ s.issued, c.serial = secret
  once : s.redeemed.Nodup
  named : ∀ c ∈ s.issued, s.Spent c ∨ c = s.row ∨ s.Revoking c

end Server

open Server

def machine : Machine Server Event where
  initial s := ∃ now row, s = started now row
  step := Server.step

variable {s t : Server} {i j : ℕ} {call : Call} {c : Credential} {e : Event}

theorem calls_setCall (s : Server) (i j : ℕ) (call : Option Call) :
    (s.setCall i call).calls j = if j = i then call else s.calls j :=
  Function.update_apply _ _ _ _

theorem Server.Revoking.setCall (h : s.Revoking c) {new : Option Call}
    (hi : ∀ call fresh, s.calls i = some call → call.phase ≠ .stored fresh) :
    (s.setCall i new).Revoking c := by
  obtain ⟨j, presented, fresh, hj⟩ := h
  have hne : j ≠ i := by
    rintro rfl
    exact hi _ fresh hj rfl
  exact ⟨j, presented, fresh, by rw [calls_setCall, if_neg hne, hj]⟩

theorem Server.Kept.setCall (h : s.Kept) {new : Option Call}
    (hi : ∀ call fresh, s.calls i = some call → call.phase ≠ .stored fresh)
    (hnew : ∀ call, new = some call →
      call.replaced ∈ s.issued ∧ call.replaced.serial = call.presented) :
    (s.setCall i new).Kept where
  row := h.row
  serials := h.serials
  bound := h.bound
  replaced j call hj := by
    rw [calls_setCall] at hj
    split at hj
    · exact hnew call hj
    · exact h.replaced j call hj
  redeemed := h.redeemed
  once := h.once
  named c hc := (h.named c hc).imp_right (Or.imp_right fun hrevoking => hrevoking.setCall hi)

/-- The row is written: its token has been seen to, or its call is about to see to it. -/
theorem Server.Kept.store (h : s.Kept) {exp : ℤ} {new : Option Call} {redeemed : List ℕ}
    (hi : ∀ call fresh, s.calls i = some call → call.phase ≠ .stored fresh)
    (hnew : ∀ call, new = some call →
      call.replaced ∈ s.issued ∧ call.replaced.serial = call.presented)
    (hredeemed : ∀ secret ∈ redeemed, ∃ c ∈ s.issued, c.serial = secret) (honce : redeemed.Nodup)
    (hrow : s.Spent s.row ∨ ∃ presented fresh, new = some ⟨presented, s.row, .stored fresh⟩) :
    Kept { (s.store exp).setCall i new with redeemed := redeemed } where
  row := List.mem_cons_self
  serials c hc c' hc' heq := by
    obtain rfl | hc := List.mem_cons.mp hc
    · obtain rfl | hc' := List.mem_cons.mp hc'
      · rfl
      · exact absurd heq.symm (h.bound c' hc').ne
    · obtain rfl | hc' := List.mem_cons.mp hc'
      · exact absurd heq (h.bound c hc).ne
      · exact h.serials c hc c' hc' heq
  bound c hc := by
    obtain rfl | hc := List.mem_cons.mp hc
    · exact Nat.lt_succ_self _
    · exact Nat.lt_succ_of_lt (h.bound c hc)
  replaced j call hj := by
    have hj : (s.setCall i new).calls j = some call := hj
    rw [calls_setCall] at hj
    have hboth : call.replaced ∈ s.issued ∧ call.replaced.serial = call.presented := by
      split at hj
      · exact hnew call hj
      · exact h.replaced j call hj
    exact ⟨List.mem_cons_of_mem _ hboth.1, hboth.2⟩
  redeemed secret hsecret := by
    obtain ⟨c, hc, rfl⟩ := hredeemed secret hsecret
    exact ⟨(h.bound c hc).ne, c, List.mem_cons_of_mem _ hc, rfl⟩
  once := honce
  named c hc := by
    obtain rfl | hc := List.mem_cons.mp hc
    · exact .inr (.inl rfl)
    · have hcalls : (s.setCall i new).Revoking c → Revoking
          { (s.store exp).setCall i new with redeemed := redeemed } c := id
      obtain hspent | rfl | hrevoking := h.named c hc
      · exact .inl hspent
      · obtain hspent | ⟨presented, fresh, rfl⟩ := hrow
        · exact .inl hspent
        · exact .inr (.inr (hcalls ⟨i, presented, fresh, by rw [calls_setCall, if_pos rfl]⟩))
      · exact .inr (.inr (hcalls (hrevoking.setCall hi)))

theorem Server.Kept.revoke (h : s.Kept) (hi : s.calls i = some call) {revoked : List ℕ}
    (hsub : ∀ serial ∈ s.revoked, serial ∈ revoked)
    (hreplaced : Spent { s with revoked := revoked } call.replaced) :
    Kept { s.setCall i none with revoked := revoked } where
  row := h.row
  serials := h.serials
  bound := h.bound
  replaced j call hj := by
    have hj : (s.setCall i none).calls j = some call := hj
    rw [calls_setCall] at hj
    split at hj
    · cases hj
    · exact h.replaced j call hj
  redeemed := h.redeemed
  once := h.once
  named c hc := by
    obtain hspent | hrow | ⟨j, presented, fresh, hj⟩ := h.named c hc
    · exact .inl (hspent.imp_right (hsub _))
    · exact .inr (.inl hrow)
    · by_cases hij : j = i
      · subst hij
        cases hi.symm.trans hj
        exact .inl hreplaced
      · refine .inr (.inr ⟨j, presented, fresh, ?_⟩)
        change (s.setCall i none).calls j = _
        rw [calls_setCall, if_neg hij, hj]

theorem kept_update {presented : ℕ} {replaced : Credential} {exp : ℤ} {outcome : Outcome}
    (h : s.Kept) (hok : s.Orderly (.update i outcome))
    (hi : s.calls i = some ⟨presented, replaced, .signed exp⟩)
    (hstep : machine.step s (.update i outcome) = some t) : t.Kept := by
  have hphase : ∀ call fresh, s.calls i = some call → call.phase ≠ .stored fresh := by
    intro call fresh hcall
    cases hi.symm.trans hcall
    exact nofun
  have hnone : ∀ call, (none : Option Call) = some call →
      call.replaced ∈ s.issued ∧ call.replaced.serial = call.presented := fun _ hcall => by cases hcall
  simp only [machine, Server.step, hi] at hstep
  cases outcome with
  | done =>
    cases hstep
    obtain ⟨hmem, hserial⟩ := h.replaced i _ hi
    have hrow : s.row.serial = presented := hok _ hi
    have heq : replaced = s.row := h.serials _ hmem _ h.row (hserial.trans hrow.symm)
    refine h.store hphase ?_ ?_ ?_ (.inr ⟨presented, ⟨s.next, exp⟩, by rw [heq]⟩)
    · rintro call ⟨⟩
      exact ⟨hmem, hserial⟩
    · intro secret hsecret
      obtain rfl | hsecret := List.mem_cons.mp hsecret
      · exact ⟨s.row, h.row, hrow⟩
      · exact (h.redeemed secret hsecret).2
    · refine List.nodup_cons.mpr ⟨fun hsecret => ?_, h.once⟩
      exact (h.redeemed presented hsecret).1 hrow.symm
  | refused =>
    cases hstep
    exact h.setCall hphase hnone
  | unheard =>
    cases hstep
    exact h.store hphase hnone (fun secret hsecret => (h.redeemed secret hsecret).2) h.once (.inl hok)

theorem kept_step (h : s.Kept) (hok : s.Orderly e) (hstep : machine.step s e = some t) : t.Kept := by
  cases e with
  | select i secret =>
    cases hi : s.calls i with
    | some call => simp [machine, Server.step, hi] at hstep
    | none =>
      simp only [machine, Server.step, hi, Option.some.injEq] at hstep
      subst hstep
      split
      · rename_i hrow
        refine h.setCall (fun call _ hcall => by cases hi.symm.trans hcall) ?_
        rintro call ⟨⟩
        exact ⟨h.row, hrow⟩
      · exact h
  | sign i configured =>
    simp only [machine, Server.step] at hstep
    split at hstep
    · rename_i presented replaced hi
      cases hstep
      refine h.setCall (fun call fresh hcall => by cases hi.symm.trans hcall; exact nofun) ?_
      intro call hcall
      cases configured with
      | true =>
        cases hcall
        exact h.replaced i ⟨presented, replaced, .selected⟩ hi
      | false => cases hcall
    · cases hstep
  | update i outcome =>
    have hcall : ∃ presented replaced exp, s.calls i = some ⟨presented, replaced, .signed exp⟩ := by
      simp only [machine, Server.step] at hstep
      split at hstep
      · rename_i presented replaced exp hi
        exact ⟨presented, replaced, exp, hi⟩
      · cases hstep
    obtain ⟨presented, replaced, exp, hi⟩ := hcall
    exact kept_update h hok hi hstep
  | revoke i outcome =>
    simp only [machine, Server.step] at hstep
    split at hstep
    · rename_i presented replaced fresh hi
      cases hstep
      refine h.revoke hi (fun serial hserial => ?_) ?_
      · split
        · exact hserial
        · exact List.mem_cons_of_mem _ hserial
      · cases outcome with
        | refused => exact hok _ hi
        | done => exact .inr List.mem_cons_self
        | unheard => exact .inr List.mem_cons_self
    · cases hstep
  | tick now =>
    obtain ⟨hle, ⟨⟩⟩ := Option.ite_none_right_eq_some.mp hstep
    refine ⟨h.row, h.serials, h.bound, h.replaced, h.redeemed, h.once, fun c hc => ?_⟩
    exact (h.named c hc).imp_left (Or.imp_left fun hexp => le_trans hexp hle)

theorem kept_started (now : ℤ) (row : Credential) : (started now row).Kept := by
  constructor <;> simp [started]

theorem Server.Kept.rotated (h : s.Kept) : s.Rotated where
  once := h.once
  sole hidle c hc hlive := by
    obtain hspent | hrow | ⟨i, _, _, hi⟩ := h.named c hc
    · exact absurd hspent hlive
    · exact hrow
    · cases (hidle i).symm.trans hi

end Hill90.Agents.Rotation
