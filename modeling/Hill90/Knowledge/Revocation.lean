import Mathlib.Algebra.Order.Ring.Int
import Mathlib.Logic.Function.Basic
import Hill90.Foundation.Machine

/-! # The revocation cache of the knowledge service

`routes/internal.py`, `middleware/agent_auth.py` and the revocation loop of `main.py`, one statement at
a time.  The clock counts microseconds, as the database does; tokens and rows expire at whole seconds.
-/

namespace Hill90.Knowledge.Revocation

structure Token where
  jti : ℕ
  sub : ℕ
  exp : ℤ
  deriving DecidableEq

structure AgentToken where
  agentId : ℕ
  tokenHash : ℕ
  expiresAt : ℤ
  revoked : Bool := false
  deriving DecidableEq

/-- The body of `POST /internal/revoke`, and the row of `revoked_tokens` that it becomes. -/
structure RevokeRequest where
  jti : ℕ
  agentId : ℕ
  expiresAt : ℤ
  deriving DecidableEq

inductive Refresh where
  | verified (sub secret : ℕ)
  | redeemed (sub : ℕ) (expiresAt : ℤ)
  | signed (newToken : Token) (newSecret : ℕ)
  | stored (newToken : Token)
  deriving DecidableEq

/-- Where a call of `revoke_token` is; one that has completed remembers the tokens issued by then. -/
inductive Revoke where
  | asked (q : RevokeRequest)
  | recorded (q : RevokeRequest)
  | withdrawn (q : RevokeRequest)
  | completed (q : RevokeRequest) (issued : List Token)
  deriving DecidableEq

inductive Loop where
  | asleep
  | fetched (jtis : List ℕ)
  | replaced
  deriving DecidableEq

structure Akm where
  now : ℤ
  issued : List Token := []
  agentTokens : List AgentToken := []
  revokedTokens : List RevokeRequest := []
  revokedJtis : List ℕ := []
  loop : Loop := .asleep
  cycle : ℕ := 0
  refreshes : ℕ → Option Refresh := fun _ => none
  revokes : ℕ → Option Revoke := fun _ => none

inductive RefreshEvent where
  | present (token : Token) (secret : ℕ)
  | redeem
  | sign (newJti newSecret : ℕ)
  | store
  | answer
  | fail
  deriving DecidableEq

inductive RevokeEvent where
  | ask (q : RevokeRequest)
  | record
  | withdraw
  | complete
  | fail
  deriving DecidableEq

inductive LoopEvent where
  | fetch
  | replace
  | clean
  | fail
  deriving DecidableEq

/-- `issue` is the API signing a token of its own. -/
inductive Event where
  | tick (now : ℤ)
  | issue (token : Token)
  | refresh (i : ℕ) (e : RefreshEvent)
  | revoke (i : ℕ) (e : RevokeEvent)
  | loop (e : LoopEvent)
  | restart
  deriving DecidableEq

def micros (seconds : ℤ) : ℤ := seconds * 1000000

def clockSkewSeconds : ℤ := 30

/-- The row that a secret is looked for in: `WHERE token_hash = $1 AND agent_id = $2 AND revoked_at IS
NULL`. -/
def AgentToken.holds (row : AgentToken) (secret agentId : ℕ) : Bool :=
  row.tokenHash = secret && row.agentId = agentId && !row.revoked

def setRevoked (p : AgentToken → Bool) (rows : List AgentToken) : List AgentToken :=
  rows.map fun row => if p row then { row with revoked := true } else row

namespace Akm

def verifyAgentToken (s : Akm) (token : Token) (allowExpired : Bool) : Bool :=
  (allowExpired || s.now < micros (token.exp + clockSkewSeconds)) && !s.revokedJtis.contains token.jti

/-- `SELECT jti FROM revoked_tokens WHERE expires_at > NOW()` -/
def unexpiredJtis (s : Akm) : List ℕ :=
  (s.revokedTokens.filter fun row => s.now < micros row.expiresAt).map (·.jti)

def setRefresh (s : Akm) (i : ℕ) (call : Option Refresh) : Akm :=
  { s with refreshes := Function.update s.refreshes i call }

def setRevoke (s : Akm) (i : ℕ) (call : Option Revoke) : Akm :=
  { s with revokes := Function.update s.revokes i call }

def refreshToken (s : Akm) (i : ℕ) : RefreshEvent → Option Akm
  | .present token secret =>
    if s.refreshes i = none ∧ token ∈ s.issued then
      some (s.setRefresh i
        (if s.verifyAgentToken token true then some (.verified token.sub secret) else none))
    else none
  | .redeem =>
    match s.refreshes i with
    | some (.verified sub secret) =>
      match s.agentTokens.find? (·.holds secret sub) with
      | some row =>
        some
          { s.setRefresh i (some (.redeemed sub row.expiresAt)) with
            agentTokens := setRevoked (·.holds secret sub) s.agentTokens }
      | none => some (s.setRefresh i none)
    | _ => none
  | .sign newJti newSecret =>
    match s.refreshes i with
    | some (.redeemed sub expiresAt) =>
      some (s.setRefresh i
        (if micros expiresAt < s.now then none
        else some (.signed ⟨newJti, sub, s.now / 1000000 + 3600⟩ newSecret)))
    | _ => none
  | .store =>
    match s.refreshes i with
    | some (.signed newToken newSecret) =>
      some
        { s.setRefresh i (some (.stored newToken)) with
          agentTokens :=
            { agentId := newToken.sub, tokenHash := newSecret, expiresAt := newToken.exp } ::
              s.agentTokens }
    | _ => none
  | .answer =>
    match s.refreshes i with
    | some (.stored newToken) => some { s.setRefresh i none with issued := newToken :: s.issued }
    | _ => none
  | .fail => if s.refreshes i = none then none else some (s.setRefresh i none)

def revokeToken (s : Akm) (i : ℕ) : RevokeEvent → Option Akm
  | .ask q => if s.revokes i = none then some (s.setRevoke i (some (.asked q))) else none
  | .record =>
    match s.revokes i with
    | some (.asked q) =>
      some
        { s.setRevoke i (some (.recorded q)) with
          -- `ON CONFLICT (jti) DO NOTHING`
          revokedTokens :=
            if s.revokedTokens.any (·.jti = q.jti) then s.revokedTokens else q :: s.revokedTokens }
    | _ => none
  | .withdraw =>
    match s.revokes i with
    | some (.recorded q) =>
      some
        { s.setRevoke i (some (.withdrawn q)) with
          agentTokens := setRevoked (·.agentId = q.agentId) s.agentTokens }
    | _ => none
  | .complete =>
    match s.revokes i with
    | some (.withdrawn q) =>
      some
        { s.setRevoke i (some (.completed q s.issued)) with
          revokedJtis := q.jti :: s.revokedJtis }
    | _ => none
  | .fail =>
    match s.revokes i with
    | some (.asked _) | some (.recorded _) | some (.withdrawn _) => some (s.setRevoke i none)
    | _ => none

def revocationRefreshLoop (s : Akm) : LoopEvent → Option Akm
  | .fetch =>
    match s.loop with
    | .asleep => some { s with loop := .fetched s.unexpiredJtis, cycle := s.cycle + 1 }
    | _ => none
  | .replace =>
    match s.loop with
    | .fetched jtis =>
      some { s with revokedJtis := jtis, loop := if s.cycle % 10 = 0 then .replaced else .asleep }
    | _ => none
  | .clean =>
    match s.loop with
    | .replaced =>
      some
        { s with
          revokedTokens := s.revokedTokens.filter fun row => !decide (micros row.expiresAt < s.now)
          loop := .asleep }
    | _ => none
  | .fail =>
    match s.loop with
    -- the cycle is counted before its query
    | .asleep => some { s with cycle := s.cycle + 1 }
    | .replaced => some { s with loop := .asleep }
    | .fetched _ => none

end Akm

/-- What a restart leaves of a call. -/
def Revoke.outcome : Option Revoke → Option Revoke
  | some (.completed q issued) => some (.completed q issued)
  | _ => none

namespace Akm

/-- The service comes up anew, and `_load_revoked_jtis` fills its cache. -/
def restarted (s : Akm) : Akm :=
  { s with
    revokedJtis := s.unexpiredJtis
    loop := .asleep
    cycle := 0
    refreshes := fun _ => none
    revokes := fun i => Revoke.outcome (s.revokes i) }

def step (s : Akm) : Event → Option Akm
  | .tick now => if s.now ≤ now then some { s with now } else none
  | .issue token => some { s with issued := token :: s.issued }
  | .refresh i e => s.refreshToken i e
  | .revoke i e => s.revokeToken i e
  | .loop e => s.revocationRefreshLoop e
  | .restart => some s.restarted

def started (now : ℤ) (issued : List Token) (agentTokens : List AgentToken)
    (revokedTokens : List RevokeRequest) : Akm :=
  restarted { now, issued, agentTokens, revokedTokens }

end Akm

open Akm

def machine : Machine Akm Event where
  initial s := ∃ now issued agentTokens revokedTokens,
    s = started now issued agentTokens revokedTokens
  step := Akm.step

/-- Too old to be accepted, leeway and all. -/
def Akm.Dead (s : Akm) (token : Token) : Prop := micros (token.exp + clockSkewSeconds) ≤ s.now

instance (s : Akm) (token : Token) : Decidable (s.Dead token) := inferInstanceAs (Decidable (_ ≤ _))

def Akm.Recalled (s : Akm) (token : Token) : Prop :=
  ∃ i q issued, s.revokes i = some (.completed q issued) ∧ token ∈ issued ∧ token.jti = q.jti

def Akm.Effective (s : Akm) : Prop := ∀ token, s.Recalled token → s.verifyAgentToken token false = false

def Akm.Lists (s : Akm) (token : Token) : Prop :=
  ∃ row ∈ s.revokedTokens, row.jti = token.jti ∧ s.now < micros row.expiresAt

/-- The rows are fetched when they name each revoked token that could be accepted, and no revocation
completes over a set that was fetched before its row was there. -/
def Akm.Covered (s : Akm) : Event → Prop
  | .loop .fetch | .restart => ∀ token, s.Recalled token → s.Lists token ∨ s.Dead token
  | .revoke i .complete =>
    ∀ q jtis, s.revokes i = some (.withdrawn q) → s.loop = .fetched jtis →
      q.jti ∈ jtis ∨ ∀ token ∈ s.issued, token.jti = q.jti → s.Dead token
  | _ => True

/-- Both the set in place and the one about to replace it hold what is revoked and could be accepted. -/
structure Akm.Kept (s : Akm) : Prop where
  issued : ∀ token, s.Recalled token → token ∈ s.issued
  cached : ∀ token, s.Recalled token → token.jti ∈ s.revokedJtis ∨ s.Dead token
  fetched : ∀ jtis, s.loop = .fetched jtis → ∀ token, s.Recalled token → token.jti ∈ jtis ∨ s.Dead token

variable {s t : Akm} {i j : ℕ} {e : Event} {token : Token}

theorem verify_eq_false_iff :
    s.verifyAgentToken token false = false ↔ token.jti ∈ s.revokedJtis ∨ s.Dead token := by
  simp only [verifyAgentToken, Dead, Bool.false_or, Bool.and_eq_false_iff, decide_eq_false_iff_not,
    not_lt, Bool.not_eq_false', List.contains_eq_mem, decide_eq_true_eq]
  exact or_comm

theorem Akm.Kept.effective (h : s.Kept) : s.Effective := fun token htoken =>
  verify_eq_false_iff.mpr (h.cached token htoken)

theorem mem_unexpiredJtis (h : s.Lists token) : token.jti ∈ s.unexpiredJtis := by
  obtain ⟨row, hrow, hjti, hnow⟩ := h
  rw [← hjti]
  exact List.mem_map_of_mem (List.mem_filter.mpr ⟨hrow, decide_eq_true hnow⟩)

theorem revokes_setRevoke (s : Akm) (i j : ℕ) (call : Option Revoke) :
    (s.setRevoke i call).revokes j = if j = i then call else s.revokes j :=
  Function.update_apply _ _ _ _

/-- A step that completes no revocation and touches neither set. -/
structure Quiet (s t : Akm) : Prop where
  now : s.now ≤ t.now
  issued : ∀ token ∈ s.issued, token ∈ t.issued
  revokedJtis : t.revokedJtis = s.revokedJtis
  loop : ∀ jtis, t.loop = .fetched jtis → s.loop = .fetched jtis
  completed : ∀ i q issued, t.revokes i = some (.completed q issued) →
    s.revokes i = some (.completed q issued)

theorem Quiet.recalled (h : Quiet s t) (htoken : t.Recalled token) : s.Recalled token := by
  obtain ⟨i, q, issued, hi, hrest⟩ := htoken
  exact ⟨i, q, issued, h.completed i q issued hi, hrest⟩

theorem Quiet.kept (h : Quiet s t) (hs : s.Kept) : t.Kept where
  issued token htoken := h.issued token (hs.issued token (h.recalled htoken))
  cached token htoken := by
    rw [h.revokedJtis]
    exact (hs.cached token (h.recalled htoken)).imp_right fun hdead => le_trans hdead h.now
  fetched jtis hjtis token htoken :=
    (hs.fetched jtis (h.loop jtis hjtis) token (h.recalled htoken)).imp_right fun hdead =>
      le_trans hdead h.now

theorem mem_setRevoked {p : AgentToken → Bool} {rows : List AgentToken} {row : AgentToken}
    (h : row ∈ setRevoked p rows) (hlive : row.revoked = false) : row ∈ rows ∧ p row = false := by
  obtain ⟨row', hrow', heq⟩ := List.mem_map.mp h
  by_cases hp : p row' = true
  · rw [if_pos hp] at heq
    subst heq
    cases hlive
  · rw [if_neg hp] at heq
    subst heq
    exact ⟨hrow', Bool.eq_false_iff.mpr hp⟩

/-- A refresh changes its call and its two tables; a row comes to life where its token is stored. -/
structure Refreshes (s : Akm) (i : ℕ) (e : RefreshEvent) (t : Akm) : Prop where
  frame : t = { s with refreshes := t.refreshes, agentTokens := t.agentTokens, issued := t.issued }
  issued : ∀ token ∈ s.issued, token ∈ t.issued
  rows : ∀ row ∈ t.agentTokens, row.revoked = false → row ∈ s.agentTokens ∨
    e = .store ∧ ∃ newToken newSecret, s.refreshes i = some (.signed newToken newSecret) ∧
      row.agentId = newToken.sub

theorem refreshes_setRefresh {e : RefreshEvent} {new : Option Refresh} :
    Refreshes s i e (s.setRefresh i new) :=
  ⟨rfl, fun _ htoken => htoken, fun _ hrow _ => .inl hrow⟩

theorem refreshToken_spec {e : RefreshEvent} (h : s.refreshToken i e = some t) :
    Refreshes s i e t := by
  cases e with
  | present token secret =>
    obtain ⟨_, ⟨⟩⟩ := Option.ite_none_right_eq_some.mp h
    exact refreshes_setRefresh
  | redeem =>
    simp only [refreshToken] at h
    split at h
    · split at h
      · cases h
        exact ⟨rfl, fun _ htoken => htoken, fun row hrow hlive => .inl (mem_setRevoked hrow hlive).1⟩
      · cases h
        exact refreshes_setRefresh
    · cases h
  | sign newJti newSecret =>
    simp only [refreshToken] at h
    split at h
    · cases h
      exact refreshes_setRefresh
    · cases h
  | store =>
    simp only [refreshToken] at h
    split at h
    · rename_i newToken newSecret hi
      cases h
      refine ⟨rfl, fun _ htoken => htoken, fun row hrow _ => ?_⟩
      obtain rfl | hrow := List.mem_cons.mp hrow
      · exact .inr ⟨rfl, newToken, newSecret, hi, rfl⟩
      · exact .inl hrow
    · cases h
  | answer =>
    simp only [refreshToken] at h
    split at h
    · cases h
      exact ⟨rfl, fun _ htoken => List.mem_cons_of_mem _ htoken, fun _ hrow _ => .inl hrow⟩
    · cases h
  | fail =>
    obtain ⟨_, ⟨⟩⟩ := Option.ite_none_left_eq_some.mp h
    exact refreshes_setRefresh

theorem quiet_refresh {e : RefreshEvent} (h : s.refreshToken i e = some t) : Quiet s t := by
  obtain ⟨hframe, hissued, _⟩ := refreshToken_spec h
  rw [hframe]
  exact ⟨le_rfl, hissued, rfl, fun _ hjtis => hjtis, fun _ _ _ hi => hi⟩

/-- A step of a revocation that does not complete it; only `withdraw` touches the refresh secrets. -/
theorem revokeToken_spec {e : RevokeEvent} (h : s.revokeToken i e = some t) (he : e ≠ .complete) :
    ∃ new agentTokens revokedTokens,
      t = { s.setRevoke i new with agentTokens := agentTokens, revokedTokens := revokedTokens } ∧
      (∀ q issued, s.revokes i ≠ some (.completed q issued)) ∧
      (∀ q issued, new ≠ some (.completed q issued)) ∧
      (e = .withdraw ∨ agentTokens = s.agentTokens ∧ ∀ q, new ≠ some (.withdrawn q)) := by
  cases e with
  | ask q =>
    obtain ⟨hi, ⟨⟩⟩ := Option.ite_none_right_eq_some.mp h
    exact ⟨_, _, _, rfl, by simp [hi], nofun, .inr ⟨rfl, nofun⟩⟩
  | record =>
    simp only [revokeToken] at h
    split at h
    · rename_i q hi
      cases h
      exact ⟨_, _, _, rfl, by simp [hi], nofun, .inr ⟨rfl, nofun⟩⟩
    · cases h
  | withdraw =>
    simp only [revokeToken] at h
    split at h
    · rename_i q hi
      cases h
      exact ⟨_, _, _, rfl, by simp [hi], nofun, .inl rfl⟩
    · cases h
  | complete => exact absurd rfl he
  | fail =>
    have hfail : t = s.setRevoke i none ∧ ∀ q issued, s.revokes i ≠ some (.completed q issued) := by
      simp only [revokeToken] at h
      split at h
      · rename_i q hi
        exact ⟨(Option.some.inj h).symm, by simp [hi]⟩
      · rename_i q hi
        exact ⟨(Option.some.inj h).symm, by simp [hi]⟩
      · rename_i q hi
        exact ⟨(Option.some.inj h).symm, by simp [hi]⟩
      · cases h
    obtain ⟨rfl, hi⟩ := hfail
    exact ⟨none, s.agentTokens, s.revokedTokens, rfl, hi, nofun, .inr ⟨rfl, nofun⟩⟩

theorem quiet_revoke {e : RevokeEvent} (h : s.revokeToken i e = some t) (he : e ≠ .complete) :
    Quiet s t := by
  obtain ⟨new, agentTokens, revokedTokens, rfl, _, hnew, _⟩ := revokeToken_spec h he
  refine ⟨le_rfl, fun _ htoken => htoken, rfl, fun _ hjtis => hjtis, fun j q issued hj => ?_⟩
  have hj : (s.setRevoke i new).revokes j = some (.completed q issued) := hj
  rw [revokes_setRevoke] at hj
  split at hj
  · exact absurd hj (hnew q issued)
  · exact hj

theorem revokeToken_complete (h : s.revokeToken i .complete = some t) :
    ∃ q, s.revokes i = some (.withdrawn q) ∧
      t = { s.setRevoke i (some (.completed q s.issued)) with revokedJtis := q.jti :: s.revokedJtis } := by
  simp only [revokeToken] at h
  split at h
  · rename_i q hi
    cases h
    exact ⟨q, hi, rfl⟩
  · cases h

theorem recalled_complete {q : RevokeRequest} {jtis : List ℕ}
    (h : Recalled { s.setRevoke i (some (.completed q s.issued)) with revokedJtis := jtis } token) :
    s.Recalled token ∨ token ∈ s.issued ∧ token.jti = q.jti := by
  obtain ⟨j, q', issued, hj, hmem, hjti⟩ := h
  have hj : (s.setRevoke i (some (.completed q s.issued))).revokes j = some (.completed q' issued) := hj
  rw [revokes_setRevoke] at hj
  split at hj
  · cases hj
    exact .inr ⟨hmem, hjti⟩
  · exact .inl ⟨j, q', issued, hj, hmem, hjti⟩

theorem kept_complete (h : s.Kept) (hok : s.Covered (.revoke i .complete))
    (hstep : s.revokeToken i .complete = some t) : t.Kept := by
  obtain ⟨q, hi, rfl⟩ := revokeToken_complete hstep
  constructor
  · intro token htoken
    obtain hold | ⟨hmem, _⟩ := recalled_complete htoken
    · exact h.issued token hold
    · exact hmem
  · intro token htoken
    obtain hold | ⟨_, hjti⟩ := recalled_complete htoken
    · exact (h.cached token hold).imp_left (List.mem_cons_of_mem _)
    · rw [hjti]
      exact .inl List.mem_cons_self
  · intro jtis hjtis token htoken
    obtain hold | ⟨hmem, hjti⟩ := recalled_complete htoken
    · exact h.fetched jtis hjtis token hold
    · obtain hin | hdead := hok q jtis hi hjtis
      · rw [hjti]
        exact .inl hin
      · exact .inr (hdead token hmem hjti)

theorem revocationRefreshLoop_frame {e : LoopEvent} (h : s.revocationRefreshLoop e = some t) :
    t =
      { s with
        revokedTokens := t.revokedTokens
        revokedJtis := t.revokedJtis
        loop := t.loop
        cycle := t.cycle } := by
  cases e <;> simp only [revocationRefreshLoop] at h <;> split at h <;> cases h <;> rfl

theorem kept_loop {e : LoopEvent} (h : s.Kept) (hok : s.Covered (.loop e))
    (hstep : s.revocationRefreshLoop e = some t) : t.Kept := by
  cases e with
  | fetch =>
    simp only [revocationRefreshLoop] at hstep
    split at hstep
    · cases hstep
      refine ⟨h.issued, h.cached, fun jtis hjtis token htoken => ?_⟩
      cases hjtis
      exact (hok token htoken).imp_left mem_unexpiredJtis
    · cases hstep
  | replace =>
    simp only [revocationRefreshLoop] at hstep
    split at hstep
    · rename_i jtis hjtis
      cases hstep
      refine ⟨h.issued, h.fetched jtis hjtis, fun jtis' hjtis' => ?_⟩
      have hloop : (if s.cycle % 10 = 0 then Loop.replaced else .asleep) = .fetched jtis' := hjtis'
      split at hloop
      · cases hloop
      · cases hloop
    · cases hstep
  | clean =>
    simp only [revocationRefreshLoop] at hstep
    split at hstep
    · cases hstep
      exact ⟨h.issued, h.cached, fun _ hjtis => by cases hjtis⟩
    · cases hstep
  | fail =>
    simp only [revocationRefreshLoop] at hstep
    split at hstep
    · cases hstep
      exact ⟨h.issued, h.cached, h.fetched⟩
    · cases hstep
      exact ⟨h.issued, h.cached, fun _ hjtis => by cases hjtis⟩
    · cases hstep

theorem outcome_eq_completed {call : Option Revoke} {q : RevokeRequest} {issued : List Token} :
    Revoke.outcome call = some (.completed q issued) ↔ call = some (.completed q issued) := by
  unfold Revoke.outcome
  split <;> simp_all

theorem recalled_restarted : s.restarted.Recalled token ↔ s.Recalled token := by
  simp only [Recalled, restarted, outcome_eq_completed]

theorem kept_restarted (hissued : ∀ token, s.Recalled token → token ∈ s.issued)
    (hok : ∀ token, s.Recalled token → s.Lists token ∨ s.Dead token) : s.restarted.Kept where
  issued token htoken := hissued token (recalled_restarted.mp htoken)
  cached token htoken := (hok token (recalled_restarted.mp htoken)).imp_left mem_unexpiredJtis
  fetched jtis hjtis := by cases hjtis

theorem kept_step (h : s.Kept) (hok : s.Covered e) (hstep : machine.step s e = some t) : t.Kept := by
  cases e with
  | tick now =>
    obtain ⟨hle, ⟨⟩⟩ := Option.ite_none_right_eq_some.mp hstep
    exact Quiet.kept ⟨hle, fun _ htoken => htoken, rfl, fun _ hjtis => hjtis, fun _ _ _ hi => hi⟩ h
  | issue token =>
    cases hstep
    exact ⟨fun token htoken => List.mem_cons_of_mem _ (h.issued token htoken), h.cached, h.fetched⟩
  | refresh i e => exact (quiet_refresh hstep).kept h
  | revoke i e =>
    by_cases he : e = .complete
    · subst he
      exact kept_complete h hok hstep
    · exact (quiet_revoke hstep he).kept h
  | loop e => exact kept_loop h hok hstep
  | restart =>
    cases hstep
    exact kept_restarted h.issued hok

theorem kept_started (now : ℤ) (issued : List Token) (agentTokens : List AgentToken)
    (revokedTokens : List RevokeRequest) : (started now issued agentTokens revokedTokens).Kept := by
  have hnone : ∀ token, ¬Recalled { now, issued, agentTokens, revokedTokens } token := by
    rintro token ⟨i, _, _, hi, _⟩
    cases hi
  exact kept_restarted (fun token htoken => absurd htoken (hnone token)) fun token htoken =>
    absurd htoken (hnone token)

theorem kept_of_reachable (h : machine.ReachableIf Covered s) : s.Kept := by
  refine h.invariant ?_ fun _ _ _ hs hok hstep => kept_step hs hok hstep
  rintro _ ⟨now, issued, agentTokens, revokedTokens, rfl⟩
  exact kept_started now issued agentTokens revokedTokens

/-- In every run whose reloads are covered, a token is not accepted once its revocation has completed. -/
theorem recalled_refused (h : machine.ReachableIf Covered s) : s.Effective :=
  (kept_of_reachable h).effective

def apiToken : Token where
  jti := 0
  sub := 7
  exp := 3600

def stopRequest : RevokeRequest where
  jti := 0
  agentId := 7
  expiresAt := 3600

def service : Akm := started 0 [apiToken] [] []

def stop : List Event :=
  [.revoke 0 (.ask stopRequest), .revoke 0 .record, .revoke 0 .withdraw, .revoke 0 .complete]

/-- The revocation runs between the query of a reload and its assignment. -/
def acrossReload : List Event := .loop .fetch :: stop ++ [.loop .replace]

/-- The token has expired when the next reload runs, and is accepted for the rest of its leeway. -/
def withinLeeway : List Event := stop ++ [.tick (micros 3610), .loop .fetch, .loop .replace]

theorem not_effective_after (events : List Event) (hrun : (machine.exec service events).isSome = true)
    (hrevoke : (machine.after service events).revokes 0 = some (.completed stopRequest [apiToken]))
    (haccepted : (machine.after service events).verifyAgentToken apiToken false = true) :
    ¬∀ s, machine.Reachable s → s.Effective := by
  intro h
  have hreach : machine.Reachable (machine.after service events) :=
    ⟨service, events, ⟨0, [apiToken], [], [], rfl⟩, Machine.run_after hrun⟩
  have hrefused := h _ hreach apiToken ⟨0, _, _, hrevoke, List.mem_cons_self, rfl⟩
  rw [haccepted] at hrefused
  cases hrefused

theorem recalled_accepted_acrossReload : ¬∀ s, machine.Reachable s → s.Effective :=
  not_effective_after acrossReload (by decide) (by decide) (by decide)

theorem recalled_accepted_withinLeeway : ¬∀ s, machine.Reachable s → s.Effective :=
  not_effective_after withinLeeway (by decide) (by decide) (by decide)

/-- A reload while the token lives, and one when it is too old. -/
def reloads : List Event :=
  stop ++ [.loop .fetch, .loop .replace, .tick (micros 3630), .loop .fetch, .loop .replace]

theorem recalled_refused_reloads : (machine.after service reloads).Effective := by
  refine recalled_refused (Machine.reachableIf_of_accepts (C := fun s e => match e with
    | .loop .fetch => s.issued.all fun token => decide (token.jti ∈ s.unexpiredJtis) ||
        decide (s.Dead token)
    | .restart => false
    | .revoke _ .complete => decide (s.loop = .asleep)
    | _ => true) ?_ ⟨0, [apiToken], [], [], rfl⟩ (by decide))
  intro s e hreach hcheck
  cases e with
  | loop e =>
    cases e with
    | fetch =>
      intro token htoken
      have hall := List.all_eq_true.mp hcheck token ((kept_of_reachable hreach).issued token htoken)
      obtain hlisted | hdead := (Bool.or_eq_true _ _).mp hall
      · obtain ⟨row, hrow, hjti⟩ := List.mem_map.mp (of_decide_eq_true hlisted)
        obtain ⟨hrow, hnow⟩ := List.mem_filter.mp hrow
        exact .inl ⟨row, hrow, hjti, of_decide_eq_true hnow⟩
      · exact .inr (of_decide_eq_true hdead)
    | _ => exact trivial
  | restart => cases hcheck
  | revoke i e =>
    cases e with
    | complete =>
      intro q jtis _ hjtis
      have hasleep : s.loop = .asleep := by simpa using hcheck
      cases hasleep.symm.trans hjtis
    | _ => exact trivial
  | _ => exact trivial

end Hill90.Knowledge.Revocation
