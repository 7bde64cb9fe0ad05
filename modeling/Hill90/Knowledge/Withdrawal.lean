import Hill90.Knowledge.Revocation

/-! # Stopping an agent

What is left of an agent's tokens and refresh secrets once the API has revoked the one token it knows.
An agent may go by two names, its slug and its UUID; `owner` tells whose name it is.
-/

namespace Hill90.Knowledge.Revocation

open Akm

def Akm.exchanges (s : Akm) (token : Token) (secret : ℕ) : Bool :=
  s.verifyAgentToken token true &&
    (s.agentTokens.find? (·.holds secret token.sub)).any fun row => !decide (micros row.expiresAt < s.now)

def Akm.Withdrew (s : Akm) (q : RevokeRequest) : Prop :=
  ∃ i, s.revokes i = some (.withdrawn q) ∨ ∃ issued, s.revokes i = some (.completed q issued)

/-- After a revocation of the agent has completed, no token issued to it before is accepted, and no
refresh secret of it can be exchanged. -/
def Akm.Complete (owner : ℕ → ℕ) (s : Akm) : Prop :=
  ∀ i q issued, s.revokes i = some (.completed q issued) →
    (∀ token ∈ issued, owner token.sub = owner q.agentId → s.verifyAgentToken token false = false) ∧
      ∀ token secret, owner token.sub = owner q.agentId → s.exchanges token secret = false

/-- The reloads are covered; no refresh stores its secret once a revocation of the agent has run its
update; that update gives the name under which the agent's live secrets are stored; and when the
revocation completes, each token issued to the agent is the one it names, or too old, or revoked. -/
def Akm.Told (owner : ℕ → ℕ) (s : Akm) (e : Event) : Prop :=
  s.Covered e ∧
    match e with
    | .refresh i .store => ∀ newToken newSecret, s.refreshes i = some (.signed newToken newSecret) →
        ∀ q, s.Withdrew q → owner newToken.sub ≠ owner q.agentId
    | .revoke i .withdraw => ∀ q, s.revokes i = some (.recorded q) →
        ∀ row ∈ s.agentTokens, owner row.agentId = owner q.agentId →
          row.revoked = true ∨ row.agentId = q.agentId
    | .revoke i .complete => ∀ q, s.revokes i = some (.withdrawn q) →
        ∀ token ∈ s.issued, owner token.sub = owner q.agentId →
          token.jti = q.jti ∨ s.Dead token ∨ s.Recalled token
    | _ => True

/-- The refresh secrets of an agent that a revocation has reached are dead. -/
def Akm.Emptied (owner : ℕ → ℕ) (s : Akm) : Prop :=
  ∀ q, s.Withdrew q → ∀ row ∈ s.agentTokens, owner row.agentId = owner q.agentId → row.revoked = true

def Akm.Named (owner : ℕ → ℕ) (s : Akm) : Prop :=
  ∀ i q issued, s.revokes i = some (.completed q issued) →
    ∀ token ∈ issued, owner token.sub = owner q.agentId → s.Dead token ∨ s.Recalled token

variable {owner : ℕ → ℕ} {s t : Akm} {i : ℕ} {e : Event}

/-- These are the checks of a refresh that nothing interrupts. -/
theorem exchanges_iff {token : Token} {secret newJti newSecret : ℕ} (hfree : s.refreshes i = none)
    (hissued : token ∈ s.issued) :
    s.exchanges token secret = true ↔ ∃ t newToken,
      machine.exec s [.refresh i (.present token secret), .refresh i .redeem,
        .refresh i (.sign newJti newSecret)] = some t ∧
      t.refreshes i = some (.signed newToken newSecret) := by
  have hpresent : machine.step s (.refresh i (.present token secret)) = some (s.setRefresh i
      (if s.verifyAgentToken token true then some (.verified token.sub secret) else none)) :=
    if_pos ⟨hfree, hissued⟩
  simp only [Machine.exec, hpresent, Option.bind_some]
  cases hverified : s.verifyAgentToken token true with
  | false => simp [exchanges, hverified, machine, Akm.step, refreshToken, setRefresh]
  | true =>
    cases hfound : s.agentTokens.find? (·.holds secret token.sub) with
    | none => simp [exchanges, hverified, hfound, machine, Akm.step, refreshToken, setRefresh]
    | some row =>
      by_cases hexpired : micros row.expiresAt < s.now
      · simp [exchanges, hverified, hfound, hexpired, machine, Akm.step, refreshToken, setRefresh]
      · simp [exchanges, hverified, hfound, hexpired, machine, Akm.step, refreshToken, setRefresh]

theorem emptied_iff : s.Emptied owner ↔ ∀ q, s.Withdrew q → ∀ row ∈ s.agentTokens,
    owner row.agentId = owner q.agentId → row.revoked ≠ false := by
  simp only [Emptied, ne_eq, Bool.not_eq_false]

theorem exchanges_eq_false {token : Token} (h : s.Emptied owner) {q : RevokeRequest}
    (hq : s.Withdrew q) (howner : owner token.sub = owner q.agentId) (secret : ℕ) :
    s.exchanges token secret = false := by
  have hnone : s.agentTokens.find? (·.holds secret token.sub) = none := by
    refine List.find?_eq_none.mpr fun row hrow hholds => ?_
    simp only [AgentToken.holds, Bool.and_eq_true, decide_eq_true_eq, Bool.not_eq_true'] at hholds
    obtain ⟨⟨_, hsub⟩, hlive⟩ := hholds
    exact emptied_iff.mp h q hq row hrow (by rw [hsub, howner]) hlive
  rw [exchanges, hnone]
  exact Bool.and_false _

theorem complete_of_invariants (hkept : s.Kept) (hemptied : s.Emptied owner) (hnamed : s.Named owner) :
    s.Complete owner := by
  intro i q issued hi
  refine ⟨fun token htoken howner => ?_, fun token secret howner => ?_⟩
  · refine verify_eq_false_iff.mpr ?_
    obtain hdead | hrecalled := hnamed i q issued hi token htoken howner
    · exact .inr hdead
    · exact hkept.cached token hrecalled
  · exact exchanges_eq_false hemptied ⟨i, .inr ⟨issued, hi⟩⟩ howner secret

theorem named_mono (h : s.Named owner) (hnow : s.now ≤ t.now)
    (hcompleted : ∀ i q issued,
      t.revokes i = some (.completed q issued) ↔ s.revokes i = some (.completed q issued)) :
    t.Named owner := by
  intro i q issued hi token htoken howner
  obtain hdead | ⟨j, q', issued', hj, hrest⟩ :=
    h i q issued ((hcompleted i q issued).mp hi) token htoken howner
  · exact .inl (le_trans hdead hnow)
  · exact .inr ⟨j, q', issued', (hcompleted j q' issued').mpr hj, hrest⟩

theorem emptied_mono (h : s.Emptied owner) (hwithdrew : ∀ q, t.Withdrew q → s.Withdrew q)
    (hrows : ∀ row ∈ t.agentTokens, row.revoked = false → row ∈ s.agentTokens) : t.Emptied owner := by
  rw [emptied_iff] at h ⊢
  intro q hq row hrow howner hlive
  exact h q (hwithdrew q hq) row (hrows row hrow hlive) howner hlive

theorem completed_setRevoke {new : Option Revoke} (hi : ∀ q issued, s.revokes i ≠ some (.completed q issued))
    (hnew : ∀ q issued, new ≠ some (.completed q issued)) (j : ℕ) (q : RevokeRequest)
    (issued : List Token) :
    (s.setRevoke i new).revokes j = some (.completed q issued) ↔
      s.revokes j = some (.completed q issued) := by
  rw [revokes_setRevoke]
  split
  · rename_i hji
    subst hji
    exact iff_of_false (hnew q issued) (hi q issued)
  · exact Iff.rfl

theorem withdrew_setRevoke {new : Option Revoke} {q : RevokeRequest}
    (h : (s.setRevoke i new).Withdrew q) :
    s.Withdrew q ∨ new = some (.withdrawn q) ∨ ∃ issued, new = some (.completed q issued) := by
  obtain ⟨j, hj⟩ := h
  rw [revokes_setRevoke] at hj
  split at hj
  · exact .inr hj
  · exact .inl ⟨j, hj⟩

theorem revokeToken_withdraw (h : s.revokeToken i .withdraw = some t) :
    ∃ q, s.revokes i = some (.recorded q) ∧
      t = { s.setRevoke i (some (.withdrawn q)) with
        agentTokens := setRevoked (·.agentId = q.agentId) s.agentTokens } := by
  simp only [revokeToken] at h
  split at h
  · rename_i q hi
    cases h
    exact ⟨q, hi, rfl⟩
  · cases h

theorem named_complete (h : s.Named owner) (hok : s.Told owner (.revoke i .complete))
    (hstep : s.revokeToken i .complete = some t) : t.Named owner := by
  obtain ⟨q, hi, rfl⟩ := revokeToken_complete hstep
  have hkeep : ∀ token, s.Recalled token → Recalled
      { s.setRevoke i (some (.completed q s.issued)) with revokedJtis := q.jti :: s.revokedJtis }
      token := by
    rintro token ⟨j, q', issued, hj, hrest⟩
    have hji : j ≠ i := by
      rintro rfl
      cases hi.symm.trans hj
    refine ⟨j, q', issued, ?_, hrest⟩
    change (s.setRevoke i _).revokes j = _
    rw [revokes_setRevoke, if_neg hji, hj]
  intro j q' issued hj token htoken howner
  have hj : (s.setRevoke i (some (.completed q s.issued))).revokes j = some (.completed q' issued) := hj
  rw [revokes_setRevoke] at hj
  split at hj
  · cases hj
    obtain hjti | hdead | hrecalled := hok.2 q hi token htoken howner
    · refine .inr ⟨i, q, s.issued, ?_, htoken, hjti⟩
      change (s.setRevoke i _).revokes i = _
      rw [revokes_setRevoke, if_pos rfl]
    · exact .inl hdead
    · exact .inr (hkeep token hrecalled)
  · exact (h j q' issued hj token htoken howner).imp_right (hkeep token)

theorem named_step (h : s.Named owner) (hok : s.Told owner e) (hstep : machine.step s e = some t) :
    t.Named owner := by
  cases e with
  | tick now =>
    obtain ⟨hle, ⟨⟩⟩ := Option.ite_none_right_eq_some.mp hstep
    exact named_mono h hle fun _ _ _ => Iff.rfl
  | issue token =>
    cases hstep
    exact h
  | refresh i e =>
    rw [(refreshToken_spec hstep).frame]
    exact h
  | revoke i e =>
    by_cases he : e = .complete
    · subst he
      exact named_complete h hok hstep
    · obtain ⟨new, _, _, rfl, hi, hnew, _⟩ := revokeToken_spec hstep he
      exact named_mono h le_rfl (completed_setRevoke hi hnew)
  | loop e =>
    rw [revocationRefreshLoop_frame hstep]
    exact h
  | restart =>
    cases hstep
    exact named_mono h le_rfl fun _ _ _ => outcome_eq_completed

theorem emptied_withdraw (h : s.Emptied owner) (hok : s.Told owner (.revoke i .withdraw))
    (hstep : s.revokeToken i .withdraw = some t) : t.Emptied owner := by
  obtain ⟨q, hi, rfl⟩ := revokeToken_withdraw hstep
  rw [emptied_iff] at h ⊢
  intro q' hq' row hrow howner hlive
  obtain ⟨hmem, hother⟩ := mem_setRevoked hrow hlive
  obtain hold | ⟨⟨⟩⟩ | ⟨_, ⟨⟩⟩ := withdrew_setRevoke (s := s) (i := i) hq'
  · exact h q' hold row hmem howner hlive
  · obtain hrevoked | hname := hok.2 q hi row hmem howner
    · rw [hrevoked] at hlive
      cases hlive
    · exact absurd hname (of_decide_eq_false hother)

theorem emptied_refresh {e : RefreshEvent} (h : s.Emptied owner) (hok : s.Told owner (.refresh i e))
    (hstep : s.refreshToken i e = some t) : t.Emptied owner := by
  obtain ⟨hframe, _, hrows⟩ := refreshToken_spec hstep
  have hrevokes : t.revokes = s.revokes := by rw [hframe]
  have hwithdrew : ∀ q, t.Withdrew q → s.Withdrew q := by
    intro q hq
    rwa [Withdrew, hrevokes] at hq
  rw [emptied_iff] at h ⊢
  intro q hq row hrow howner hlive
  obtain hold | ⟨rfl, newToken, newSecret, hi, hsub⟩ := hrows row hrow hlive
  · exact h q (hwithdrew q hq) row hold howner hlive
  · rw [hsub] at howner
    exact hok.2 newToken newSecret hi q (hwithdrew q hq) howner

theorem emptied_step (h : s.Emptied owner) (hok : s.Told owner e) (hstep : machine.step s e = some t) :
    t.Emptied owner := by
  cases e with
  | tick now =>
    obtain ⟨_, ⟨⟩⟩ := Option.ite_none_right_eq_some.mp hstep
    exact h
  | issue token =>
    cases hstep
    exact h
  | refresh i e => exact emptied_refresh h hok hstep
  | revoke i e =>
    by_cases hwithdraw : e = .withdraw
    · subst hwithdraw
      exact emptied_withdraw h hok hstep
    by_cases he : e = .complete
    · subst he
      obtain ⟨q, hi, rfl⟩ := revokeToken_complete hstep
      refine emptied_mono h (fun q' hq' => ?_) fun _ hrow _ => hrow
      obtain hold | ⟨⟨⟩⟩ | ⟨_, ⟨⟩⟩ := withdrew_setRevoke (s := s) (i := i) hq'
      · exact hold
      · exact ⟨i, .inl hi⟩
    · obtain ⟨new, _, _, rfl, _, hnew, hrest⟩ := revokeToken_spec hstep he
      obtain ⟨rfl, hnone⟩ := hrest.resolve_left hwithdraw
      refine emptied_mono h (fun q' hq' => ?_) fun _ hrow _ => hrow
      obtain hold | hq' | ⟨issued, hq'⟩ := withdrew_setRevoke (s := s) (i := i) hq'
      · exact hold
      · exact absurd hq' (hnone q')
      · exact absurd hq' (hnew q' issued)
  | loop e =>
    rw [revocationRefreshLoop_frame hstep]
    exact h
  | restart =>
    cases hstep
    refine emptied_mono h (fun q hq => ?_) fun _ hrow _ => hrow
    obtain ⟨i, hi | ⟨issued, hi⟩⟩ := hq
    · have hi : Revoke.outcome (s.revokes i) = some (.withdrawn q) := hi
      unfold Revoke.outcome at hi
      split at hi
      · cases hi
      · cases hi
    · exact ⟨i, .inr ⟨issued, outcome_eq_completed.mp hi⟩⟩

/-- In every run that is told of each token in time, the revocation of an agent is complete. -/
theorem withdrawal_complete (h : machine.ReachableIf (Told owner) s) : s.Complete owner := by
  have hkept : s.Kept := kept_of_reachable (h.weaken fun _ _ hok => hok.1)
  have hboth : s.Emptied owner ∧ s.Named owner := by
    refine h.invariant (I := fun s => s.Emptied owner ∧ s.Named owner) ?_ fun _ _ _ hs hok hstep =>
      ⟨emptied_step hs.1 hok hstep, named_step hs.2 hok hstep⟩
    rintro _ ⟨now, issued, agentTokens, revokedTokens, rfl⟩
    constructor
    · rintro q ⟨i, hi | ⟨_, hi⟩⟩
      · cases hi
      · cases hi
    · rintro i q issued hi
      cases hi
  exact complete_of_invariants hkept hboth.1 hboth.2

/-- Each name is the name of an agent of its own. -/
def ownName : ℕ → ℕ := id

def firstSecret : AgentToken where
  agentId := 7
  tokenHash := 0
  expiresAt := 3600

def provisioned : Akm := started 0 [apiToken] [firstSecret] []

/-- The agent refreshes its token, and is stopped. -/
def refreshThenStop : List Event :=
  [.refresh 0 (.present apiToken 0), .refresh 0 .redeem, .refresh 0 (.sign 1 1), .refresh 0 .store,
    .refresh 0 .answer] ++ stop

/-- The agent is stopped while its refresh is between its two statements. -/
def refreshAcrossStop : List Event :=
  [.refresh 0 (.present apiToken 0), .refresh 0 .redeem, .refresh 0 (.sign 1 1)] ++ stop ++
    [.refresh 0 .store, .refresh 0 .answer]

def refreshedToken : Token where
  jti := 1
  sub := 7
  exp := 3600

theorem reachable_after (events : List Event) (h : (machine.exec provisioned events).isSome = true) :
    machine.Reachable (machine.after provisioned events) :=
  ⟨provisioned, events, ⟨0, [apiToken], [firstSecret], [], rfl⟩, Machine.run_after h⟩

/-- The token of the refresh is accepted after the stop. -/
theorem not_complete_refreshThenStop : ¬∀ s, machine.Reachable s → s.Complete ownName := by
  intro h
  have hcomplete := h _ (reachable_after refreshThenStop (by decide)) 0 stopRequest
    [refreshedToken, apiToken] (by decide)
  have hrefused := hcomplete.1 refreshedToken List.mem_cons_self rfl
  revert hrefused
  decide

theorem not_complete_refreshAcrossStop : ¬∀ s, machine.Reachable s → s.Complete ownName := by
  intro h
  have hcomplete := h _ (reachable_after refreshAcrossStop (by decide)) 0 stopRequest [apiToken]
    (by decide)
  have hrefused := hcomplete.2 refreshedToken 1 rfl
  revert hrefused
  decide

/-- The agent refreshes its token long before it is stopped, by the name of its first token. -/
def refreshLongBefore : List Event :=
  [.refresh 0 (.present apiToken 0), .refresh 0 .redeem, .refresh 0 (.sign 1 1), .refresh 0 .store,
    .refresh 0 .answer, .tick (micros 3630)] ++ stop

theorem withdrawal_complete_refreshLongBefore :
    (machine.after provisioned refreshLongBefore).Complete ownName := by
  refine withdrawal_complete ⟨provisioned, refreshLongBefore, ⟨0, [apiToken], [firstSecret], [], rfl⟩, ?_⟩
  refine .cons ⟨trivial, trivial⟩ rfl (.cons ⟨trivial, trivial⟩ rfl (.cons ⟨trivial, trivial⟩ rfl ?_))
  refine .cons ⟨trivial, ?_⟩ rfl (.cons ⟨trivial, trivial⟩ rfl (.cons ⟨trivial, trivial⟩ rfl ?_))
  · -- no revocation has begun
    rintro _ _ _ q ⟨j, hj | ⟨_, hj⟩⟩
    · cases hj
    · cases hj
  refine .cons ⟨trivial, trivial⟩ rfl (.cons ⟨trivial, trivial⟩ rfl ?_)
  refine .cons ⟨trivial, ?_⟩ rfl (.cons ⟨?_, ?_⟩ rfl (.nil _))
  · rintro q ⟨⟩ row hrow _
    revert row
    decide
  · rintro q jtis _ ⟨⟩
  · rintro q ⟨⟩ token htoken _
    obtain rfl | htoken := List.mem_cons.mp htoken
    · exact .inr (.inl (by decide))
    · obtain rfl := List.mem_singleton.mp htoken
      exact .inl rfl

end Hill90.Knowledge.Revocation
