import Hill90.Foundation.Serial
import Hill90.Router.Conduct

/-! # How long a revocation lasts

A token is accepted for some seconds after its `exp`; its row on the denylist goes at `expires_at`.
A cleanup in between lets a revoked token in again.
-/

namespace Hill90.Router

open Program

/-- The `jti` is on the denylist and in the set, or the token is refused for its age. -/
def Barred (p : Payload) (s : Store) : Prop :=
  p.exp + clockSkewSeconds ≤ s.now ∨
    p.jti ∈ s.revokedJtis ∧ ∃ r ∈ s.revokedTokens.rows, r.jti = p.jti

/-- A preload or a cleanup does not come between the expiry of the stored row and the time from
which the token is refused for its age. -/
def Spares (p : Payload) (s : Store) : Call Choice Failure Request Surroundings → Prop
  | .request .preload _ | .request .cleanup _ =>
    p.exp + clockSkewSeconds ≤ s.now ∨
      ∀ r ∈ s.revokedTokens.rows, r.jti = p.jti → ⌊s.now⌋ < r.expiresAt
  | _ => True

variable {cfg : Config} {p : Payload} {s s' t : Store} {good : Statement → Prop}

/-- What takes something off the denylist or out of the set. -/
def Statement.forgets : Statement → Bool
  | deleteExpired _ | replaceRevoked _ => true
  | _ => false

structure Grows (s s' : Store) : Prop where
  now : s'.now = s.now
  rows : ∀ r ∈ s.revokedTokens.rows, r ∈ s'.revokedTokens.rows
  cache : ∀ jti ∈ s.revokedJtis, jti ∈ s'.revokedJtis

theorem grows_refl (s : Store) : Grows s s := ⟨rfl, fun _ h => h, fun _ h => h⟩

theorem Grows.barred (h : Grows s s') (hs : Barred p s) : Barred p s' := by
  obtain hold | ⟨hcache, r, hr, hjti⟩ := hs
  · exact .inl (by rw [h.now]; exact hold)
  · exact .inr ⟨h.cache _ hcache, r, h.rows r hr, hjti⟩

theorem grows_run {c : Choice} {st : Statement} (hst : st.forgets = false) {rows : st.Rows}
    (h : Statement.run s c st = .ok (rows, s')) : Grows s s' := by
  cases st with
  | deleteExpired | replaceRevoked => cases hst
  | insertRevoked r =>
    cases h
    refine ⟨rfl, fun r' hr' => ?_, fun _ h => h⟩
    cases hins : s.revokedTokens.insert r with
    | none => exact hr'
    | some t =>
      change r' ∈ t.rows
      exact (Table.mem_of_insert hins).mpr (.inl hr')
  | addRevoked jti =>
    cases h
    exact ⟨rfl, fun _ h => h, fun _ h => List.mem_cons_of_mem _ h⟩
  | insertDelegation d =>
    simp only [Statement.run] at h
    split at h
    · cases h
      exact ⟨rfl, fun _ h => h, fun _ h => h⟩
    · cases h
  | _ =>
    cases h
    exact ⟨rfl, fun _ h => h, fun _ h => h⟩

theorem grows_admitted {st : Statement} {answer : Option st.Rows} (hst : st.forgets = false)
    (h : Admitted Statement.run good s st answer s') : Grows s s' := by
  cases h with
  | answered heff => exact grows_run hst heff
  | failed _ => exact grows_refl s
  | lost _ heff => exact grows_run hst heff

theorem keeps_barred {α : Type} {h : Handler α} (hh : Only (fun st => st.forgets = false) h) :
    Keeps (Admitted Statement.run good) (Barred p) h :=
  hh.keeps fun _ _ _ _ ht hst hstep => (grows_admitted hst hstep).barred ht

theorem remembers_enforces {st : Statement} (h : st.enforces = true) : st.forgets = false := by
  cases st <;> first | rfl | cases h

theorem remembers_resolves {st : Statement} (h : st.resolves = true) : st.forgets = false := by
  cases st <;> first | rfl | cases h

theorem remembers_forwards (r : Resolved) (st : Statement) (h : st.Forwards r) : st.forgets = false := by
  obtain h | ⟨_, _, rfl⟩ | ⟨_, rfl⟩ := h
  · cases st <;> first | rfl | cases h
  · rfl
  · rfl

theorem remembers_delegates {st : Statement} (h : st.delegates = true) : st.forgets = false := by
  cases st <;> first | rfl | cases h

theorem remembers_revokes {st : Statement} (h : st.revokes = true) : st.forgets = false := by
  cases st <;> first | rfl | cases h

theorem only_remembers (q : Request) (hq : q ≠ .preload ∧ q ≠ .cleanup) :
    Only (fun st => st.forgets = false) (q.handler cfg) := by
  cases q with
  | chat req =>
    exact only_chatCompletions cfg req (fun _ => remembers_enforces) (fun _ => remembers_resolves)
      remembers_forwards
  | embeddings req =>
    exact only_embeddings cfg req (fun _ => remembers_enforces) (fun _ => remembers_resolves)
      remembers_forwards
  | delegate identity body =>
    exact only_createDelegation cfg identity body (fun _ => remembers_enforces)
      fun _ => remembers_delegates
  | revokeDelegation identity id =>
    exact only_revokeDelegation identity id fun _ => remembers_revokes
  | revoke r => exact only_bind (only_revoke r fun _ => remembers_revokes) fun _ => only_pure _
  | preload => exact absurd rfl hq.1
  | cleanup => exact absurd rfl hq.2

/-- The token is barred at this time, by a row that is not selected away. -/
def Held (p : Payload) (now : ℚ) (s : Store) : Prop :=
  s.now = now ∧ (p.exp + clockSkewSeconds ≤ now ∨
    p.jti ∈ s.revokedJtis ∧ ∃ r ∈ s.revokedTokens.rows, r.jti = p.jti ∧ ⌊now⌋ < r.expiresAt)

theorem Held.barred {now : ℚ} (h : Held p now s) : Barred p s := by
  obtain ⟨rfl, hold | ⟨hcache, r, hr, hjti, _⟩⟩ := h
  · exact .inl hold
  · exact .inr ⟨hcache, r, hr, hjti⟩

theorem held_of_grows {now : ℚ} (h : Grows s s') (hs : Held p now s) : Held p now s' := by
  obtain ⟨hnow, hold | ⟨hcache, r, hr, hjti, hlt⟩⟩ := hs
  · exact ⟨h.now.trans hnow, .inl hold⟩
  · exact ⟨h.now.trans hnow, .inr ⟨h.cache _ hcache, r, h.rows r hr, hjti, hlt⟩⟩

theorem held_select {now : ℚ} (hs : Held p now s) {f : List String → Handler Response}
    {Q : Response → Store → Prop} {E : Failure → Store → Prop}
    (hf : ∀ jtis s', Held p now s' → (p.exp + clockSkewSeconds ≤ now ∨ p.jti ∈ jtis) →
      Always (Admitted Statement.run good) (f jtis) Q E s')
    (hE : ∀ e s', Held p now s' → E e s') :
    Always (Admitted Statement.run good) (ask (.selectUnexpired ⌊now⌋) >>= f) Q E s := by
  refine ⟨fun rows s' h => ?_, fun e s' h => hE e s' (held_of_grows (grows_admitted rfl h) hs)⟩
  refine hf rows s' (held_of_grows (grows_admitted rfl h) hs) ?_
  cases h with
  | answered heff =>
    cases heff
    obtain ⟨_, hold | ⟨_, r, hr, hjti, hlt⟩⟩ := hs
    · exact .inl hold
    · right
      rw [← hjti]
      exact List.mem_map_of_mem (List.mem_filter.mpr ⟨hr, decide_eq_true hlt⟩)

theorem held_replace {now : ℚ} (hs : Held p now s) {jtis : List String}
    (hjtis : p.exp + clockSkewSeconds ≤ now ∨ p.jti ∈ jtis) :
    Always (Admitted Statement.run good) (ask (.replaceRevoked jtis))
      (fun _ => Barred p) (fun _ => Barred p) s := by
  have hreplaced : Barred p { s with revokedJtis := jtis } := by
    obtain ⟨hnow, hold⟩ := hs
    obtain hage | hmem := hjtis
    · exact .inl (by rw [← hnow] at hage; exact hage)
    · obtain hage | ⟨_, r, hr, hjti, _⟩ := hold
      · exact .inl (by rw [← hnow] at hage; exact hage)
      · exact .inr ⟨hmem, r, hr, hjti⟩
  refine ⟨fun rows s' h => ?_, fun e s' h => ?_⟩
  · cases h with
    | answered heff =>
      cases heff
      exact hreplaced
  · cases h with
    | failed _ => exact hs.barred
    | lost _ heff =>
      cases heff
      exact hreplaced

theorem held_delete {now : ℚ} (hs : Held p now s)
    {answer : Option (Statement.deleteExpired ⌊now⌋).Rows}
    (h : Admitted Statement.run good s (.deleteExpired ⌊now⌋) answer s') : Held p now s' := by
  have hdeleted : Held p now
      { s with revokedTokens := s.revokedTokens.delete fun r => r.expiresAt ≤ ⌊now⌋ } := by
    obtain ⟨hnow, hold | ⟨hcache, r, hr, hjti, hlt⟩⟩ := hs
    · exact ⟨hnow, .inl hold⟩
    · refine ⟨hnow, .inr ⟨hcache, r, Table.mem_delete.mpr ⟨hr, ?_⟩, hjti, hlt⟩⟩
      simpa using hlt
  cases h with
  | answered heff =>
    cases heff
    exact hdeleted
  | failed _ => exact hs
  | lost _ heff =>
    cases heff
    exact hdeleted

theorem barred_of_refresh (hs : Held p s.now s) (q : Request) (hq : q = .preload ∨ q = .cleanup) :
    Always (Admitted Statement.run good) (q.handler cfg) (fun _ => Barred p) (fun _ => Barred p) s := by
  have hrest : ∀ s', Held p s.now s' → Always (Admitted Statement.run good)
      (ask (.selectUnexpired ⌊s.now⌋) >>= fun jtis => ask (.replaceRevoked jtis) >>= fun _ =>
        (pure .done : Handler Response)) (fun _ => Barred p) (fun _ => Barred p) s' := by
    intro s' hs'
    refine held_select hs' (fun jtis u hu hjtis => ?_) fun e u hu => hu.barred
    exact always_then (fun _ => Barred p) (held_replace hu hjtis) fun _ _ h => h
  obtain rfl | rfl := hq
  · refine ⟨fun now s' h => ?_, fun e s' h => (held_of_grows (grows_admitted rfl h) hs).barred⟩
    have hheld := held_of_grows (grows_admitted rfl h) hs
    cases h with
    | answered heff =>
      cases heff
      exact hrest s hheld
  · refine ⟨fun now s' h => ?_, fun e s' h => (held_of_grows (grows_admitted rfl h) hs).barred⟩
    have hheld := held_of_grows (grows_admitted rfl h) hs
    cases h with
    | answered heff =>
      cases heff
      exact ⟨fun _ u hu => hrest u (held_delete hheld hu), fun _ u hu => (held_delete hheld hu).barred⟩

theorem barred_of_step {rest : Choice} {call : Call Choice Failure Request Surroundings}
    (hs : Barred p s) (hok : Spares p s call) (h : ((service cfg).serial rest).step s call = some t) :
    Barred p t := by
  cases call with
  | environment x =>
    cases x with
    | tick d =>
      change (if 0 ≤ d then some { s with now := s.now + d } else none) = some t at h
      split at h
      · rename_i hd
        cases h
        obtain hold | hrest := hs
        · exact .inl (le_trans hold (le_add_of_nonneg_right hd))
        · exact .inr hrest
      · cases h
    | rewrite policies catalog owners =>
      cases h
      exact hs
  | request q pattern =>
    cases h
    have halways : (q.handler cfg).Always (Admitted Statement.run fun _ => True)
        (fun _ => Barred p) (fun _ => Barred p) s := by
      by_cases hq : q = .preload ∨ q = .cleanup
      · refine barred_of_refresh ⟨rfl, ?_⟩ q hq
        have hspares : p.exp + clockSkewSeconds ≤ s.now ∨
            ∀ r ∈ s.revokedTokens.rows, r.jti = p.jti → ⌊s.now⌋ < r.expiresAt := by
          obtain rfl | rfl := hq
          · exact hok
          · exact hok
        obtain hold | ⟨hcache, r, hr, hjti⟩ := hs
        · exact .inl hold
        · obtain hold | hlater := hspares
          · exact .inl hold
          · exact .inr ⟨hcache, r, hr, hjti, hlater r hr hjti⟩
      · exact keeps_barred (only_remembers q (not_or.mp hq)) s hs
    exact Service.serve_of_always (V := service cfg) halways fun _ _ => trivial

theorem barred_of_run {rest : Choice} {calls : List (Call Choice Failure Request Surroundings)}
    (hs : Barred p s) (h : ((service cfg).serial rest).RunIf (Spares p) s calls t) : Barred p t := by
  induction h with
  | nil s => exact hs
  | cons allowed move _ ih => exact ih (barred_of_step hs allowed move)

variable (cfg) in
theorem barred_of_revoke (agentId : String) (expiresAt : ℤ) :
    Always (Admitted Statement.run good) (Request.handler cfg (.revoke ⟨p.jti, agentId, expiresAt⟩))
      (fun _ => Barred p) (fun _ _ => True) s := by
  refine ⟨fun _ s₁ h₁ => ⟨fun _ s₂ h₂ => ?_, fun _ _ _ => trivial⟩, fun _ _ _ => trivial⟩
  cases h₁ with
  | answered heff₁ =>
    cases heff₁
    cases h₂ with
    | answered heff₂ =>
      cases heff₂
      refine .inr ⟨List.mem_cons_self, ?_⟩
      cases hins : s.revokedTokens.insert ⟨p.jti, agentId, expiresAt⟩ with
      | some rows => exact ⟨_, (Table.mem_of_insert hins).mpr (.inr rfl), rfl⟩
      | none =>
        unfold Table.insert at hins
        split at hins
        · rename_i htaken
          obtain ⟨r, hr, hjti⟩ := List.mem_map.mp htaken
          exact ⟨r, hr, hjti⟩
        · cases hins

theorem refused_of_barred {τ : Type} {D : Decoder τ} {token : τ} {now : ℚ}
    (hp : D.decode token now = .ok p) (hs : Barred p s) (q : Payload) :
    verifyModelRouterToken D token s.now s.revokedJtis ≠ .ok q := by
  intro hq
  obtain ⟨hdecode, hjti⟩ := verify_eq_ok hq
  cases D.same _ _ _ _ _ hp hdecode
  obtain hold | ⟨hcache, _⟩ := hs
  · have hlt := D.unexpired _ _ _ hdecode
    linarith
  · exact hjti hcache

/-- Once a token has been revoked it is never accepted again, in every run in which no preload and
no cleanup comes between the expiry of its row and the end of the leeway on its `exp`. -/
theorem revocation_lasts {τ : Type} {D : Decoder τ} {token : τ} {now : ℚ} {agentId : String}
    {rest : Choice} {pattern : List (Outcome Choice Failure)}
    {calls : List (Call Choice Failure Request Surroundings)} (hp : D.decode token now = .ok p)
    (hrevoked : ((service cfg).serve rest s (.revoke ⟨p.jti, agentId, p.exp⟩) pattern).2 = .ok .done)
    (hrun : ((service cfg).serial rest).RunIf (Spares p)
      ((service cfg).serve rest s (.revoke ⟨p.jti, agentId, p.exp⟩) pattern).1.store calls t)
    (q : Payload) : verifyModelRouterToken D token t.now t.revokedJtis ≠ .ok q := by
  have hrevoke : ((service cfg).handler (.revoke ⟨p.jti, agentId, p.exp⟩)).Always
      (Admitted (service cfg).run fun _ => True) (fun _ => Barred p) (fun _ _ => True) s :=
    barred_of_revoke cfg agentId p.exp
  have hended : Ended (fun _ (l : Log Statement Statement.Rows Store) => Barred p l.store)
      (fun _ _ => True) ((service cfg).serve rest s (.revoke ⟨p.jti, agentId, p.exp⟩) pattern) :=
    Service.ended_of_serve hrevoke fun _ _ => trivial
  revert hended hrun hrevoked
  generalize (service cfg).serve rest s (.revoke ⟨p.jti, agentId, p.exp⟩) pattern = ending
  obtain ⟨u, result⟩ := ending
  rintro rfl hrun hbarred
  exact refused_of_barred hp (barred_of_run hbarred hrun) q

def plainDecoder : Decoder Payload where
  decode p now :=
    if (p.exp : ℚ) ≤ now - clockSkewSeconds then .error .expiredSignature
    else if p.iss ≠ expectedIssuer then .error .invalidIssuer
    else if p.aud ≠ expectedAudience then .error .invalidAudience
    else .ok p
  unexpired p now q h := by
    split_ifs at h with hold
    cases h
    exact not_le.mp hold
  same p now now' q q' h h' := by
    split_ifs at h h'
    cases h
    cases h'
    rfl

def hourToken : Payload := { sub := "scout", exp := 3600, iat := 0, jti := "a1" }

def hourRevoked : Store :=
  ((service unkeyed).serve {} blank (.revoke ⟨"a1", "scout", 3600⟩) []).1.store

/-- A cleanup before the token expires, and another when its leeway is over. -/
def tidyCalls : List (Call Choice Failure Request Surroundings) :=
  [.environment (.tick 1800), .request .cleanup [], .environment (.tick 1830), .request .cleanup []]

def tidyStore : Store := ((service unkeyed).serial {}).after hourRevoked tidyCalls

theorem revocation_lasts_tidy :
    verifyModelRouterToken plainDecoder hourToken tidyStore.now tidyStore.revokedJtis ≠
      .ok hourToken := by
  have hrun : ((service unkeyed).serial {}).RunIf (Spares hourToken) hourRevoked tidyCalls tidyStore := by
    refine .cons trivial rfl (.cons (.inr ?_) rfl (.cons trivial rfl (.cons (.inl ?_) rfl (.nil _))))
    · decide +kernel
    · decide +kernel
  exact revocation_lasts (t := tidyStore) (p := hourToken)
    (show plainDecoder.decode hourToken 0 = .ok hourToken by decide +kernel)
    (by decide +kernel) hrun hourToken

/-- A cleanup at the second a revoked token expires lets the token in for the rest of the leeway. -/
theorem cleanup_readmits :
    ¬∀ {τ : Type} (D : Decoder τ) (token : τ) (p : Payload) (now : ℚ), D.decode token now = .ok p →
      ∀ (cfg : Config) (s t : Store) (agentId : String)
        (calls : List (Call Choice Failure Request Surroundings)),
        ((service cfg).serve {} s (.revoke ⟨p.jti, agentId, p.exp⟩) []).2 = .ok .done →
        ((service cfg).serial {}).Run
          ((service cfg).serve {} s (.revoke ⟨p.jti, agentId, p.exp⟩) []).1.store calls t →
        ∀ q, verifyModelRouterToken D token t.now t.revokedJtis ≠ .ok q := by
  intro h
  refine h plainDecoder hourToken hourToken 0 (by decide +kernel) unkeyed blank _ "scout"
    [.environment (.tick 3600), .request .cleanup []] (by decide +kernel)
    (Machine.run_after (by decide +kernel)) hourToken (by decide +kernel)

end Hill90.Router
