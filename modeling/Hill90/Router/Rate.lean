import Hill90.Foundation.Quota
import Hill90.Foundation.Window
import Hill90.Policies.Fallback
import Hill90.Router.Narrowing
import Hill90.Router.Revocation

/-! # How many requests a minute are forwarded

`check_rate_limit` counts the rows of requests that have ended.  Requests that have passed it and
are not logged yet are not counted, so the limit holds where they leave room for each other.
-/

namespace Hill90.Router

open Chat (Uuid)
open Policies (AgentPolicy)
open Program

def Statement.checks (agent : String) : Statement → Bool
  | countRequests a none => a = agent
  | _ => false

def Statement.sends (agent : String) : Statement → Bool
  | forward _ a _ | openStream a _ => a = agent
  | _ => false

def Plausible (policies : Policies.Store) : (st : Statement) → st.Rows → Prop
  | .selectAssigned a, rows => rows = (policies.assignedPolicy a).map Policies.Policy.extract
  | .selectDefault, rows => ∃ order, rows = (Policies.fetchrow order
      (policies.policies.filter fun p => p.name = "default")).map Policies.Policy.extract
  | _, _ => True

def HasLimit (s : Store) (agent : String) (limit : ℤ) : Prop :=
  ∀ policy, s.HasPolicy agent policy → policy.maxRequestsPerMinute = some limit

/-- A request is sent only in the mode that an answer below the limit leads to. -/
def checking (policies : Policies.Store) (agent : String) (limit : ℤ) :
    Discipline Statement Statement.Rows Failure Bool where
  may m st := st.sends agent = true → m = true
  returns := Plausible policies
  returned m st rows := match st, rows with
    | .countRequests a none, rows => if a = agent then decide ((rows.1 : ℤ) < limit) else m
    | .forward _ a _, _ | .openStream a _, _ => if a = agent then false else m
    | _, _ => m
  rejected m st _ := !(st.checks agent || st.sends agent) && m

section Modes

variable {cfg : Config} {s : Store} {agent : String} {limit : ℤ} {m : Bool}

theorem meets_unsent {α : Type} {policies : Policies.Store} {p : Handler α}
    (hp : Only (fun st => st.sends agent = false) p) :
    p.Meets (checking policies agent limit) (fun _ _ => True) (fun _ _ => True) m := by
  refine hp.meets_of_stable (P := fun _ => True) (fun m st _ hst => ⟨fun hsends => ?_, ?_, ?_⟩) trivial
  · rw [hst] at hsends
    cases hsends
  · exact fun _ => trivial
  · exact fun _ => trivial

theorem unsent_of_enforces {st : Statement} (h : st.enforces = true) : st.sends agent = false := by
  cases st <;> first | rfl | cases h

theorem unsent_of_resolves {st : Statement} (h : st.resolves = true) : st.sends agent = false := by
  cases st <;> first | rfl | cases h

theorem unsent_of_streams {st : Statement} (h : st.streams = true) : st.sends agent = false := by
  cases st <;> first | rfl | cases h

theorem unsent_of_delegates {st : Statement} (h : st.delegates = true) : st.sends agent = false := by
  cases st <;> first | rfl | cases h

theorem unsent_of_revokes {st : Statement} (h : st.revokes = true) : st.sends agent = false := by
  cases st <;> first | rfl | cases h

/-- A check that denies nothing leaves the mode in which the request may be sent. -/
def Clears (policies : Policies.Store) (agent : String) (limit : ℤ) (m : Bool)
    (check : Handler (Option Response)) : Prop :=
  check.Meets (checking policies agent limit) (fun denial m => denial = none → m = true)
    (fun _ _ => True) m

theorem clears_log {policies : Policies.Store} (row : Usage) (r : Response) :
    Clears policies agent limit m (logUsage row >>= fun _ => pure (some r)) := by
  refine meets_then (fun _ _ => True) (meets_unsent (only_logUsage rfl)) fun _ m _ h => ?_
  cases h

theorem clears_rate {policies : Policies.Store} (q : Attempt) (hq : q.agentId = agent)
    (message : String) : Clears policies agent limit m (enforceRate q (some limit) none message) := by
  refine ⟨(fun hsends => by cases hsends), fun rows _ => ?_, fun _ => trivial⟩
  refine meets_ite (fun hallowed _ => ?_) fun _ => clears_log _ _
  change (if q.agentId = agent then decide ((rows.1 : ℤ) < limit) else m) = true
  rw [if_pos hq]
  simpa using hallowed

theorem clears_budget {policies : Policies.Store} (q : Attempt) (maxTokens : Option ℤ)
    (scope : Option Uuid) (message : String) :
    Clears policies agent limit true (enforceBudget q maxTokens scope message) := by
  cases maxTokens with
  | none => exact fun _ => rfl
  | some n =>
    refine ⟨(fun hsends => by cases hsends), fun rows _ => ?_, fun _ => trivial⟩
    exact meets_ite (fun _ _ => rfl) fun _ => clears_log _ _

theorem clears_cons {policies : Policies.Store} {check : Handler (Option Response)}
    {checks : List (Handler (Option Response))} (hcheck : Clears policies agent limit m check)
    (hchecks : Clears policies agent limit true (firstDenial checks)) :
    Clears policies agent limit m (firstDenial (check :: checks)) := by
  refine meets_then _ hcheck fun denial m' hm' => ?_
  cases denial with
  | some r => exact fun h => by cases h
  | none =>
    rw [hm' rfl]
    exact hchecks

/-- A check that is followed by others need not clear by itself. -/
theorem clears_after {policies : Policies.Store} {check : Handler (Option Response)}
    {checks : List (Handler (Option Response))} (hcheck : Only (fun st => st.sends agent = false) check)
    (hchecks : ∀ m, Clears policies agent limit m (firstDenial checks)) :
    Clears policies agent limit m (firstDenial (check :: checks)) := by
  refine meets_then _ (meets_unsent hcheck) fun denial m' _ => ?_
  cases denial with
  | some r => exact fun h => by cases h
  | none => exact hchecks m'

theorem clears_agentChecks {policies : Policies.Store} (q : Attempt) (hq : q.agentId = agent)
    (policy : AgentPolicy) (hpolicy : policy.maxRequestsPerMinute = some limit) :
    Clears policies agent limit m (firstDenial (agentChecks q policy)) := by
  unfold agentChecks
  rw [hpolicy]
  exact clears_cons (clears_rate q hq _) (clears_cons (clears_budget q _ _ _) fun _ => rfl)

theorem clears_delegated {policies : Policies.Store} (q : Attempt) (hq : q.agentId = agent)
    (effective : EffectivePolicy) (policy : AgentPolicy)
    (hpolicy : policy.maxRequestsPerMinute = some limit) :
    Clears policies agent limit m (firstDenial (delegationChecks q effective ++ agentChecks q policy)) :=
  clears_after (only_enforceRate _ _ _ _ fun _ => unsent_of_enforces) fun _ =>
    clears_after (only_enforceBudget _ _ _ _ fun _ => unsent_of_enforces) fun _ =>
      clears_agentChecks q hq policy hpolicy

/-- What may be forwarded of this agent has passed the check. -/
def Cleared (agent sub : String) (enforced : Except Response Attempt) (m : Bool) : Prop :=
  ∀ q, enforced = .ok q → q.agentId = sub ∧ (sub = agent → m = true)

theorem cleared_decided {policies : Policies.Store} {q : Attempt} {checks : List (Handler (Option Response))}
    (honly : ∀ check ∈ checks, Only (fun st => st.enforces = true) check)
    (hchecks : q.agentId = agent → Clears policies agent limit m (firstDenial checks)) :
    (firstDenial checks >>= fun denial => (pure (decided q denial) : Handler _)).Meets
      (checking policies agent limit) (Cleared agent q.agentId) (fun _ _ => True) m := by
  by_cases hq : q.agentId = agent
  · refine meets_then _ (hchecks hq) fun denial m' hm' => ?_
    cases denial with
    | some r => exact fun q' hq' => by cases hq'
    | none =>
      intro q' hq'
      cases hq'
      exact ⟨rfl, fun _ => hm' rfl⟩
  · refine meets_then (fun _ _ => True) (meets_unsent (only_firstDenial fun check hcheck =>
      (honly check hcheck).mono fun _ => unsent_of_enforces)) fun denial m' _ => ?_
    cases denial with
    | some r => exact fun q' hq' => by cases hq'
    | none =>
      intro q' hq'
      cases hq'
      exact ⟨rfl, fun h => absurd h hq⟩

theorem meets_enforceDelegation {policies : Policies.Store} (q : Attempt) (policy : AgentPolicy)
    (id : Uuid) (hpolicy : q.agentId = agent → policy.maxRequestsPerMinute = some limit) :
    (enforceDelegation q policy id).Meets (checking policies agent limit) (Cleared agent q.agentId)
      (fun _ _ => True) m := by
  refine ⟨(fun hsends => by cases hsends), fun deleg _ => ?_, fun _ => trivial⟩
  cases deleg with
  | none => trivial
  | some d =>
    refine meets_ite (fun _ => trivial) fun _ => ?_
    refine ⟨(fun hsends => by cases hsends), fun now _ => ?_, fun _ => trivial⟩
    refine meets_ite (fun _ => trivial) fun _ => meets_ite (fun _ => ?_) fun _ => ?_
    · refine cleared_decided (q := { q with delegationId := some (computeEffectivePolicy policy d).delegationId })
        (fun check hcheck => ?_) fun hq => clears_delegated _ hq _ policy (hpolicy hq)
      obtain h | h := List.mem_append.mp hcheck
      · exact only_delegationChecks _ _ (fun _ hst => hst) check h
      · exact only_agentChecks _ _ (fun _ hst => hst) check h
    · exact meets_then (fun _ _ => True) (meets_unsent (only_logUsage rfl)) fun _ _ _ => trivial

theorem meets_resolve (hlimit : HasLimit s agent limit) (sub : String) :
    (resolveAgentPolicy sub).Meets (checking s.policies agent limit)
      (fun policy _ => sub = agent → policy.maxRequestsPerMinute = some limit) (fun _ _ => True) m := by
  refine ⟨(fun hsends => by cases hsends), fun own hown => ?_, fun _ => trivial⟩
  cases own with
  | some p =>
    rintro rfl
    exact hlimit p (.inl hown.symm)
  | none =>
    refine ⟨(fun hsends => by cases hsends), fun fallback hfallback => ?_, fun _ => trivial⟩
    rintro rfl
    obtain ⟨order, rfl⟩ := hfallback
    exact hlimit _ (.inr ⟨hown.symm, order, rfl⟩)

theorem meets_enforcePolicy (hlimit : HasLimit s agent limit) (identity : Payload)
    (requested requestType : String) :
    (enforcePolicy identity requested requestType).Meets (checking s.policies agent limit)
      (Cleared agent identity.sub) (fun _ _ => True) m := by
  refine meets_then _ (meets_resolve hlimit identity.sub) fun policy m' hpolicy => ?_
  cases identity.delegationId with
  | some id => exact meets_enforceDelegation _ policy id hpolicy
  | none =>
    refine meets_ite (fun _ => ?_) fun _ => trivial
    exact cleared_decided (only_agentChecks _ _ fun _ hst => hst)
      fun hq => clears_agentChecks _ hq policy (hpolicy hq)

theorem meets_attempt {α : Type} {policies : Policies.Store} {st : Statement}
    {f : Except Failure st.Rows → Handler α} (hmay : st.sends agent = true → m = true)
    (hf : ∀ answer, Only (fun st => st.sends agent = false) (f answer)) :
    (attempt st >>= f).Meets (checking policies agent limit) (fun _ _ => True) (fun _ _ => True) m :=
  ⟨hmay, fun rows _ => meets_unsent (hf (.ok rows)), fun e => meets_unsent (hf (.error e))⟩

theorem meets_proxy {policies : Policies.Store} (endpoint : Endpoint) (q : Attempt) (r : Resolved)
    (hm : q.agentId = agent → m = true) :
    (proxy endpoint q r).Meets (checking policies agent limit) (fun _ _ => True) (fun _ _ => True) m := by
  refine meets_attempt (fun hsends => hm (of_decide_eq_true hsends)) fun answer => ?_
  cases answer with
  | error e => exact only_proxyError _ _ _ fun _ => rfl
  | ok reply => exact only_bind (only_logUsage rfl) fun _ => only_pure _

theorem meets_handleStreaming {policies : Policies.Store} (q : Attempt) (r : Resolved)
    (hm : q.agentId = agent → m = true) :
    (handleStreaming q r).Meets (checking policies agent limit) (fun _ _ => True) (fun _ _ => True) m := by
  have hstreams : ∀ st : Statement, st.streams = true → st.sends agent = false :=
    fun _ => unsent_of_streams
  refine meets_attempt (fun hsends => hm (of_decide_eq_true hsends)) fun answer => ?_
  match answer with
  | .error e => exact only_proxyError _ _ _ fun _ => rfl
  | .ok (.rejected _) => exact only_bind (only_logUsage rfl) fun _ => only_pure _
  | .ok .rejectedNull =>
    exact only_bind (only_ask rfl) fun _ => only_streamAndLog (only_pure _) hstreams
  | .ok (.opened chunks) =>
    exact only_bind (only_ask rfl) fun _ => only_streamAndLog (only_generate _ _ hstreams) hstreams

theorem meets_endpoint (hlimit : HasLimit s agent limit) {req : ApiRequest} {requestType : String}
    {next : Attempt → Resolved → Handler Response}
    (hnext : ∀ q r m, (q.agentId = agent → m = true) →
      (next q r).Meets (checking s.policies agent limit) (fun _ _ => True) (fun _ _ => True) m) :
    Meets (checking s.policies agent limit) (do
      let requested ← requestedModel req.body
      let enforced ← enforcePolicy req.identity requested requestType
      match enforced with
      | .error denial => pure denial
      | .ok q => do
        let body := req.body.set "model" (.text q.resolvedModel)
        let r ← resolveByok cfg q.agentId q.resolvedModel body req.taskType
        if !cfg.httpClient then throw (.http 503 "HTTP client not initialized")
        else next q r) (fun _ _ => True) (fun _ _ => True) m := by
  refine meets_then (fun _ _ => True) (meets_unsent (only_requestedModel _)) fun requested m₁ _ => ?_
  refine meets_then _ (meets_enforcePolicy hlimit req.identity requested requestType)
    fun enforced m₂ hcleared => ?_
  cases enforced with
  | error denial => trivial
  | ok q =>
    obtain ⟨hq, hm⟩ := hcleared q rfl
    rw [← hq] at hm
    have hresolve : Meets (checking s.policies agent limit)
        (resolveByok cfg q.agentId q.resolvedModel (req.body.set "model" (.text q.resolvedModel))
          req.taskType) (fun _ m => q.agentId = agent → m = true) (fun _ _ => True) m₂ := by
      refine (only_resolveByok cfg q.agentId q.resolvedModel _ req.taskType fun _ hst => hst).meets
        (fun st hst => ⟨fun hsends => ?_, fun rows => ?_, fun e => ?_⟩) (fun _ => hm) fun _ => trivial
      · rw [unsent_of_resolves hst] at hsends
        cases hsends
      · cases st <;> first | rfl | cases hst
      · cases st <;> first | rfl | cases hst
    refine meets_then _ hresolve fun r m₃ hm₃ => ?_
    exact meets_ite (fun _ => trivial) fun _ => hnext q r m₃ hm₃

theorem meets_request (hlimit : HasLimit s agent limit) (q : Request) :
    (q.handler cfg).Meets (checking s.policies agent limit) (fun _ _ => True) (fun _ _ => True) false := by
  cases q with
  | chat req =>
    exact meets_endpoint hlimit fun q r m hm => meets_ite (fun _ => meets_handleStreaming q r hm)
      fun _ => meets_proxy .chat q r hm
  | embeddings req => exact meets_endpoint hlimit fun q r m hm => meets_proxy .embeddings q r hm
  | delegate identity body =>
    exact meets_unsent (only_createDelegation cfg identity body (fun _ => unsent_of_enforces)
      fun _ => unsent_of_delegates)
  | revokeDelegation identity id =>
    exact meets_unsent (only_revokeDelegation identity id fun _ => unsent_of_revokes)
  | revoke r =>
    exact meets_unsent (only_bind (only_revoke r fun _ => unsent_of_revokes) fun _ => only_pure _)
  | preload =>
    exact meets_unsent (only_bind (only_bind (only_ask rfl) fun _ => only_bind (only_ask rfl)
      fun _ => only_ask rfl) fun _ => only_pure _)
  | cleanup =>
    exact meets_unsent (only_bind (only_bind (only_ask rfl) fun _ => only_bind (only_ask rfl)
      fun _ => only_bind (only_ask rfl) fun _ => only_ask rfl) fun _ => only_pure _)

end Modes

/-! ## What the requests of an agent hold -/

def sendTimes (s : Store) (agent : String) : List ℚ :=
  (s.forwarded.filter fun f => f.agentId = agent).map Forwarded.sentAt

/-- The requests that have passed the check and may still be sent. -/
def held (policies : Policies.Store) (agent : String) (S : State) : Set ℕ :=
  holders (Plausible policies) (fun st => st.checks agent = true) (fun st => st.sends agent = true) S

def Unrevised (S : State) (a : RouterMove) : Prop :=
  ∀ policies catalog owners, a = .environment (.rewrite policies catalog owners) →
    policies = S.store.policies

/-- A request that passes the check is one of no more than the limit: those that were sent in the
last minute, logged or not, those that have passed the check before it and may still be sent, and
itself. -/
structure Roomy (agent : String) (limit : ℤ) (S : State) (a : RouterMove) : Prop where
  unrevised : Unrevised S a
  room : ∀ c i, S.taking a = some (.countRequests agent none, c) → a.subject = some i →
    ((S.store.lastMinute agent none).length : ℤ) < limit →
      since (sendTimes S.store agent) (S.store.now - 60) +
        (held S.store.policies agent S \ {i}).ncard < limit.toNat

/-- No window of a minute is overfilled, and what is held fits into the last one. -/
structure Limited (policies : Policies.Store) (agent : String) (limit : ℤ) (S : State) : Prop where
  same : S.store.policies = policies
  windows : ∀ t, within 60 (sendTimes S.store agent) t ≤ limit.toNat
  room : since (sendTimes S.store agent) (S.store.now - 60) + (held policies agent S).ncard ≤ limit.toNat
  absent : ∀ i, S.arrivals ≤ i → S.requests i = none
  meets : ∀ i q p, S.requests i = some (q, p) →
    ∃ m, p.Meets (checking policies agent limit) (fun _ _ => True) (fun _ _ => True) m

section Steps

variable {cfg : Config} {policies : Policies.Store} {agent : String} {limit : ℤ} {s s' : Store}
  {c : Choice} {st : Statement} {rows : st.Rows} {k : st.Rows → Handler Response}
  {r : Failure → Handler Response} {p : Handler Response} {q : Request} {i : ℕ} {m : Bool} {S : State}

theorem plausible_run (h : Statement.run s c st = .ok (rows, s')) : Plausible s.policies st rows := by
  cases st with
  | selectAssigned a =>
    cases h
    rfl
  | selectDefault =>
    cases h
    exact ⟨_, rfl⟩
  | _ => trivial

theorem kept_run (h : Statement.run s c st = .ok (rows, s')) :
    s'.policies = s.policies ∧ s'.now = s.now := by
  cases st with
  | insertDelegation d =>
    simp only [Statement.run] at h
    split at h
    · cases h
      exact ⟨rfl, rfl⟩
    · cases h
  | _ =>
    cases h
    exact ⟨rfl, rfl⟩

theorem sendTimes_run (h : Statement.run s c st = .ok (rows, s')) :
    sendTimes s' agent = if st.sends agent then s.now :: sendTimes s agent else sendTimes s agent := by
  cases st with
  | forward endpoint a body | openStream a body =>
    cases h
    by_cases ha : a = agent
    · simp [Statement.sends, sendTimes, Store.send, ha]
    · simp [Statement.sends, sendTimes, Store.send, ha]
  | insertDelegation d =>
    simp only [Statement.run] at h
    split at h
    · cases h
      rfl
    · cases h
  | _ =>
    cases h
    rfl

theorem not_reaches (h : p.Meets (checking policies agent limit) (fun _ _ => True) (fun _ _ => True) false) :
    ¬p.Reaches (Plausible policies) (fun st => st.checks agent = true) fun st => st.sends agent = true := by
  intro hreaches
  refine Bool.false_ne_true (h.of_reaches (P := fun m => m = true) (fun m st hmay => hmay)
    (fun m st rows _ hcheck hm => ?_) (fun m st e _ hm => ?_) hreaches)
  · cases st with
    | countRequests a scope =>
      cases scope with
      | some id => exact hm
      | none =>
        have ha : a ≠ agent := by simpa [Statement.checks] using hcheck
        simpa [checking, ha] using hm
    | forward endpoint a body | openStream a body =>
      by_cases ha : a = agent
      · simp [checking, ha] at hm
      · simpa [checking, ha] using hm
    | _ => exact hm
  · exact (Bool.and_eq_true_iff.mp hm).2

/-- Neither an error nor an answer makes a request pass that has not passed already, the answer of
the check excepted. -/
theorem reaches_rejected {e : Failure}
    (h : (Program.await st k r).Meets (checking policies agent limit) (fun _ _ => True) (fun _ _ => True) m)
    (hr : (r e).Reaches (Plausible policies) (fun st => st.checks agent = true)
      fun st => st.sends agent = true) :
    (Program.await st k r).Reaches (Plausible policies) (fun st => st.checks agent = true)
      fun st => st.sends agent = true := by
  refine .inr ⟨fun hcheck => ?_, .inr ⟨e, hr⟩⟩
  have herr := h.2.2 e
  rw [show (checking policies agent limit).rejected m st e = false by simp [checking, hcheck]] at herr
  exact not_reaches herr hr

theorem mem_held (hi : S.requests i = some (q, p)) :
    i ∈ held policies agent S ↔
      p.Reaches (Plausible policies) (fun st => st.checks agent = true) fun st => st.sends agent = true := by
  constructor
  · rintro ⟨q', p', hi', hreaches⟩
    rw [hi] at hi'
    cases hi'
    exact hreaches
  · exact fun h => ⟨q, p, hi, h⟩

variable {p' : Handler Response} {m' : Bool}

theorem Limited.proceed (h : Limited policies agent limit S) (hi : S.requests i = some (q, p))
    (hsame : s'.policies = policies)
    (hp' : p'.Meets (checking policies agent limit) (fun _ _ => True) (fun _ _ => True) m')
    (hwindows : ∀ t, within 60 (sendTimes s' agent) t ≤ limit.toNat)
    (hroom : since (sendTimes s' agent) (s'.now - 60) +
      (held policies agent (S.proceed i s' q p')).ncard ≤ limit.toNat) :
    Limited policies agent limit (S.proceed i s' q p') := by
  refine ⟨hsame, hwindows, hroom, fun j hj => ?_, fun j q' p'' hj => ?_⟩
  · rw [System.proceed_requests, if_neg]
    · exact h.absent j hj
    · rintro rfl
      rw [h.absent j hj] at hi
      cases hi
  · rw [System.proceed_requests] at hj
    split at hj
    · cases hj
      exact ⟨m', hp'⟩
    · exact h.meets j q' p'' hj

theorem Limited.still (h : Limited policies agent limit S) (hi : S.requests i = some (q, p))
    (hsame : s'.policies = policies) (hnow : s'.now = S.store.now)
    (htimes : sendTimes s' agent = sendTimes S.store agent)
    (hp' : p'.Meets (checking policies agent limit) (fun _ _ => True) (fun _ _ => True) m')
    (hreaches : p'.Reaches (Plausible policies) (fun st => st.checks agent = true)
        (fun st => st.sends agent = true) →
      p.Reaches (Plausible policies) (fun st => st.checks agent = true) fun st => st.sends agent = true) :
    Limited policies agent limit (S.proceed i s' q p') := by
  have hheld : (held policies agent (S.proceed i s' q p')).ncard ≤ (held policies agent S).ncard :=
    ncard_holders_proceed_le (finite_holders h.absent) fun hr => (mem_held hi).mpr (hreaches hr)
  refine h.proceed hi hsame hp' ?_ ?_
  · rw [htimes]
    exact h.windows
  · rw [htimes, hnow]
    have hroom := h.room
    omega

/-- A request that is sent gives up what it held. -/
theorem Limited.sent (h : Limited policies agent limit S) (hi : S.requests i = some (q, p))
    (hsame : s'.policies = policies) (hnow : s'.now = S.store.now)
    (htimes : sendTimes s' agent = S.store.now :: sendTimes S.store agent)
    (hp : p.Reaches (Plausible policies) (fun st => st.checks agent = true) fun st => st.sends agent = true)
    (hp' : p'.Meets (checking policies agent limit) (fun _ _ => True) (fun _ _ => True) false) :
    Limited policies agent limit (S.proceed i s' q p') := by
  have hheld : (held policies agent (S.proceed i s' q p')).ncard < (held policies agent S).ncard :=
    ncard_holders_proceed_lt (finite_holders h.absent) ((mem_held hi).mpr hp) (not_reaches hp')
  have hroom := h.room
  refine h.proceed hi hsame hp' ?_ ?_
  · rw [htimes]
    exact within_cons_le h.windows (by omega)
  · rw [htimes, hnow, since_cons_now (by norm_num)]
    omega

theorem Limited.effect (h : Limited policies agent limit S) (hi : S.requests i = some (q, .await st k r))
    (heff : Statement.run S.store c st = .ok (rows, s'))
    (hp' : p'.Meets (checking policies agent limit) (fun _ _ => True) (fun _ _ => True) m')
    (hm' : st.sends agent = true → m' = false)
    (hreaches : st.sends agent = false → p'.Reaches (Plausible policies) (fun st => st.checks agent = true)
        (fun st => st.sends agent = true) →
      (Program.await st k r).Reaches (Plausible policies) (fun st => st.checks agent = true)
        fun st => st.sends agent = true) :
    Limited policies agent limit (S.proceed i s' q p') := by
  obtain ⟨hsame, hnow⟩ := kept_run heff
  have htimes : sendTimes s' agent =
      if st.sends agent then S.store.now :: sendTimes S.store agent else sendTimes S.store agent :=
    sendTimes_run heff
  rw [h.same] at hsame
  cases hsends : st.sends agent with
  | true =>
    rw [hsends, if_pos rfl] at htimes
    rw [hm' hsends] at hp'
    exact h.sent hi hsame hnow htimes (.inl hsends) hp'
  | false =>
    rw [hsends, if_neg Bool.false_ne_true] at htimes
    exact h.still hi hsame hnow htimes hp' (hreaches hsends)

theorem eq_of_checks (h : st.checks agent = true) : st = .countRequests agent none := by
  cases st with
  | countRequests a scope =>
    cases scope with
    | none => rw [of_decide_eq_true h]
    | some id => cases h
  | _ => cases h

theorem returned_sends (h : st.sends agent = true) :
    (checking policies agent limit).returned m st rows = false := by
  cases st with
  | forward endpoint a body | openStream a body => simp [checking, of_decide_eq_true h]
  | _ => cases h

/-- The count is answered: the request holds one of the limit, or it is denied. -/
theorem Limited.checked (h : Limited policies agent limit S) {f : ℕ × Option ℤ → Handler Response}
    (hi : S.requests i = some (q, .await (.countRequests agent none) f r))
    (hmeets : ∀ rows, (f rows).Meets (checking policies agent limit) (fun _ _ => True) (fun _ _ => True)
      (decide ((rows.1 : ℤ) < limit)))
    (hroom : ((S.store.lastMinute agent none).length : ℤ) < limit →
      since (sendTimes S.store agent) (S.store.now - 60) + (held S.store.policies agent S \ {i}).ncard <
        limit.toNat) (oldest : Option ℤ) :
    Limited policies agent limit
      (S.proceed i S.store q (f ((S.store.lastMinute agent none).length, oldest))) := by
  have hp' := hmeets ((S.store.lastMinute agent none).length, oldest)
  by_cases hlt : ((S.store.lastMinute agent none).length : ℤ) < limit
  · refine h.proceed hi h.same hp' h.windows ?_
    have hfinite : (held policies agent S).Finite := finite_holders h.absent
    have hheld : (held policies agent (S.proceed i S.store q
        (f ((S.store.lastMinute agent none).length, oldest)))).ncard ≤
          (held policies agent S \ {i}).ncard + 1 := ncard_holders_proceed_le_succ hfinite
    have hless := hroom hlt
    rw [h.same] at hless
    omega
  · rw [decide_eq_false hlt] at hp'
    exact h.still hi h.same rfl rfl hp' fun hr => absurd hr (not_reaches hp')

theorem Limited.enter (h : Limited policies agent limit S) (hp : p.Meets (checking policies agent limit)
      (fun _ _ => True) (fun _ _ => True) false) : Limited policies agent limit (S.enter q p) := by
  have hheld : (held policies agent (S.enter q p)).ncard ≤ (held policies agent S).ncard :=
    Set.ncard_le_ncard (holders_enter (not_reaches hp)) (finite_holders h.absent)
  have hroom := h.room
  refine ⟨h.same, h.windows, ?_, fun j hj => ?_, fun j q' p' hj => ?_⟩
  · rw [System.enter_store]
    omega
  · have hj' : S.arrivals + 1 ≤ j := hj
    rw [System.enter_requests, if_neg (by omega)]
    exact h.absent j (by omega)
  · rw [System.enter_requests] at hj
    split at hj
    · cases hj
      exact ⟨false, hp⟩
    · exact h.meets j q' p' hj

theorem Limited.around {x : Surroundings} (h : Limited policies agent limit S)
    (hsame : s'.policies = policies) (heff : x.apply S.store = some s') :
    Limited policies agent limit { S with store := s' } := by
  have hkept : S.store.now ≤ s'.now ∧ s'.forwarded = S.store.forwarded := by
    cases x with
    | tick d =>
      simp only [Surroundings.apply] at heff
      split at heff
      · rename_i hd
        cases heff
        exact ⟨le_add_of_nonneg_right hd, rfl⟩
      · cases heff
    | rewrite policies' catalog owners =>
      cases heff
      exact ⟨le_rfl, rfl⟩
  have htimes : sendTimes s' agent = sendTimes S.store agent := by rw [sendTimes, hkept.2, sendTimes]
  refine ⟨hsame, ?_, ?_, h.absent, h.meets⟩
  · rw [htimes]
    exact h.windows
  · have hlater : since (sendTimes S.store agent) (s'.now - 60) ≤
        since (sendTimes S.store agent) (S.store.now - 60) := since_anti (by linarith [hkept.1])
    have hroom := h.room
    rw [htimes]
    exact (Nat.add_le_add_right hlater _).trans hroom

variable {T : State} {a : RouterMove}

theorem policies_kept (hunrevised : Unrevised S a) (hstep : (service cfg).step S a = some T) :
    T.store.policies = S.store.policies := by
  cases Service.moved_of_step hstep with
  | answered _ heff | lost _ heff => exact (kept_run heff).1
  | arrived | refused | rejected => rfl
  | @around x s' heff =>
    cases x with
    | tick d =>
      simp only [service, Surroundings.apply] at heff
      split at heff
      · cases heff
        rfl
      · cases heff
    | rewrite policies' catalog owners =>
      cases heff
      exact hunrevised _ _ _ rfl

theorem policies_settled {ok : State → RouterMove → Prop} {as : List RouterMove}
    (hok : ∀ S a, ok S a → Unrevised S a) (h : (service cfg).machine.RunIf ok S as T) :
    T.store.policies = S.store.policies := by
  refine h.invariant (I := fun T => T.store.policies = S.store.policies) rfl fun T a U hT ha hstep => ?_
  exact (policies_kept (hok T a ha) hstep).trans hT

theorem hasLimit_congr (h : s'.policies = s.policies) : HasLimit s' agent limit ↔ HasLimit s agent limit := by
  unfold HasLimit Store.HasPolicy Store.IsFallback Store.ownPolicy
  rw [h]

theorem Limited.step (h : Limited policies agent limit S) (hlimit : HasLimit S.store agent limit)
    (hroomy : Roomy agent limit S a) (hstep : (service cfg).step S a = some T) :
    Limited policies agent limit T := by
  cases Service.moved_of_step hstep with
  | arrived q =>
    have hmeets : (q.handler cfg).Meets (checking S.store.policies agent limit) (fun _ _ => True)
        (fun _ _ => True) false := meets_request hlimit q
    rw [h.same] at hmeets
    exact h.enter hmeets
  | @answered i c q st k r rows s' hi heff =>
    obtain ⟨m, hwait⟩ := h.meets i q _ hi
    have hplausible : Plausible policies st rows := by
      rw [← h.same]
      exact plausible_run heff
    cases hchecks : st.checks agent with
    | true =>
      obtain rfl := eq_of_checks hchecks
      cases heff
      refine h.checked hi (fun rows => ?_) (fun hlt => hroomy.room c i ?_ rfl hlt) _
      · have hk := hwait.2.1 rows trivial
        simpa [checking] using hk
      · simp only [System.taking, hi]
    | false =>
      refine h.effect hi heff (hwait.2.1 rows hplausible) (fun hsends => returned_sends hsends) ?_
      exact fun _ hr => .inr ⟨by simp [hchecks], .inl ⟨rows, hplausible, hr⟩⟩
  | @refused i c q st k r e hi _ =>
    obtain ⟨m, hwait⟩ := h.meets i q _ hi
    exact h.still hi h.same rfl rfl (hwait.2.2 e) (reaches_rejected hwait)
  | @rejected i q st k r e hi =>
    obtain ⟨m, hwait⟩ := h.meets i q _ hi
    exact h.still hi h.same rfl rfl (hwait.2.2 e) (reaches_rejected hwait)
  | @lost i c q st k r rows s' e hi heff =>
    obtain ⟨m, hwait⟩ := h.meets i q _ hi
    exact h.effect hi heff (hwait.2.2 e) (fun hsends => by simp [checking, hsends])
      fun _ hr => reaches_rejected hwait hr
  | @around x s' heff =>
    exact h.around ((policies_kept hroomy.unrevised hstep).trans h.same) heff

/-- Whatever order the requests take their steps in, no minute sees more of the agent's requests sent
to LiteLLM than its policy allows, as long as a request that passes the check has room among those
that were sent and those that may still be. -/
theorem minute_bounded (h : (service cfg).machine.ReachableIf (Roomy agent limit) S)
    (hlimit : HasLimit S.store agent limit) (t : ℚ) :
    within 60 (sendTimes S.store agent) t ≤ limit.toNat := by
  have hlimited : HasLimit S.store agent limit → Limited S.store.policies agent limit S := by
    apply h.invariant (I := fun S => HasLimit S.store agent limit → Limited S.store.policies agent limit S)
    · rintro S ⟨hfresh, hrequests, _⟩ _
      have htimes : sendTimes S.store agent = [] := by
        rw [sendTimes, hfresh.forwarded]
        rfl
      have hnone : held S.store.policies agent S = ∅ := by
        refine Set.eq_empty_of_forall_notMem ?_
        rintro i ⟨q, p, hi, _⟩
        rw [hrequests] at hi
        cases hi
      refine ⟨rfl, fun t => ?_, ?_, fun i _ => by rw [hrequests], fun i q p hi => ?_⟩
      · rw [htimes]
        exact Nat.zero_le _
      · rw [htimes, hnone, Set.ncard_empty]
        exact Nat.zero_le _
      · rw [hrequests] at hi
        cases hi
    · intro S a T hS hroomy hstep hT
      have hsame := policies_kept hroomy.unrevised hstep
      have hS' : HasLimit S.store agent limit := (hasLimit_congr hsame).mp hT
      rw [hsame]
      exact (hS hS').step hS' hroomy hstep
  exact (hlimited hlimit).windows t

/-! ## Requests that do not overlap -/

theorem held_of_alone {ok : State → RouterMove → Prop} (h : (service cfg).machine.ReachableIf ok S)
    (halone : S.alone i = true) : held policies agent S \ {i} = ∅ := by
  refine Set.eq_empty_of_forall_notMem ?_
  rintro j ⟨⟨q, p, hj, hreaches⟩, hne⟩
  have hended : S.ended j = true := Service.ended_of_alone h halone hne
  cases p with
  | reply a => exact hreaches
  | raise e => exact hreaches
  | await st k r =>
    rw [System.ended, hj] at hended
    cases hended

theorem roomy_of_alone {ok : State → RouterMove → Prop} (h : (service cfg).machine.ReachableIf ok S)
    (hunrevised : Unrevised S a)
    (halone : ∀ c i, S.taking a = some (.countRequests agent none, c) → a.subject = some i →
      S.alone i = true ∧
        since (sendTimes S.store agent) (S.store.now - 60) ≤ (S.store.lastMinute agent none).length) :
    Roomy agent limit S a := by
  refine ⟨hunrevised, fun c i htaking hsubject hlt => ?_⟩
  obtain ⟨hothers, hlogged⟩ := halone c i htaking hsubject
  rw [held_of_alone h hothers, Set.ncard_empty]
  omega

/-- A check on a state of which every request is known. -/
def apart (agent : String) (S : State) (a : RouterMove) : Bool :=
  match a with
  | .environment (.rewrite ..) => false
  | a =>
    match S.taking a, a.subject with
    | some (.countRequests _ none, _), some i => S.alone i &&
      decide (since (sendTimes S.store agent) (S.store.now - 60) ≤ (S.store.lastMinute agent none).length)
    | _, _ => true

theorem roomy_of_apart {ok : State → RouterMove → Prop} (h : (service cfg).machine.ReachableIf ok S)
    (hapart : apart agent S a = true) : Roomy agent limit S a := by
  refine roomy_of_alone h ?_ fun c i htaking hsubject => ?_
  · rintro policies catalog owners rfl
    cases hapart
  · have hboth : (S.alone i && decide (since (sendTimes S.store agent) (S.store.now - 60) ≤
        (S.store.lastMinute agent none).length)) = true := by
      unfold apart at hapart
      cases a with
      | arrive | environment => cases htaking
      | resume | reject | lose =>
        simp only [htaking, hsubject] at hapart
        exact hapart
    simpa using hboth

end Steps

/-- One request a minute, for an agent with a model of ann's. -/
def ratedPolicy : Policies.Policy := { scoutPolicy with maxRequestsPerMinute := some 1 }

def rated : State where
  store := { onePolicy ratedPolicy with catalog := Models.OwnerCache.annCatalog, owners := fun _ => some "ann" }
  requests := fun _ => none
  arrivals := 0

def ratedConfig : Config where
  decrypt := fun _ _ => some "sk-secret"

def ratedRequest : Request :=
  .embeddings ⟨scoutToken, fun member => if member = "model" then some (.text "gpt") else none, none⟩

theorem initial_rated : (service ratedConfig).machine.initial rated :=
  ⟨⟨rfl, rfl, rfl, rfl, rfl⟩, rfl, rfl⟩

theorem hasLimit_rated : HasLimit rated.store "scout" 1 := by
  rintro policy (hown | ⟨_, order, rfl⟩)
  · cases hown
  · cases hrow : Policies.fetchrow order
        (rated.store.policies.policies.filter fun p => p.name = "default") with
    | none =>
      have hnil := Policies.nil_of_fetchrow hrow
      have hmem : ratedPolicy ∈ rated.store.policies.policies.filter fun p => p.name = "default" :=
        List.mem_filter.mpr ⟨List.mem_singleton_self _, rfl⟩
      rw [hnil] at hmem
      cases hmem
    | some p =>
      obtain rfl := List.mem_singleton.mp (List.mem_filter.mp (Policies.mem_of_fetchrow hrow)).1
      rfl

/-- The second request arrives when the first has been logged. -/
def ratedApart : List RouterMove :=
  [.arrive ratedRequest, .resume 0 {}, .resume 0 {}, .resume 0 {}, .resume 0 {}, .resume 0 {},
    .resume 0 {}, .resume 0 {}, .arrive ratedRequest, .resume 1 {}, .resume 1 {}, .resume 1 {},
    .resume 1 {}]

/-- Both requests are checked before either is sent. -/
def ratedTogether : List RouterMove :=
  [.arrive ratedRequest, .arrive ratedRequest, .resume 0 {}, .resume 0 {}, .resume 0 {}, .resume 1 {},
    .resume 1 {}, .resume 1 {}, .resume 0 {}, .resume 0 {}, .resume 0 {}, .resume 1 {}, .resume 1 {},
    .resume 1 {}]

theorem minute_bounded_apart :
    within 60 (sendTimes ((service ratedConfig).machine.after rated ratedApart).store "scout") (-1) ≤ 1 := by
  have hrun : (service ratedConfig).machine.RunIf (Roomy "scout" 1) rated ratedApart
      ((service ratedConfig).machine.after rated ratedApart) :=
    Machine.runIf_of_accepts (I := (service ratedConfig).machine.ReachableIf (Roomy "scout" 1))
      (fun _ _ h hc => roomy_of_apart h hc) (fun _ _ _ h hok hstep => h.trans (.single hok hstep))
      ⟨rated, [], initial_rated, .nil _⟩ (by decide +kernel)
  have hsame := policies_settled (fun _ _ hroomy => hroomy.unrevised) hrun
  exact minute_bounded ⟨rated, _, initial_rated, hrun⟩ ((hasLimit_congr hsame).mpr hasLimit_rated) (-1)

def undirected : RouterMove → Bool
  | .environment _ => false
  | _ => true

/-- Two requests that pass the check side by side are both sent, where one a minute is allowed. -/
theorem together_exceed :
    ¬∀ (cfg : Config) (agent : String) (limit : ℤ) (S : State),
      (service cfg).machine.ReachableIf Unrevised S → HasLimit S.store agent limit →
        ∀ t, within 60 (sendTimes S.store agent) t ≤ limit.toNat := by
  intro h
  have hreach : (service ratedConfig).machine.ReachableIf Unrevised
      ((service ratedConfig).machine.after rated ratedTogether) := by
    refine Machine.reachableIf_of_accepts (C := fun _ a => undirected a) (fun S a _ hc => ?_)
      initial_rated (by decide +kernel)
    rintro policies catalog owners rfl
    cases hc
  have hsame : ((service ratedConfig).machine.after rated ratedTogether).store.policies = rated.store.policies := rfl
  have hlimit := (hasLimit_congr hsame).mpr hasLimit_rated
  have hsent := h ratedConfig "scout" 1 _ hreach hlimit (-1)
  revert hsent
  decide +kernel

end Hill90.Router
