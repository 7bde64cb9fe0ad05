import Hill90.Router.Routes

/-! # Which statements the endpoints hand over

One predicate for each part of a request: its enforcement, its resolution and its forwarding.
-/

namespace Hill90.Router

open Chat (Uuid)
open Models (UserModelInfo RoutingConfig)
open Policies (AgentPolicy)
open Program

def Statement.enforces : Statement → Bool
  | readClock | selectAssigned _ | selectDefault | selectDelegation _ | countRequests ..
  | sumTokens .. | insertUsage _ => true
  | _ => false

def Statement.resolves : Statement → Bool
  | agentOwner _ | userModel .. | routerModel .. | routeCredentials .. | platformModel _ => true
  | _ => false

def Statement.looksUp : Statement → Option String
  | userModel name _ | routerModel name _ | platformModel name => some name
  | _ => none

def Statement.Resolves (model : String) (st : Statement) : Prop :=
  st.resolves = true ∧ ∀ name, st.looksUp = some name → name = model

def Statement.streams : Statement → Bool
  | startResponse | nextChunk | sendChunk | sendError | insertUsage _ => true
  | _ => false

def Statement.calls : Statement → Bool
  | forward .. | openStream .. => true
  | _ => false

def Statement.Forwards (r : Resolved) (st : Statement) : Prop :=
  st.streams = true ∨ (∃ endpoint agentId, st = .forward endpoint agentId r.body) ∨
    ∃ agentId, st = .openStream agentId (streamBody r.body)

variable {A : Statement → Prop}

theorem only_ask {s : Statement} (h : A s) : Only A (ask s) := only_query h

theorem only_catchException {α : Type} {p : Handler α} {h : Failure → Handler α} (hp : Only A p)
    (hh : ∀ e, Only A (h e)) : Only A (catchException p h) :=
  only_tryCatch hp fun e => only_ite (fun _ => hh e) fun _ => only_throw e

theorem only_attempt {s : Statement} (h : A s) : Only A (attempt s) :=
  only_tryCatch (only_bind (only_ask h) fun _ => only_pure _) fun _ => only_pure _

theorem only_logUsage {u : Usage} (h : A (.insertUsage u)) : Only A (logUsage u) :=
  only_catchException (only_ask h) fun _ => only_pure _

theorem only_resolveAgentPolicy (agentId : String) (hA : ∀ st, st.enforces = true → A st) :
    Only A (resolveAgentPolicy agentId) := by
  refine only_bind (only_ask (hA _ rfl)) fun own => ?_
  cases own with
  | some p => exact only_pure p
  | none => exact only_bind (only_ask (hA _ rfl)) fun _ => only_pure _

theorem only_enforceRate (q : Attempt) (limit : Option ℤ) (scope : Option Uuid) (message : String)
    (hA : ∀ st, st.enforces = true → A st) : Only A (enforceRate q limit scope message) := by
  cases limit with
  | none => exact only_pure _
  | some maxRpm =>
    refine only_bind (only_bind (only_ask (hA _ rfl)) fun _ => only_pure _) fun rl => ?_
    refine only_ite (fun _ => only_pure _) fun _ => ?_
    exact only_bind (only_logUsage (hA _ rfl)) fun _ => only_pure _

theorem only_enforceBudget (q : Attempt) (limit : Option ℤ) (scope : Option Uuid) (message : String)
    (hA : ∀ st, st.enforces = true → A st) : Only A (enforceBudget q limit scope message) := by
  cases limit with
  | none => exact only_pure _
  | some maxTokens =>
    refine only_bind (only_bind (only_ask (hA _ rfl)) fun _ => only_pure _) fun budget => ?_
    refine only_ite (fun _ => only_pure _) fun _ => ?_
    exact only_bind (only_logUsage (hA _ rfl)) fun _ => only_pure _

theorem only_firstDenial {checks : List (Handler (Option Response))}
    (h : ∀ check ∈ checks, Only A check) : Only A (firstDenial checks) := by
  induction checks with
  | nil => exact only_pure _
  | cons check checks ih =>
    refine only_bind (h check (by simp)) fun denial => ?_
    cases denial with
    | some r => exact only_pure _
    | none => exact ih fun c hc => h c (List.mem_cons_of_mem check hc)

theorem only_agentChecks (q : Attempt) (policy : AgentPolicy) (hA : ∀ st, st.enforces = true → A st) :
    ∀ check ∈ agentChecks q policy, Only A check := by
  intro check hcheck
  simp only [agentChecks, List.mem_cons, List.not_mem_nil, or_false] at hcheck
  obtain rfl | rfl := hcheck
  · exact only_enforceRate _ _ _ _ hA
  · exact only_enforceBudget _ _ _ _ hA

theorem only_delegationChecks (q : Attempt) (effective : EffectivePolicy)
    (hA : ∀ st, st.enforces = true → A st) :
    ∀ check ∈ delegationChecks q effective, Only A check := by
  intro check hcheck
  simp only [delegationChecks, List.mem_cons, List.not_mem_nil, or_false] at hcheck
  obtain rfl | rfl := hcheck
  · exact only_enforceRate _ _ _ _ hA
  · exact only_enforceBudget _ _ _ _ hA

theorem only_enforceDelegation (q : Attempt) (policy : AgentPolicy) (id : Uuid)
    (hA : ∀ st, st.enforces = true → A st) : Only A (enforceDelegation q policy id) := by
  refine only_bind (only_ask (hA _ rfl)) fun deleg => ?_
  cases deleg with
  | none => exact only_throw _
  | some d =>
    refine only_ite (fun _ => only_throw _) fun _ => ?_
    refine only_bind (only_ask (hA _ rfl)) fun now => ?_
    refine only_ite (fun _ => only_throw _) fun _ => ?_
    refine only_ite (fun _ => ?_) fun _ => ?_
    · refine only_bind (only_firstDenial fun check hcheck => ?_) fun _ => only_pure _
      obtain h | h := List.mem_append.mp hcheck
      · exact only_delegationChecks _ _ hA check h
      · exact only_agentChecks _ _ hA check h
    · exact only_bind (only_logUsage (hA _ rfl)) fun _ => only_throw _

theorem only_enforcePolicy (identity : Payload) (requested requestType : String)
    (hA : ∀ st, st.enforces = true → A st) : Only A (enforcePolicy identity requested requestType) := by
  refine only_bind (only_resolveAgentPolicy _ hA) fun policy => ?_
  cases identity.delegationId with
  | some id => exact only_enforceDelegation _ _ _ hA
  | none =>
    refine only_ite (fun _ => ?_) fun _ => only_throw _
    exact only_bind (only_firstDenial (only_agentChecks _ _ hA)) fun _ => only_pure _

theorem only_requestedModel (body : Body) : Only A (requestedModel body) := by
  unfold requestedModel
  split
  · exact only_pure _
  · exact only_pure _
  · exact only_throw _

theorem only_inject (cfg : Config) (owner : String) (info : UserModelInfo) (body : Body) :
    Only A (inject cfg owner info body) := by
  unfold inject
  split
  · exact only_pure _
  · exact only_throw _

theorem only_resolveByok_of (cfg : Config) (agentId model : String) (body : Body)
    (taskType : Option String) (hA : ∀ st, st.Resolves model → A st) :
    Only A (resolveByok cfg agentId model body taskType) := by
  refine only_bind (only_ask (hA _ ⟨rfl, fun _ h => by cases h⟩)) fun owner => ?_
  cases owner with
  | none => exact only_throw _
  | some owner =>
    refine only_bind (only_ask (hA _ ⟨rfl, fun _ h => (Option.some.inj h).symm⟩)) fun single => ?_
    cases single with
    | some info => exact only_inject ..
    | none =>
      refine only_bind (only_ask (hA _ ⟨rfl, fun _ h => (Option.some.inj h).symm⟩)) fun router => ?_
      cases router with
      | none =>
        refine only_bind (only_ask (hA _ ⟨rfl, fun _ h => (Option.some.inj h).symm⟩)) fun platform => ?_
        cases platform with
        | some info => exact only_inject ..
        | none => exact only_throw _
      | some router =>
        dsimp only
        cases Models.selectRoute router taskType with
        | none => exact only_throw _
        | some route =>
          refine only_bind (only_ask (hA _ ⟨rfl, fun _ h => by cases h⟩)) fun creds => ?_
          cases creds with
          | some info => exact only_inject ..
          | none => exact only_throw _

theorem only_resolveByok (cfg : Config) (agentId model : String) (body : Body)
    (taskType : Option String) (hA : ∀ st, st.resolves = true → A st) :
    Only A (resolveByok cfg agentId model body taskType) :=
  only_resolveByok_of cfg agentId model body taskType fun st hst => hA st hst.1

theorem only_proxyError (q : Attempt) (r : Resolved) (e : Failure) (hA : ∀ u, A (.insertUsage u)) :
    Only A (proxyError q r e) :=
  only_ite (fun _ => only_bind (only_logUsage (hA _)) fun _ => only_throw _) fun _ => only_throw _

theorem only_proxy (endpoint : Endpoint) (q : Attempt) (r : Resolved) (hA : ∀ st, st.Forwards r → A st) :
    Only A (proxy endpoint q r) := by
  refine only_bind (only_attempt (hA _ (.inr (.inl ⟨endpoint, q.agentId, rfl⟩)))) fun result => ?_
  cases result with
  | error e => exact only_proxyError _ _ _ fun u => hA _ (.inl rfl)
  | ok reply => exact only_bind (only_logUsage (hA _ (.inl rfl))) fun _ => only_pure _

theorem only_generate (chunks : List Chunk) (r : StreamingResult)
    (hA : ∀ st, st.streams = true → A st) : Only A (generate chunks r) := by
  induction chunks generalizing r with
  | nil =>
    refine only_bind (only_attempt (hA _ rfl)) fun next => ?_
    cases next with
    | error e => exact only_pure _
    | ok _ => exact only_pure _
  | cons chunk chunks ih =>
    refine only_bind (only_attempt (hA _ rfl)) fun next => ?_
    cases next with
    | error e => exact only_pure _
    | ok _ =>
      refine only_bind (only_attempt (hA _ rfl)) fun sent => ?_
      cases sent with
      | error e => exact only_pure _
      | ok _ => exact only_ite (fun _ => only_pure _) fun _ => ih _

theorem only_announce (ending : Option Failure) (hA : ∀ st, st.streams = true → A st) :
    Only A (announce ending) := by
  cases ending with
  | none => exact only_pure _
  | some e =>
    refine only_ite (fun _ => only_bind (only_attempt (hA _ rfl)) fun sent => ?_) fun _ => only_pure _
    cases sent with
    | error e => exact only_pure _
    | ok _ => exact only_pure _

theorem only_streamAndLog {q : Attempt} {r : Resolved} {stream : Handler (StreamingResult × Option Failure)}
    (hstream : Only A stream) (hA : ∀ st, st.streams = true → A st) :
    Only A (streamAndLog q r stream) := by
  refine only_bind hstream fun ended => only_bind (only_announce _ hA) fun raised => ?_
  refine only_bind (only_logUsage (hA _ rfl)) fun _ => ?_
  cases raised with
  | some e => exact only_throw _
  | none => exact only_pure _

theorem only_handleStreaming (q : Attempt) (r : Resolved) (hA : ∀ st, st.Forwards r → A st) :
    Only A (handleStreaming q r) := by
  have hstreams : ∀ st, st.streams = true → A st := fun st hst => hA st (.inl hst)
  refine only_bind (only_attempt (hA _ (.inr (.inr ⟨q.agentId, rfl⟩)))) fun opened => ?_
  match opened with
  | .error e => exact only_proxyError _ _ _ fun u => hstreams _ rfl
  | .ok (.rejected _) => exact only_bind (only_logUsage (hstreams _ rfl)) fun _ => only_pure _
  | .ok .rejectedNull =>
    exact only_bind (only_ask (hstreams _ rfl)) fun _ => only_streamAndLog (only_pure _) hstreams
  | .ok (.opened chunks) =>
    exact only_bind (only_ask (hstreams _ rfl)) fun _ =>
      only_streamAndLog (only_generate _ _ hstreams) hstreams

/-- The shape both endpoints share: a request is enforced, then resolved, then forwarded. -/
theorem only_endpoint {cfg : Config} {req : ApiRequest} {requestType : String}
    {next : Attempt → Resolved → Handler Response} (henforces : ∀ st, st.enforces = true → A st)
    (hresolves : ∀ st, st.resolves = true → A st) (hnext : ∀ q r, Only A (next q r)) :
    Only A (do
      let requested ← requestedModel req.body
      let enforced ← enforcePolicy req.identity requested requestType
      match enforced with
      | .error denial => pure denial
      | .ok q => do
        let r ← resolveByok cfg q.agentId q.resolvedModel (req.body.set "model" (.text q.resolvedModel))
          req.taskType
        if !cfg.httpClient then throw (.http 503 "HTTP client not initialized") else next q r) := by
  refine only_bind (only_requestedModel _) fun requested => ?_
  refine only_bind (only_enforcePolicy _ _ _ henforces) fun enforced => ?_
  cases enforced with
  | error denial => exact only_pure _
  | ok q =>
    refine only_bind (only_resolveByok _ _ _ _ _ hresolves) fun r => ?_
    exact only_ite (fun _ => only_throw _) fun _ => hnext q r

theorem only_chatCompletions (cfg : Config) (req : ApiRequest)
    (henforces : ∀ st, st.enforces = true → A st) (hresolves : ∀ st, st.resolves = true → A st)
    (hforwards : ∀ r st, st.Forwards r → A st) : Only A (chatCompletions cfg req) :=
  only_endpoint henforces hresolves fun q r => only_ite
    (fun _ => only_handleStreaming q r (hforwards r)) fun _ => only_proxy .chat q r (hforwards r)

theorem only_embeddings (cfg : Config) (req : ApiRequest)
    (henforces : ∀ st, st.enforces = true → A st) (hresolves : ∀ st, st.resolves = true → A st)
    (hforwards : ∀ r st, st.Forwards r → A st) : Only A (embeddings cfg req) :=
  only_endpoint henforces hresolves fun q r => only_proxy .embeddings q r (hforwards r)

/-- The statements of the creation of a delegation, beside the reading of the policy. -/
def Statement.delegates : Statement → Bool
  | randomUUID | insertDelegation _ | signToken .. | deleteDelegation _ | updateChildJti .. => true
  | _ => false

theorem only_abandon (id : Uuid) (hA : ∀ st, st.delegates = true → A st) : Only A (abandon id) :=
  only_bind (only_catchException (only_ask (hA _ rfl)) fun _ => only_pure _) fun _ => only_throw _

theorem only_signChild (cfg : Config) (d : Delegation) (hA : ∀ st, st.delegates = true → A st) :
    Only A (signChild cfg d) := by
  refine only_ite (fun _ => only_throw _) fun _ => only_bind (only_attempt (hA _ rfl)) fun reply => ?_
  match reply with
  | .error e => exact only_ite (fun _ => only_abandon _ hA) fun _ => only_throw _
  | .ok (.refused _) => exact only_abandon _ hA
  | .ok .malformed => exact only_abandon _ hA
  | .ok (.signed token) => exact only_bind (only_ask (hA _ rfl)) fun _ => only_pure _

theorem only_createDelegation (cfg : Config) (identity : Payload) (body : DelegateRequest)
    (henforces : ∀ st, st.enforces = true → A st) (hA : ∀ st, st.delegates = true → A st) :
    Only A (createDelegationEndpoint cfg identity body) := by
  refine only_ite (fun _ => only_throw _) fun _ => ?_
  refine only_bind (only_resolveAgentPolicy _ henforces) fun parent => ?_
  dsimp only
  split
  · refine only_bind (only_ask (hA _ rfl)) fun id => only_bind (only_ask (hA _ rfl)) fun _ => ?_
    exact only_signChild _ _ hA
  · exact only_throw _

def Statement.revokes : Statement → Bool
  | revokeDelegation .. | insertRevoked _ | addRevoked _ => true
  | _ => false

theorem only_revoke (r : RevokedToken) (hA : ∀ st, st.revokes = true → A st) : Only A (revoke r) :=
  only_bind (only_ask (hA _ rfl)) fun _ => only_ask (hA _ rfl)

theorem only_revokeDelegation (identity : Payload) (id : Uuid)
    (hA : ∀ st, st.revokes = true → A st) : Only A (revokeDelegationEndpoint identity id) := by
  refine only_ite (fun _ => only_throw _) fun _ => only_bind (only_ask (hA _ rfl)) fun deleg => ?_
  cases deleg with
  | none => exact only_throw _
  | some d => exact only_bind (only_revoke _ hA) fun _ => only_pure _

end Hill90.Router
