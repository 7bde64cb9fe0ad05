import Hill90.Foundation.Fate
import Hill90.Foundation.Trail
import Hill90.Models.OwnerCache
import Hill90.Router.Creation
import Hill90.Router.Target

/-! # What a child token may be used for

A request with a child token is checked against its delegation and against the policy of the
parent as it is read then, whatever that policy was when the delegation was made.
-/

namespace Hill90.Router

open Chat (Uuid)
open Policies (AgentPolicy)
open Program

abbrev Sightings := List (Store × Said Statement Statement.Rows Failure)

/-- Each statement is answered by the store of its moment; between two of them the store may
become any other. -/
def Witnessed (t : Sightings) (st : Statement) (answer : Except Failure st.Rows) (u : Sightings) : Prop :=
  ∃ s, u = t ++ [(s, ⟨st, answer⟩)] ∧
    ∀ rows, answer = .ok rows → ∃ c s', Statement.run s c st = .ok (rows, s')

def Looked (t : Sightings) (st : Statement) (P : Store → Prop) : Prop :=
  ∃ s rows, (s, ⟨st, .ok rows⟩) ∈ t ∧ P s

def Store.ownPolicy (s : Store) (agentId : String) : Option AgentPolicy :=
  (s.policies.assignedPolicy agentId).map Policies.Policy.extract

def Store.IsFallback (s : Store) (policy : AgentPolicy) : Prop :=
  ∃ order, ((Policies.fetchrow order (s.policies.policies.filter fun p => p.name = "default")).map
    Policies.Policy.extract).getD {} = policy

def Store.HasPolicy (s : Store) (agentId : String) (policy : AgentPolicy) : Prop :=
  s.ownPolicy agentId = some policy ∨ s.ownPolicy agentId = none ∧ s.IsFallback policy

def PolicyRead (t : Sightings) (agentId : String) (policy : AgentPolicy) : Prop :=
  Looked t (.selectAssigned agentId) (fun s => s.ownPolicy agentId = some policy) ∨
    Looked t (.selectAssigned agentId) (fun s => s.ownPolicy agentId = none) ∧
      Looked t .selectDefault fun s => s.IsFallback policy

def RateChecked (t : Sightings) (agentId : String) (scope : Option Uuid) (limit : ℤ) : Prop :=
  Looked t (.countRequests agentId scope) fun s => (s.lastMinute agentId scope).length < limit

def BudgetChecked (t : Sightings) (agentId : String) (scope : Option Uuid) (limit : ℤ) : Prop :=
  Looked t (.sumTokens agentId scope) fun s => s.tokensToday agentId scope < limit

/-- What an enforced request with a child token has been checked against. -/
structure Narrowed (t : Sightings) (agentId : String) (id : Uuid) (model : String)
    (parent : AgentPolicy) (d : Delegation) : Prop where
  policy : PolicyRead t agentId parent
  delegation : Looked t (.selectDelegation id) fun s => s.delegations.get? id = some d
  unrevoked : d.revokedAt = none
  unexpired : Looked t .readClock fun s => ⌊s.now⌋ < d.expiresAt
  delegated : model ∈ d.allowedModels
  allowed : model ∈ parent.allowedModels
  rate : ∀ limit, d.maxRequestsPerMinute = some limit ∨ parent.maxRequestsPerMinute = some limit →
    ∃ least ≤ limit, RateChecked t agentId (some d.id) least
  budget : ∀ limit, d.maxTokensPerDay = some limit ∨ parent.maxTokensPerDay = some limit →
    ∃ least ≤ limit, BudgetChecked t agentId (some d.id) least
  parentRate : ∀ limit, parent.maxRequestsPerMinute = some limit → RateChecked t agentId none limit
  parentBudget : ∀ limit, parent.maxTokensPerDay = some limit → BudgetChecked t agentId none limit

def Forwarding (t : Sightings) : Prop := ∃ x ∈ t, x.2.1.calls = true

variable {cfg : Config} {t u : Sightings} {st : Statement} {answer : Except Failure st.Rows}
  {agentId : String} {id : Uuid} {model : String} {parent : AgentPolicy} {d : Delegation}

theorem Looked.mono {P : Store → Prop} (h : Looked t st P) (htu : t <+: u) : Looked u st P := by
  obtain ⟨s, rows, hmem, hs⟩ := h
  exact ⟨s, rows, htu.subset hmem, hs⟩

theorem PolicyRead.mono (h : PolicyRead t agentId parent) (htu : t <+: u) : PolicyRead u agentId parent :=
  h.imp (fun h => h.mono htu) fun h => ⟨h.1.mono htu, h.2.mono htu⟩

/-- While the policies stay as they are, what is read of them is in force. -/
theorem PolicyRead.stands (h : PolicyRead t agentId parent) {s : Store}
    (hsteady : ∀ x ∈ t, x.1.policies = s.policies) : s.HasPolicy agentId parent := by
  have hown : ∀ own, Looked t (.selectAssigned agentId) (fun s => s.ownPolicy agentId = own) →
      s.ownPolicy agentId = own := by
    rintro own ⟨s', rows, hmem, hs'⟩
    rwa [Store.ownPolicy, ← hsteady _ hmem]
  obtain h | ⟨hnone, s', rows, hmem, order, hs'⟩ := h
  · exact .inl (hown _ h)
  · exact .inr ⟨hown _ hnone, order, by rw [← hsteady _ hmem]; exact hs'⟩

theorem Narrowed.mono (h : Narrowed t agentId id model parent d) (htu : t <+: u) :
    Narrowed u agentId id model parent d where
  policy := h.policy.mono htu
  delegation := h.delegation.mono htu
  unrevoked := h.unrevoked
  unexpired := h.unexpired.mono htu
  delegated := h.delegated
  allowed := h.allowed
  rate limit hlimit := by
    obtain ⟨least, hle, hchecked⟩ := h.rate limit hlimit
    exact ⟨least, hle, hchecked.mono htu⟩
  budget limit hlimit := by
    obtain ⟨least, hle, hchecked⟩ := h.budget limit hlimit
    exact ⟨least, hle, hchecked.mono htu⟩
  parentRate limit hlimit := (h.parentRate limit hlimit).mono htu
  parentBudget limit hlimit := (h.parentBudget limit hlimit).mono htu

theorem prefix_of_witnessed (h : Witnessed t st answer u) : t <+: u := by
  obtain ⟨s, rfl, _⟩ := h
  exact List.prefix_append _ _

theorem looked_of_witnessed {rows : st.Rows} (h : Witnessed t st (.ok rows) u) {P : Store → Prop}
    (hP : ∀ s c s', Statement.run s c st = .ok (rows, s') → P s) : Looked u st P := by
  obtain ⟨s, rfl, hrun⟩ := h
  obtain ⟨c, s', heff⟩ := hrun rows rfl
  exact ⟨s, rows, by simp, hP s c s' heff⟩

/-- The limit for a delegation is the smaller of the two that there are. -/
theorem minNonNull_le {a b : Option ℤ} {limit : ℤ} (h : b = some limit ∨ a = some limit) :
    ∃ least, minNonNull a b = some least ∧ least ≤ limit := by
  cases a with
  | none =>
    obtain rfl | h := h
    · exact ⟨limit, rfl, le_rfl⟩
    · cases h
  | some x =>
    cases b with
    | none =>
      obtain h | h := h
      · cases h
      · exact ⟨x, rfl, le_of_eq (Option.some.inj h)⟩
    | some y =>
      refine ⟨min x y, rfl, ?_⟩
      obtain h | h := h
      · exact (min_le_right x y).trans_eq (Option.some.inj h)
      · exact (min_le_left x y).trans_eq (Option.some.inj h)

/-! ## The checks -/

/-- A check that denies nothing has found what it looks for. -/
def Passes (check : Handler (Option Response)) (fact : Sightings → Prop) : Prop :=
  ∀ t, Ensures Witnessed check (fun denial u => t <+: u ∧ (denial = none → fact u)) (fun _ u => t <+: u) t

theorem prefix_run {α : Type} (p : Handler α) (t : Sightings) :
    Ensures Witnessed p (fun _ u => t <+: u) (fun _ u => t <+: u) t := by
  have hstep : ∀ (p : Handler α) u, t <+: u →
      Ensures Witnessed p (fun _ u => t <+: u) (fun _ u => t <+: u) u := by
    intro p
    induction p with
    | reply a => exact fun u hu => hu
    | raise e => exact fun u hu => hu
    | await s k r ihk ihr =>
      exact fun u hu => ⟨fun rows v hv => ihk rows v (hu.trans (prefix_of_witnessed hv)),
        fun e v hv => ihr e v (hu.trans (prefix_of_witnessed hv))⟩
  exact hstep p t List.prefix_rfl

theorem passes_rate (q : Attempt) (limit : Option ℤ) (scope : Option Uuid) (message : String) :
    Passes (enforceRate q limit scope message)
      fun u => ∀ x, limit = some x → RateChecked u q.agentId scope x := by
  intro t
  cases limit with
  | none => exact ⟨List.prefix_rfl, fun _ x hx => by cases hx⟩
  | some maxRpm =>
    refine ⟨fun rows u hu => ?_, fun e u hu => prefix_of_witnessed hu⟩
    have hpre := prefix_of_witnessed hu
    refine ensures_ite (fun hallowed => ⟨hpre, fun _ x hx => ?_⟩) fun _ => ?_
    · cases hx
      refine looked_of_witnessed hu fun s c s' heff => ?_
      cases heff
      simpa using hallowed
    · refine ensures_then (fun _ v => u <+: v) ((prefix_run _ u).mono (fun _ _ h => h)
        fun _ _ h => hpre.trans h) fun _ v hv => ?_
      exact ⟨hpre.trans hv, fun h => by cases h⟩

theorem passes_budget (q : Attempt) (limit : Option ℤ) (scope : Option Uuid) (message : String) :
    Passes (enforceBudget q limit scope message)
      fun u => ∀ x, limit = some x → BudgetChecked u q.agentId scope x := by
  intro t
  cases limit with
  | none => exact ⟨List.prefix_rfl, fun _ x hx => by cases hx⟩
  | some maxTokens =>
    refine ⟨fun rows u hu => ?_, fun e u hu => prefix_of_witnessed hu⟩
    have hpre := prefix_of_witnessed hu
    refine ensures_ite (fun hallowed => ⟨hpre, fun _ x hx => ?_⟩) fun _ => ?_
    · cases hx
      refine looked_of_witnessed hu fun s c s' heff => ?_
      cases heff
      simpa using hallowed
    · refine ensures_then (fun _ v => u <+: v) ((prefix_run _ u).mono (fun _ _ h => h)
        fun _ _ h => hpre.trans h) fun _ v hv => ?_
      exact ⟨hpre.trans hv, fun h => by cases h⟩

theorem passes_cons {check : Handler (Option Response)} {checks : List (Handler (Option Response))}
    {fact rest : Sightings → Prop} (hcheck : Passes check fact) (hchecks : Passes (firstDenial checks) rest)
    (hmono : ∀ t u, t <+: u → fact t → fact u) :
    Passes (firstDenial (check :: checks)) fun u => fact u ∧ rest u := by
  intro t
  refine ensures_then _ (hcheck t) fun denial u hu => ?_
  cases denial with
  | some r => exact ⟨hu.1, fun h => by cases h⟩
  | none =>
    refine (hchecks u).mono (fun denial v hv => ⟨hu.1.trans hv.1, fun hnone => ?_⟩)
      fun _ v hv => hu.1.trans hv
    exact ⟨hmono u v hv.1 (hu.2 rfl), hv.2 hnone⟩

theorem RateChecked.mono {scope : Option Uuid} {limit : ℤ} (h : RateChecked t agentId scope limit)
    (htu : t <+: u) : RateChecked u agentId scope limit := Looked.mono h htu

theorem BudgetChecked.mono {scope : Option Uuid} {limit : ℤ} (h : BudgetChecked t agentId scope limit)
    (htu : t <+: u) : BudgetChecked u agentId scope limit := Looked.mono h htu

theorem passes_checks (q : Attempt) (effective : EffectivePolicy) (policy : AgentPolicy) :
    Passes (firstDenial (delegationChecks q effective ++ agentChecks q policy)) fun u =>
      (∀ x, effective.maxRequestsPerMinute = some x →
        RateChecked u q.agentId (some effective.delegationId) x) ∧
      (∀ x, effective.maxTokensPerDay = some x →
        BudgetChecked u q.agentId (some effective.delegationId) x) ∧
      (∀ x, policy.maxRequestsPerMinute = some x → RateChecked u q.agentId none x) ∧
      (∀ x, policy.maxTokensPerDay = some x → BudgetChecked u q.agentId none x) ∧ True := by
  have hrate : ∀ (limit : Option ℤ) (scope : Option Uuid) t u, t <+: u →
      (∀ x, limit = some x → RateChecked t q.agentId scope x) →
      ∀ x, limit = some x → RateChecked u q.agentId scope x :=
    fun limit scope t u htu h x hx => (h x hx).mono htu
  have hbudget : ∀ (limit : Option ℤ) (scope : Option Uuid) t u, t <+: u →
      (∀ x, limit = some x → BudgetChecked t q.agentId scope x) →
      ∀ x, limit = some x → BudgetChecked u q.agentId scope x :=
    fun limit scope t u htu h x hx => (h x hx).mono htu
  refine passes_cons (passes_rate q _ _ _) ?_ (hrate _ _)
  refine passes_cons (passes_budget q _ _ _) ?_ (hbudget _ _)
  refine passes_cons (passes_rate q _ _ _) ?_ (hrate _ _)
  refine passes_cons (passes_budget q _ _ _) ?_ (hbudget _ _)
  exact fun t => ⟨List.prefix_rfl, fun _ => trivial⟩

theorem narrowed_enforceDelegation (q : Attempt) (policy : AgentPolicy) (id : Uuid)
    (hpolicy : PolicyRead t q.agentId policy) :
    Ensures Witnessed (enforceDelegation q policy id)
      (fun enforced u => ∀ q', enforced = .ok q' → q'.resolvedModel = q.resolvedModel ∧
        ∃ d, Narrowed u q.agentId id q.resolvedModel policy d) (fun _ _ => True) t := by
  refine ensures_ask (fun deleg t₁ h₁ => ?_) fun _ _ _ => trivial
  cases deleg with
  | none => trivial
  | some d =>
    have hdelegation : Looked t₁ (.selectDelegation id) fun s => s.delegations.get? id = some d := by
      refine looked_of_witnessed h₁ fun s c s' heff => ?_
      exact (Prod.mk.inj (Except.ok.inj heff)).1
    refine ensures_ite (fun _ => trivial) fun hrevoked => ?_
    refine ensures_ask (fun now t₂ h₂ => ?_) fun _ _ _ => trivial
    refine ensures_ite (fun _ => trivial) fun hexpires => ?_
    have hunexpired : Looked t₂ .readClock fun s => ⌊s.now⌋ < d.expiresAt := by
      refine looked_of_witnessed h₂ fun s c s' heff => ?_
      cases heff
      exact not_le.mp hexpires
    refine ensures_ite (fun hmodel => ?_) fun _ => ?_
    · refine ensures_then _ ((passes_checks _ _ policy t₂).mono (fun _ _ h => h) fun _ _ _ => trivial)
        fun denial u hu => ?_
      cases denial with
      | some r => exact fun q' hq' => by cases hq'
      | none =>
        intro q' hq'
        cases hq'
        obtain ⟨hrate, hbudget, hparentRate, hparentBudget, _⟩ := hu.2 rfl
        have h₁u := (prefix_of_witnessed h₂).trans hu.1
        have hmem := List.mem_filter.mp hmodel
        refine ⟨rfl, d, hpolicy.mono ((prefix_of_witnessed h₁).trans h₁u), hdelegation.mono h₁u,
          by simpa using hrevoked, hunexpired.mono hu.1, hmem.1, by simpa using hmem.2,
          fun limit hlimit => ?_, fun limit hlimit => ?_, hparentRate, hparentBudget⟩
        · obtain ⟨least, hleast, hle⟩ := minNonNull_le hlimit
          exact ⟨least, hle, hrate least hleast⟩
        · obtain ⟨least, hleast, hle⟩ := minNonNull_le hlimit
          exact ⟨least, hle, hbudget least hleast⟩
    · exact ensures_then (fun _ _ => True) ((prefix_run _ t₂).mono (fun _ _ _ => trivial)
        fun _ _ _ => trivial) fun _ _ _ => trivial

theorem policyRead_resolve (agentId : String) :
    Ensures Witnessed (resolveAgentPolicy agentId) (fun policy u => PolicyRead u agentId policy)
      (fun _ _ => True) t := by
  refine ensures_ask (fun own t₁ h₁ => ?_) fun _ _ _ => trivial
  have hown : Looked t₁ (.selectAssigned agentId) fun s => s.ownPolicy agentId = own := by
    refine looked_of_witnessed h₁ fun s c s' heff => ?_
    exact (Prod.mk.inj (Except.ok.inj heff)).1
  cases own with
  | some p => exact .inl hown
  | none =>
    refine ensures_ask (fun fallback t₂ h₂ => ?_) fun _ _ _ => trivial
    refine .inr ⟨hown.mono (prefix_of_witnessed h₂), looked_of_witnessed h₂ fun s c s' heff => ?_⟩
    exact ⟨c.order, congrArg (·.getD {}) (Prod.mk.inj (Except.ok.inj heff)).1⟩

theorem narrowed_enforcePolicy {identity : Payload} (hchild : identity.delegationId = some id)
    (requested requestType : String) :
    Ensures Witnessed (enforcePolicy identity requested requestType)
      (fun enforced u => ∀ q, enforced = .ok q → ∃ parent d,
        q.resolvedModel = resolveAlias requested parent ∧
          Narrowed u identity.sub id (resolveAlias requested parent) parent d) (fun _ _ => True) t := by
  unfold enforcePolicy
  refine ensures_then _ (policyRead_resolve identity.sub) fun parent u hu => ?_
  rw [hchild]
  refine (narrowed_enforceDelegation _ parent id hu).mono (fun enforced v hv q hq => ?_) fun _ _ _ => trivial
  obtain ⟨hmodel, d, hnarrowed⟩ := hv q hq
  exact ⟨parent, d, hmodel, hnarrowed⟩

/-! ## The request -/

def Requests (body : Body) (requested : String) : Prop :=
  body "model" = some (.text requested) ∨ body "model" = none ∧ requested = ""

def Resolving (model : String) (t : Sightings) : Prop :=
  ∀ x ∈ t, ∀ name, x.2.1.looksUp = some name → name = model

/-- What a forwarded request with a child token has been checked against. -/
def Narrow (req : ApiRequest) (id : Uuid) (t : Sightings) : Prop :=
  Forwarding t → ∃ requested parent d, Requests req.body requested ∧
    Narrowed t req.identity.sub id (resolveAlias requested parent) parent d ∧
      Resolving (resolveAlias requested parent) t

structure Enforcing (t : Sightings) : Prop where
  unsent : ¬Forwarding t
  unresolved : ∀ x ∈ t, x.2.1.looksUp = none

theorem Enforcing.step (h : Enforcing t) (hst : st.enforces = true) (hstep : Witnessed t st answer u) :
    Enforcing u := by
  obtain ⟨s, rfl, _⟩ := hstep
  refine ⟨?_, fun x hx => ?_⟩
  · rintro ⟨x, hx, hcalls⟩
    obtain hx | hx := List.mem_append.mp hx
    · exact h.unsent ⟨x, hx, hcalls⟩
    · cases List.mem_singleton.mp hx
      cases st <;> first | (cases hcalls; done) | cases hst
  · obtain hx | hx := List.mem_append.mp hx
    · exact h.unresolved x hx
    · cases List.mem_singleton.mp hx
      cases st <;> first | rfl | cases hst

theorem narrow_of_enforcing {req : ApiRequest} (h : Enforcing t) : Narrow req id t :=
  fun hsent => absurd hsent h.unsent

theorem requests_of_requestedModel (body : Body) :
    Ensures Witnessed (requestedModel body) (fun requested u => u = t ∧ Requests body requested)
      (fun _ u => u = t) t := by
  unfold requestedModel
  split
  · exact ⟨rfl, .inr ⟨‹_›, rfl⟩⟩
  · exact ⟨rfl, .inl ‹_›⟩
  · rfl

/-- What follows the enforcement looks up its model only, and unlearns nothing. -/
theorem narrow_of_rest {α : Type} {p : Handler α} {req : ApiRequest} {requested : String}
    (hreq : Requests req.body requested) {parent : AgentPolicy} {d : Delegation}
    (hnarrowed : Narrowed t req.identity.sub id (resolveAlias requested parent) parent d)
    (hresolving : Resolving (resolveAlias requested parent) t)
    (hp : Only (fun st => ∀ name, st.looksUp = some name → name = resolveAlias requested parent) p) :
    Ensures Witnessed p (fun _ => Narrow req id) (fun _ => Narrow req id) t := by
  have hkeeps : Ensures Witnessed p
      (fun _ u => t <+: u ∧ Resolving (resolveAlias requested parent) u)
      (fun _ u => t <+: u ∧ Resolving (resolveAlias requested parent) u) t := by
    refine hp.ensures (fun v st answer w hv hst hstep => ?_) ⟨List.prefix_rfl, hresolving⟩
    refine ⟨hv.1.trans (prefix_of_witnessed hstep), fun x hx => ?_⟩
    obtain ⟨s, rfl, _⟩ := hstep
    obtain hx | hx := List.mem_append.mp hx
    · exact hv.2 x hx
    · cases List.mem_singleton.mp hx
      exact hst
  have hnarrow : ∀ u, t <+: u ∧ Resolving (resolveAlias requested parent) u → Narrow req id u :=
    fun u hu _ => ⟨requested, parent, d, hreq, hnarrowed.mono hu.1, hu.2⟩
  exact hkeeps.mono (fun _ => hnarrow) fun _ => hnarrow

theorem narrow_endpoint {req : ApiRequest} {requestType : String}
    (hchild : req.identity.delegationId = some id) {next : Attempt → Resolved → Handler Response}
    (hnext : ∀ q r, Only (fun st => st.Forwards r) (next q r)) (ht : Enforcing t) :
    Ensures Witnessed (do
      let requested ← requestedModel req.body
      let enforced ← enforcePolicy req.identity requested requestType
      match enforced with
      | .error denial => pure denial
      | .ok q => do
        let body := req.body.set "model" (.text q.resolvedModel)
        let r ← resolveByok cfg q.agentId q.resolvedModel body req.taskType
        if !cfg.httpClient then throw (.http 503 "HTTP client not initialized")
        else next q r) (fun _ => Narrow req id) (fun _ => Narrow req id) t := by
  refine ensures_then _ ((requests_of_requestedModel req.body).mono (fun _ _ h => h) ?_)
    fun requested u hu => ?_
  · rintro e u rfl
    exact narrow_of_enforcing ht
  · obtain ⟨rfl, hreq⟩ := hu
    have henforced := ((only_enforcePolicy req.identity requested requestType fun _ hst => hst).ensures
      (P := Enforcing) (fun t st answer v ht hst hstep => ht.step hst hstep) ht).and
      (narrowed_enforcePolicy hchild requested requestType)
    refine ensures_then _ (henforced.mono (fun _ _ h => h) fun _ _ h => narrow_of_enforcing h.1)
      fun enforced v hv => ?_
    cases enforced with
    | error denial => exact narrow_of_enforcing hv.1
    | ok q =>
      obtain ⟨parent, d, hmodel, hnarrowed⟩ := hv.2 q rfl
      have hresolving : Resolving (resolveAlias requested parent) v := by
        intro x hx name hname
        rw [hv.1.unresolved x hx] at hname
        cases hname
      refine narrow_of_rest hreq hnarrowed hresolving ?_
      dsimp only
      refine only_bind ?_ fun r => only_ite (fun _ => only_throw _) fun _ => (hnext q r).mono ?_
      · refine only_resolveByok_of cfg _ _ _ _ fun st hst => ?_
        rw [← hmodel]
        exact hst.2
      · rintro st (hst | ⟨_, _, rfl⟩ | ⟨_, rfl⟩) name hname
        · cases st <;> first | (cases hname; done) | cases hst
        · cases hname
        · cases hname

/-- A request with a child token that is forwarded has been checked against its delegation and the
policy of the parent as they were when they were read, which is the policy in force if no policy
changes meanwhile: the model it resolves to is allowed by both, the delegation was in force, and the
requests and the tokens so far were below limits no larger than those of either. -/
theorem child_narrowed {door : ApiRequest → Handler Response} (hdoor : door ∈ forwarding cfg)
    {req : ApiRequest} (hchild : req.identity.delegationId = some id) {result : Except Failure Response}
    (h : Runs Witnessed (door req) [] result t) (hsent : Forwarding t) :
    ∃ requested parent d, Requests req.body requested ∧
      Narrowed t req.identity.sub id (resolveAlias requested parent) parent d ∧
        Resolving (resolveAlias requested parent) t ∧
          ∀ s : Store, (∀ x ∈ t, x.1.policies = s.policies) → s.HasPolicy req.identity.sub parent := by
  have hnil : Enforcing [] := ⟨by simp [Forwarding], by simp⟩
  have hends : Ensures Witnessed (door req) (fun _ => Narrow req id) (fun _ => Narrow req id) [] := by
    simp only [forwarding, List.mem_cons, List.not_mem_nil, or_false] at hdoor
    obtain rfl | rfl := hdoor
    · exact narrow_endpoint hchild (fun q r => only_ite
        (fun _ => only_handleStreaming q r fun _ hst => hst)
        fun _ => only_proxy .chat q r fun _ hst => hst) hnil
    · exact narrow_endpoint hchild (fun q r => only_proxy .embeddings q r fun _ hst => hst) hnil
  have hnarrow : Narrow req id t := by
    cases result with
    | ok a => exact (hends.of_runs h).1 a rfl
    | error e => exact (hends.of_runs h).2 e rfl
  obtain ⟨requested, parent, d, hrequested, hnarrowed, hresolving⟩ := hnarrow hsent
  exact ⟨requested, parent, d, hrequested, hnarrowed, hresolving, fun s => hnarrowed.policy.stands⟩

theorem forwarded_run {s s' : Store} {c : Choice} {rows : st.Rows}
    (h : Statement.run s c st = .ok (rows, s')) : s'.forwarded = s.forwarded ∨ st.calls = true := by
  cases st with
  | forward | openStream => exact .inr rfl
  | insertDelegation d =>
    simp only [Statement.run] at h
    split at h
    · cases h
      exact .inl rfl
    · cases h
  | _ =>
    cases h
    exact .inl rfl

/-- The run of a program on its own, every statement answered, is among those that are witnessed. -/
theorem witnessed_alone {α : Type} (p : Handler α) (t : Sightings) (s : Store) :
    ∃ u, Runs Witnessed p t (p.against Statement.run (fun _ => .answered {}) s).1 u ∧ t <+: u ∧
      ((p.against Statement.run (fun _ => .answered {}) s).2.forwarded = s.forwarded ∨
        Forwarding u) := by
  induction p generalizing t s with
  | reply a => exact ⟨t, .reply a t, List.prefix_rfl, .inl rfl⟩
  | raise e => exact ⟨t, .raise e t, List.prefix_rfl, .inl rfl⟩
  | await st k r ihk ihr =>
    rw [against, Outcome.settle]
    cases heff : Statement.run s {} st with
    | error e =>
      obtain ⟨u, hrun, hpre, hsent⟩ := ihr e (t ++ [(s, ⟨st, .error e⟩)]) s
      exact ⟨u, .rejected ⟨s, rfl, fun _ h => by cases h⟩ hrun, (List.prefix_append _ _).trans hpre, hsent⟩
    | ok result =>
      obtain ⟨rows, s'⟩ := result
      obtain ⟨u, hrun, hpre, hsent⟩ := ihk rows (t ++ [(s, ⟨st, .ok rows⟩)]) s'
      have hstep : Witnessed t st (.ok rows) (t ++ [(s, ⟨st, .ok rows⟩)]) := by
        refine ⟨s, rfl, fun rows' hrows' => ?_⟩
        cases hrows'
        exact ⟨{}, s', heff⟩
      refine ⟨u, .answered hstep hrun, (List.prefix_append _ _).trans hpre, ?_⟩
      obtain hcalls | hcalls := forwarded_run heff
      · rw [← hcalls]
        exact hsent
      · exact .inr ⟨(s, ⟨st, .ok rows⟩), hpre.subset (by simp), hcalls⟩

def childDelegation : Delegation where
  id := 0
  parentAgentId := "scout"
  parentJti := "a1"
  childJti := "b1"
  childLabel := "helper"
  allowedModels := ["gpt"]
  maxRequestsPerMinute := some 2
  maxTokensPerDay := none
  expiresAt := 3600
  createdAt := 0

def childStore : Store :=
  { onePolicy { scoutPolicy with maxRequestsPerMinute := some 5 } with
    catalog := Models.OwnerCache.annCatalog
    owners := fun _ => some "ann"
    delegations := ⟨[childDelegation], List.nodup_singleton _⟩ }

def childRequest : ApiRequest where
  identity := { sub := "scout", exp := 3600, iat := 0, jti := "b1", delegationId := some 0 }
  body := fun member => if member = "model" then some (.text "gpt") else none

theorem child_narrowed_helper : ∃ result t, Runs Witnessed
    (embeddings { decrypt := fun _ _ => some "sk-secret" } childRequest) [] result t ∧
    ∃ requested parent d, Requests childRequest.body requested ∧
      Narrowed t "scout" 0 (resolveAlias requested parent) parent d ∧
        Resolving (resolveAlias requested parent) t ∧
          ∀ s : Store, (∀ x ∈ t, x.1.policies = s.policies) → s.HasPolicy "scout" parent := by
  obtain ⟨t, hrun, _, hsent⟩ := witnessed_alone
    (embeddings { decrypt := fun _ _ => some "sk-secret" } childRequest) [] childStore
  have hforwarding : Forwarding t := hsent.resolve_left (by decide +kernel)
  exact ⟨_, t, hrun, child_narrowed (List.mem_cons_of_mem _ List.mem_cons_self) rfl hrun hforwarding⟩

end Hill90.Router
