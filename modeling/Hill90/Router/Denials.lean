import Hill90.Foundation.Serial
import Hill90.Router.Rate
import Hill90.Router.Waiting

/-! # Requests that are denied and what is counted of them

A request that is never forwarded leaves at most a row of `model_usage`, and the limits count a row
by its status.  The row of a request that its delegation refuses for its model counts as well.
-/

namespace Hill90.Router

open Chat (Uuid)
open Policies (AgentPolicy)
open Program

def countedRows (rows : List UsageRow) : List UsageRow := rows.filter fun r => r.usage.status.counted

/-- Two stores that differ in rows only which no limit counts. -/
structure Similar (s t : Store) : Prop where
  same : t = { s with usage := t.usage }
  counted : countedRows t.usage = countedRows s.usage

section Similar

variable {s s' t u : Store} {c : Choice} {st : Statement} {agentId : String} {scope : Option Uuid}

theorem Similar.refl (s : Store) : Similar s s := ⟨rfl, rfl⟩

theorem Similar.symm (h : Similar s t) : Similar t s := by
  obtain ⟨hsame, hcounted⟩ := h
  rw [hsame]
  exact ⟨rfl, hcounted.symm⟩

theorem Similar.trans (h : Similar s t) (h' : Similar t u) : Similar s u :=
  ⟨by rw [h'.same, h.same], h'.counted.trans h.counted⟩

theorem counted_of_countsFor {r : UsageRow} (h : r.countsFor agentId scope = true) :
    r.usage.status.counted = true := by
  simp only [UsageRow.countsFor, Bool.and_eq_true] at h
  exact h.1.2

theorem filter_countedRows (p : UsageRow → Bool) (rows : List UsageRow) :
    (countedRows rows).filter (fun r => r.countsFor agentId scope && p r) =
      rows.filter fun r => r.countsFor agentId scope && p r := by
  rw [countedRows, List.filter_filter]
  refine List.filter_congr fun r _ => ?_
  by_cases hr : r.countsFor agentId scope = true
  · simp [hr, counted_of_countsFor hr]
  · simp [hr]

theorem Similar.now (h : Similar s t) : t.now = s.now := by rw [h.same]

theorem Similar.lastMinute (h : Similar s t) :
    t.lastMinute agentId scope = s.lastMinute agentId scope := by
  unfold Store.lastMinute
  rw [← filter_countedRows, h.counted, filter_countedRows, h.now]

theorem Similar.oldestAge (h : Similar s t) (rows : List UsageRow) : t.oldestAge rows = s.oldestAge rows := by
  unfold Store.oldestAge
  rw [h.now]

theorem Similar.tokensToday (h : Similar s t) :
    t.tokensToday agentId scope = s.tokensToday agentId scope := by
  unfold Store.tokensToday Store.midnight
  rw [← filter_countedRows, h.counted, filter_countedRows, h.now]

/-- The checks do not tell similar stores apart. -/
theorem Similar.rateLimit (h : Similar s t) (maxRpm : ℤ) :
    t.rateLimit agentId maxRpm scope = s.rateLimit agentId maxRpm scope := by
  simp only [Store.rateLimit, h.lastMinute, h.oldestAge]

theorem Similar.tokenBudget (h : Similar s t) (maxTokens : ℤ) :
    t.tokenBudget agentId maxTokens scope = s.tokenBudget agentId maxTokens scope := by
  simp only [Store.tokenBudget, h.tokensToday]

/-- A row that does not count leaves the store similar. -/
theorem similar_insert {row : Usage} (h : row.status.counted = false) :
    Similar s { s with usage := ⟨row, s.now⟩ :: s.usage } :=
  ⟨rfl, List.filter_cons_of_neg (by simp [h])⟩

/-- A statement is answered alike in similar stores, and leaves them similar. -/
theorem Similar.run (h : Similar s t) :
    (∀ rows s', st.run s c = .ok (rows, s') → ∃ t', st.run t c = .ok (rows, t') ∧ Similar s' t') ∧
      ∀ e, st.run s c = .error e → st.run t c = .error e := by
  obtain ⟨hsame, hcounted⟩ := h
  generalize t.usage = usage at hsame hcounted
  subst hsame
  have hsim : Similar s { s with usage := usage } := ⟨rfl, hcounted⟩
  cases st with
  | countRequests agentId scope =>
    refine ⟨fun rows s' hrun => ?_, fun e hrun => by cases hrun⟩
    cases hrun
    refine ⟨_, ?_, hsim⟩
    simp only [Statement.run, hsim.lastMinute, hsim.oldestAge]
  | sumTokens agentId scope =>
    refine ⟨fun rows s' hrun => ?_, fun e hrun => by cases hrun⟩
    cases hrun
    refine ⟨_, ?_, hsim⟩
    simp only [Statement.run, hsim.tokensToday]
  | insertUsage u =>
    refine ⟨fun rows s' hrun => ?_, fun e hrun => by cases hrun⟩
    cases hrun
    refine ⟨_, rfl, rfl, ?_⟩
    simp only [countedRows, List.filter_cons] at hcounted ⊢
    rw [hcounted]
  | insertDelegation d =>
    simp only [Statement.run]
    split
    · refine ⟨fun rows s' hrun => ?_, fun e hrun => by cases hrun⟩
      cases hrun
      exact ⟨_, rfl, rfl, hcounted⟩
    · refine ⟨fun rows s' hrun => (by cases hrun), fun e hrun => ?_⟩
      cases hrun
      rfl
  | _ =>
    refine ⟨fun rows s' hrun => ?_, fun e hrun => by cases hrun⟩
    cases hrun
    exact ⟨_, rfl, rfl, hcounted⟩

/-- A handler plays alike against similar stores. -/
theorem Similar.play {α : Type} (rest : Choice) (p : Handler α)
    (trace : List (Event Statement Statement.Rows)) (h : Similar s t) (pattern : List (Outcome Choice Failure)) :
    (p.play Statement.run rest ⟨trace, t⟩ pattern).1.trace =
        (p.play Statement.run rest ⟨trace, s⟩ pattern).1.trace ∧
      (p.play Statement.run rest ⟨trace, t⟩ pattern).2 = (p.play Statement.run rest ⟨trace, s⟩ pattern).2 ∧
        Similar (p.play Statement.run rest ⟨trace, s⟩ pattern).1.store
          (p.play Statement.run rest ⟨trace, t⟩ pattern).1.store := by
  induction p generalizing s t trace pattern with
  | reply a => exact ⟨rfl, rfl, h⟩
  | raise e => exact ⟨rfl, rfl, h⟩
  | await st k r ihk ihr =>
    rw [play, play]
    cases pattern.headD (.answered rest) with
    | failed e => exact ihr e _ h _
    | answered c =>
      cases hrun : st.run s c with
      | ok answer =>
        obtain ⟨t', ht, hsim⟩ := h.run.1 _ _ hrun
        simp only [hrun, ht]
        exact ihk _ _ hsim _
      | error e =>
        simp only [hrun, h.run.2 e hrun]
        exact ihr e _ h _
    | lost c e =>
      cases hrun : st.run s c with
      | ok answer =>
        obtain ⟨t', ht, hsim⟩ := h.run.1 _ _ hrun
        simp only [hrun, ht]
        exact ihr e _ hsim _
      | error e' =>
        simp only [hrun, h.run.2 e' hrun]
        exact ihr e' _ h _

end Similar

/-! ## What a request leaves that is not forwarded -/

abbrev Played := Log Statement Statement.Rows Store

/-- Any answer and any failure of a statement. -/
abbrev Anyhow : Played → (st : Statement) → Option st.Rows → Played → Prop :=
  Log.Step (ε := Failure) Statement.run (fun _ => True) True

def Called (t : Played) : Prop := ∃ st ∈ t.trace.map Event.statement, st.calls = true

def Store.Strays (s : Store) (req : ApiRequest) : Prop :=
  ∃ requested policy id d, Requests req.body requested ∧ s.HasPolicy req.identity.sub policy ∧
    req.identity.delegationId = some id ∧ s.delegations.get? id = some d ∧ d.revokedAt = none ∧
      ⌊s.now⌋ < d.expiresAt ∧
        resolveAlias requested policy ∉ (computeEffectivePolicy policy d).allowedModels

section Free

variable {cfg : Config} {s : Store} {t u : Played} {st : Statement} {answer : Option st.Rows}

def Statement.reads : Statement → Bool
  | readClock | selectAssigned _ | selectDefault | selectDelegation _ | countRequests .. | sumTokens ..
  | agentOwner _ | userModel .. | routerModel .. | routeCredentials .. | platformModel _ => true
  | _ => false

theorem store_of_reads (hst : st.reads = true) (h : Anyhow t st answer u) : u.store = t.store := by
  cases h with
  | answered _ heff | lost _ _ heff => cases st <;> first | (cases heff; rfl) | cases hst
  | refused | failed => rfl

theorem reads_of_resolves {st : Statement} (h : st.resolves = true) : st.reads = true := by
  cases st <;> first | rfl | cases h

theorem called_steady {α : Type} (p : Handler α) (h : Called t) :
    p.Always Anyhow (fun _ => Called) (fun _ => Called) t := by
  refine keeps_of_steady (fun t st answer u ht hstep => ?_) p t h
  obtain ⟨st', hst', hcalls⟩ := ht
  exact ⟨st', Log.handed_steady hstep hst', hcalls⟩

/-- A request that was not forwarded has left the store similar. -/
def Free (s : Store) (t : Played) : Prop := Called t ∨ Similar s t.store

def Spends (s : Store) (check : Handler (Option Response)) : Prop :=
  ∀ t : Played, t.store = s → check.Always Anyhow
    (fun denial u => Similar s u.store ∧ (denial = none → u.store = s)) (fun _ u => Similar s u.store) t

theorem similar_log {row : Usage} (hrow : row.status.counted = false) (ht : t.store = s) :
    (logUsage row).Always Anyhow (fun _ u => Similar s u.store) (fun _ u => Similar s u.store) t := by
  have hlogged : ∀ answer u, Anyhow t (.insertUsage row) answer u → Similar s u.store := by
    intro answer u hstep
    cases hstep with
    | answered _ heff | lost _ _ heff =>
      cases heff
      rw [← ht]
      exact similar_insert hrow
    | refused | failed => exact ht ▸ Similar.refl _
  refine ⟨fun _ u hu => hlogged _ u hu, fun e u hu => ?_⟩
  exact always_ite (fun _ => hlogged _ u hu) fun _ => hlogged _ u hu

theorem spends_none : Spends s (pure none) := by
  rintro t rfl
  exact ⟨Similar.refl _, fun _ => rfl⟩

theorem spends_log {row : Usage} (hrow : row.status.counted = false) (r : Response) :
    Spends s (logUsage row >>= fun _ => pure (some r)) := fun _ ht =>
  always_then (fun _ u => Similar s u.store) (similar_log hrow ht) fun _ _ h => ⟨h, fun hnone => by cases hnone⟩

theorem spends_ask {st : Statement} {f : st.Rows → Handler (Option Response)} (hst : st.reads = true)
    (hf : ∀ rows, Spends s (f rows)) : Spends s (ask st >>= f) := by
  rintro t rfl
  refine ⟨fun rows u hu => hf rows u (store_of_reads hst hu), fun e u hu => ?_⟩
  exact store_of_reads hst hu ▸ Similar.refl _

theorem spends_ite {c : Prop} [Decidable c] {check : Handler (Option Response)} (h : Spends s check) :
    Spends s (if c then pure none else check) :=
  fun t ht => always_ite (fun _ => spends_none t ht) fun _ => h t ht

theorem spends_enforceRate (q : Attempt) (limit : Option ℤ) (scope : Option Uuid) (message : String) :
    Spends s (enforceRate q limit scope message) := by
  cases limit with
  | none => exact spends_none
  | some maxRpm => exact spends_ask rfl fun rows => spends_ite (spends_log rfl _)

theorem spends_enforceBudget (q : Attempt) (limit : Option ℤ) (scope : Option Uuid) (message : String) :
    Spends s (enforceBudget q limit scope message) := by
  cases limit with
  | none => exact spends_none
  | some maxTokens => exact spends_ask rfl fun rows => spends_ite (spends_log rfl _)

theorem spends_firstDenial {checks : List (Handler (Option Response))}
    (h : ∀ check ∈ checks, Spends s check) : Spends s (firstDenial checks) := by
  induction checks with
  | nil => exact spends_none
  | cons check checks ih =>
    intro t ht
    refine always_then _ (h check (by simp) t ht) fun denial u hu => ?_
    cases denial with
    | none => exact ih (fun c hc => h c (List.mem_cons_of_mem check hc)) u (hu.2 rfl)
    | some r => exact ⟨hu.1, fun hnone => by cases hnone⟩

theorem spends_agentChecks (q : Attempt) (policy : AgentPolicy) :
    ∀ check ∈ agentChecks q policy, Spends s check := by
  intro check hcheck
  simp only [agentChecks, List.mem_cons, List.not_mem_nil, or_false] at hcheck
  obtain rfl | rfl := hcheck
  · exact spends_enforceRate _ _ _ _
  · exact spends_enforceBudget _ _ _ _

theorem spends_delegationChecks (q : Attempt) (effective : EffectivePolicy) :
    ∀ check ∈ delegationChecks q effective, Spends s check := by
  intro check hcheck
  simp only [delegationChecks, List.mem_cons, List.not_mem_nil, or_false] at hcheck
  obtain rfl | rfl := hcheck
  · exact spends_enforceRate _ _ _ _
  · exact spends_enforceBudget _ _ _ _

/-- What is decided of a request: a denial leaves the store similar, an attempt as it was. -/
def Decided (s : Store) (enforced : Except Response Attempt) (u : Played) : Prop :=
  Similar s u.store ∧ ∀ q, enforced = .ok q → u.store = s

theorem decided_checks {q : Attempt} {checks : List (Handler (Option Response))}
    (h : ∀ check ∈ checks, Spends s check) (ht : t.store = s) :
    (firstDenial checks >>= fun denial => (pure (decided q denial) : Handler _)).Always Anyhow (Decided s)
      (fun _ u => Similar s u.store) t := by
  refine always_then _ (spends_firstDenial h t ht) fun denial u hu => ?_
  cases denial with
  | none => exact ⟨hu.1, fun _ _ => hu.2 rfl⟩
  | some r => exact ⟨hu.1, fun q' hq' => by cases hq'⟩

/-- A delegation that is in force allows the model, or the request is not denied for it. -/
theorem decided_enforceDelegation (q : Attempt) (policy : AgentPolicy) (id : Uuid)
    (hallowed : ∀ d, s.delegations.get? id = some d → d.revokedAt = none → ⌊s.now⌋ < d.expiresAt →
      q.resolvedModel ∈ (computeEffectivePolicy policy d).allowedModels) (ht : t.store = s) :
    (enforceDelegation q policy id).Always Anyhow (Decided s) (fun _ u => Similar s u.store) t := by
  subst ht
  have hsimilar : ∀ {u : Played}, u.store = t.store → Similar t.store u.store :=
    fun h => h ▸ Similar.refl _
  refine ⟨fun deleg u hu => ?_, fun e u hu => hsimilar (store_of_reads rfl hu)⟩
  have hstore := store_of_reads rfl hu
  have hdeleg : deleg = t.store.delegations.get? id := by
    cases hu with
    | answered _ heff =>
      cases heff
      rfl
  cases deleg with
  | none => exact hsimilar hstore
  | some d =>
    refine always_ite (fun _ => hsimilar hstore) fun hrevoked => ?_
    refine ⟨fun now v hv => ?_, fun e v hv => hsimilar ((store_of_reads rfl hv).trans hstore)⟩
    have hstore' := (store_of_reads rfl hv).trans hstore
    have hnow : now = ⌊t.store.now⌋ := by
      cases hv with
      | answered _ heff =>
        cases heff
        rw [hstore]
    refine always_ite (fun _ => hsimilar hstore') fun hexpired => ?_
    refine always_ite (fun _ => decided_checks (fun check hcheck => ?_) hstore') fun houtside => ?_
    · obtain h | h := List.mem_append.mp hcheck
      · exact spends_delegationChecks _ _ check h
      · exact spends_agentChecks _ _ check h
    · exact absurd (hallowed d hdeleg.symm (by simpa using hrevoked)
        (by rw [← hnow]; exact not_le.mp hexpired)) houtside

theorem hasPolicy_resolve (agentId : String) (ht : t.store = s) :
    (resolveAgentPolicy agentId).Always Anyhow
      (fun policy u => u.store = s ∧ s.HasPolicy agentId policy) (fun _ u => Similar s u.store) t := by
  subst ht
  refine ⟨fun own u hu => ?_, fun e u hu => store_of_reads rfl hu ▸ Similar.refl _⟩
  have hstore := store_of_reads rfl hu
  have hown : t.store.ownPolicy agentId = own := by
    cases hu with
    | answered _ heff =>
      cases heff
      rfl
  cases own with
  | some p => exact ⟨hstore, .inl hown⟩
  | none =>
    refine ⟨fun fallback v hv => ?_, fun e v hv => (store_of_reads rfl hv).trans hstore ▸ Similar.refl _⟩
    refine ⟨(store_of_reads rfl hv).trans hstore, .inr ⟨hown, ?_⟩⟩
    cases hv with
    | @answered c _ _ _ heff =>
      cases heff
      rw [hstore]
      exact ⟨c.order, rfl⟩

theorem decided_enforcePolicy (req : ApiRequest) (requested requestType : String)
    (hrequested : Requests req.body requested) (hkept : ¬s.Strays req) (ht : t.store = s) :
    (enforcePolicy req.identity requested requestType).Always Anyhow (Decided s)
      (fun _ u => Similar s u.store) t := by
  refine always_then _ (hasPolicy_resolve _ ht) fun policy u ⟨hu, hpolicy⟩ => ?_
  cases hid : req.identity.delegationId with
  | some id =>
    refine decided_enforceDelegation _ policy id (fun d hd hrevoked hunexpired => ?_) hu
    by_contra houtside
    exact hkept ⟨requested, policy, id, d, hrequested, hpolicy, hid, hd, hrevoked, hunexpired, houtside⟩
  | none =>
    exact always_ite (fun _ => decided_checks (spends_agentChecks _ _) hu) fun _ => hu ▸ Similar.refl _

theorem free_endpoint {req : ApiRequest} {requestType : String} {next : Attempt → Resolved → Handler Response}
    (hnext : ∀ q r (t : Played), t.store = s → (next q r).Always Anyhow (fun _ => Free s) (fun _ => Free s) t)
    (hkept : ¬s.Strays req) (ht : t.store = s) :
    Always Anyhow (do
      let requested ← requestedModel req.body
      let enforced ← enforcePolicy req.identity requested requestType
      match enforced with
      | .error denial => pure denial
      | .ok q => do
        let body := req.body.set "model" (.text q.resolvedModel)
        let r ← resolveByok cfg q.agentId q.resolvedModel body req.taskType
        if !cfg.httpClient then throw (.http 503 "HTTP client not initialized")
        else next q r) (fun _ => Free s) (fun _ => Free s) t := by
  have hfree : ∀ {u : Played}, u.store = s → Free s u := fun h => .inr (h ▸ Similar.refl _)
  have hrequested : (requestedModel req.body).Always Anyhow
      (fun requested u => Requests req.body requested ∧ u.store = s) (fun _ => Free s) t := by
    unfold requestedModel
    split
    · exact ⟨.inr ⟨‹_›, rfl⟩, ht⟩
    · exact ⟨.inl ‹_›, ht⟩
    · exact hfree ht
  refine always_then _ hrequested fun requested u ⟨hreq, hu⟩ => ?_
  refine always_then _ ((decided_enforcePolicy req requested requestType hreq hkept hu).mono
    (fun _ _ h => h) fun _ _ h => .inr h) fun enforced v hv => ?_
  cases enforced with
  | error denial => exact .inr hv.1
  | ok q =>
    refine always_then (fun _ w => w.store = s) ?_ fun r w hw => ?_
    · refine ((only_resolveByok cfg _ _ _ _ fun _ => reads_of_resolves).keeps
        (R := Anyhow) (P := fun w => w.store = s) (fun t st answer u ht hst h => ?_) v (hv.2 q rfl)).mono
        (fun _ _ h => h) fun _ _ h => hfree h
      exact (store_of_reads hst h).trans ht
    · exact always_ite (fun _ => hfree hw) fun _ => hnext q r w hw

theorem called_attempt {α : Type} {st : Statement} {f : Except Failure st.Rows → Handler α}
    (hst : st.calls = true) :
    (attempt st >>= f).Always Anyhow (fun _ => Free s) (fun _ => Free s) t := by
  have hcalled : ∀ answer u, Anyhow t st answer u → Called u :=
    fun answer u hu => ⟨st, Log.handed_of_step hu, hst⟩
  exact ⟨fun rows u hu => (called_steady (f (.ok rows)) (hcalled _ u hu)).mono (fun _ _ h => .inl h)
      fun _ _ h => .inl h,
    fun e u hu => (called_steady (f (.error e)) (hcalled _ u hu)).mono (fun _ _ h => .inl h)
      fun _ _ h => .inl h⟩

/-- A request that is not forwarded, and does not stray, is free. -/
theorem free_door {door : ApiRequest → Handler Response} (hdoor : door ∈ forwarding cfg)
    {req : ApiRequest} (hkept : ¬s.Strays req) (ht : t.store = s) :
    (door req).Always Anyhow (fun _ => Free s) (fun _ => Free s) t := by
  simp only [forwarding, List.mem_cons, List.not_mem_nil, or_false] at hdoor
  obtain rfl | rfl := hdoor
  · exact free_endpoint (fun q r t _ => always_ite (fun _ => called_attempt rfl)
      fun _ => called_attempt rfl) hkept ht
  · exact free_endpoint (fun q r t _ => called_attempt rfl) hkept ht

end Free

/-! ## Histories -/

abbrev Visit := Call Choice Failure Request Surroundings

/-- The visits of a history, each with whether it was inserted into it. -/
abbrev History := List (Bool × Visit)

def Request.asks : Request → Option ApiRequest
  | chat req | embeddings req => some req
  | _ => none

def Visit.Strays (s : Store) : Visit → Prop
  | .request q _ => ∃ req, q.asks = some req ∧ s.Strays req
  | .environment _ => False

section Histories

variable (cfg : Config) (rest : Choice)

def Visit.Denied (s : Store) : Visit → Prop
  | .request q pattern => q.asks.isSome ∧ ¬Called ((service cfg).serve rest s q pattern).1
  | .environment _ => False

def Store.next (s : Store) : Visit → Store
  | .request q pattern => ((service cfg).serve rest s q pattern).1.store
  | .environment x => (x.apply s).getD s

def Store.after (s : Store) (history : History) : Store :=
  (history.map Prod.snd).foldl (Store.next cfg rest) s

def Inserts (P : Store → Visit → Prop) : Store → History → Prop
  | _, [] => True
  | s, (inserted, visit) :: history =>
    (inserted = true → P s visit) ∧ Inserts P (s.next cfg rest visit) history

/-- What the history is without the visits that were inserted. -/
def own (history : History) : History := history.filter fun visit => !visit.1

/-- The statements of a visit with what they returned, checks of limits among them, and its reply. -/
def Store.reply (s : Store) : Visit → List (List (Event Statement Statement.Rows) × Except Failure Response)
  | .request q pattern =>
    let served := (service cfg).serve rest s q pattern
    [(served.1.trace, served.2)]
  | .environment _ => []

def Store.replies : Store → History → List (List (Event Statement Statement.Rows) × Except Failure Response)
  | _, [] => []
  | s, (inserted, visit) :: history =>
    (if inserted then [] else s.reply cfg rest visit) ++ (s.next cfg rest visit).replies history

variable {cfg rest} {s t : Store} {visit : Visit} {history : History}

/-- A visit goes alike in similar stores. -/
theorem Similar.next (cfg : Config) (rest : Choice) (visit : Visit) (h : Similar s t) :
    t.reply cfg rest visit = s.reply cfg rest visit ∧
      Similar (s.next cfg rest visit) (t.next cfg rest visit) := by
  cases visit with
  | request q pattern =>
    obtain ⟨htrace, hresult, hsim⟩ := Similar.play rest (q.handler cfg) [] h pattern
    refine ⟨?_, hsim⟩
    simp only [Store.reply, Service.serve]
    exact congrArg (fun x => [x]) (Prod.ext htrace hresult)
  | environment x =>
    refine ⟨rfl, ?_⟩
    rw [h.same]
    cases x with
    | tick d =>
      simp only [Store.next, Surroundings.apply]
      split
      · exact ⟨rfl, h.counted⟩
      · exact ⟨rfl, h.counted⟩
    | rewrite policies catalog owners => exact ⟨rfl, h.counted⟩

theorem similar_of_denied (hdenied : visit.Denied cfg rest s) (hkept : ¬visit.Strays s) :
    Similar s (s.next cfg rest visit) := by
  cases visit with
  | environment x => cases hdenied
  | request q pattern =>
    obtain ⟨hasks, huncalled⟩ := hdenied
    have hfree : ∀ door ∈ forwarding cfg, ∀ req : ApiRequest, ¬s.Strays req →
        ¬Called ((door req).play Statement.run rest ⟨[], s⟩ pattern).1 →
          Similar s ((door req).play Statement.run rest ⟨[], s⟩ pattern).1.store := by
      intro door hdoor req hreq huncalled
      have hallowed : ∀ o ∈ pattern, o.Allowed (fun _ => True) True := by
        intro o _
        cases o
        · exact trivial
        · exact trivial
        · exact ⟨trivial, trivial⟩
      have hended := Always.play Statement.run rest (free_door (t := ⟨[], s⟩) hdoor hreq rfl) trivial pattern
        hallowed
      revert hended huncalled
      generalize (door req).play Statement.run rest ⟨[], s⟩ pattern = ending
      obtain ⟨u, result⟩ := ending
      cases result with
      | ok a => exact fun hun hended => hended.resolve_left hun
      | error e => exact fun hun hended => hended.resolve_left hun
    cases q with
    | chat req => exact hfree _ List.mem_cons_self req (fun h => hkept ⟨req, rfl, h⟩) huncalled
    | embeddings req =>
      exact hfree _ (List.mem_cons_of_mem _ List.mem_cons_self) req (fun h => hkept ⟨req, rfl, h⟩) huncalled
    | _ => cases hasks

/-- The own visits of a history go as they would without the inserted ones. -/
theorem similar_after (h : Similar s t)
    (hinserts : Inserts cfg rest (fun s visit => visit.Denied cfg rest s ∧ ¬visit.Strays s) t history) :
    t.replies cfg rest history = s.replies cfg rest (own history) ∧
      Similar (s.after cfg rest (own history)) (t.after cfg rest history) := by
  induction history generalizing s t with
  | nil => exact ⟨rfl, h⟩
  | cons step history ih =>
    obtain ⟨inserted, visit⟩ := step
    obtain ⟨hvisit, hrest⟩ := hinserts
    cases inserted with
    | true => exact ih (h.trans (similar_of_denied (hvisit rfl).1 (hvisit rfl).2)) hrest
    | false =>
      obtain ⟨hreply, hnext⟩ := Similar.next cfg rest visit h
      obtain ⟨hreplies, hafter⟩ := ih hnext hrest
      refine ⟨?_, hafter⟩
      change t.reply cfg rest visit ++ _ = s.reply cfg rest visit ++ _
      rw [hreply, hreplies]
      rfl

/-- Requests that are denied, and do not stray from their delegation, can be inserted anywhere into a
history: its own requests are checked and answered as they were, and so is every check after it. -/
theorem denials_free
    (h : Inserts cfg rest (fun s visit => visit.Denied cfg rest s ∧ ¬visit.Strays s) s history) :
    s.replies cfg rest history = s.replies cfg rest (own history) ∧
      ∀ (agentId : String) (scope : Option Uuid) (limit : ℤ),
        Handler.answered (checkRateLimit agentId limit scope) (s.after cfg rest history) =
            Handler.answered (checkRateLimit agentId limit scope) (s.after cfg rest (own history)) ∧
          Handler.answered (checkTokenBudget agentId limit scope) (s.after cfg rest history) =
            Handler.answered (checkTokenBudget agentId limit scope) (s.after cfg rest (own history)) := by
  obtain ⟨hreplies, hafter⟩ := similar_after (Similar.refl s) h
  refine ⟨hreplies, fun agentId scope limit => ⟨?_, ?_⟩⟩
  · rw [answered_checkRateLimit, answered_checkRateLimit, hafter.rateLimit]
  · rw [answered_checkTokenBudget, answered_checkTokenBudget, hafter.tokenBudget]

end Histories

/-- A request on the delegation of a child, for this model. -/
def childAsks (model : String) : Visit :=
  .request (.embeddings { childRequest with
    body := fun member => if member = "model" then some (.text model) else none }) []

/-- One request a minute: the second is denied, and logged, between two of the agent's own. -/
def limitedHistory : History :=
  [(false, .request ratedRequest []), (true, .request ratedRequest []),
    (false, .request ratedRequest [])]

theorem denials_free_limited :
    rated.store.replies ratedConfig {} limitedHistory =
        rated.store.replies ratedConfig {} (own limitedHistory) ∧
      ∀ (agentId : String) (scope : Option Uuid) (limit : ℤ),
        Handler.answered (checkRateLimit agentId limit scope)
            (rated.store.after ratedConfig {} limitedHistory) =
            Handler.answered (checkRateLimit agentId limit scope)
              (rated.store.after ratedConfig {} (own limitedHistory)) ∧
          Handler.answered (checkTokenBudget agentId limit scope)
              (rated.store.after ratedConfig {} limitedHistory) =
            Handler.answered (checkTokenBudget agentId limit scope)
              (rated.store.after ratedConfig {} (own limitedHistory)) := by
  refine denials_free ⟨nofun, fun _ => ⟨⟨rfl, ?_⟩, ?_⟩, nofun, trivial⟩
  · unfold Called
    decide +kernel
  · rintro ⟨req, hreq, _, _, id, _, _, _, hid, _⟩
    cases hreq
    cases hid

/-- A child that asks for a model outside of its delegation is denied, and the row of the denial
takes the place of a request. -/
theorem denial_counted :
    ¬∀ (cfg : Config) (rest : Choice) (s : Store) (history : History),
      Inserts cfg rest (fun s visit => visit.Denied cfg rest s) s history →
        ∀ (agentId : String) (scope : Option Uuid) (limit : ℤ),
          Handler.answered (checkRateLimit agentId limit scope) (s.after cfg rest history) =
            Handler.answered (checkRateLimit agentId limit scope) (s.after cfg rest (own history)) := by
  intro h
  have hdenied : Inserts ratedConfig {} (fun s visit => visit.Denied ratedConfig {} s) childStore
      [(true, childAsks "claude")] := by
    refine ⟨fun _ => ⟨rfl, ?_⟩, trivial⟩
    unfold Called
    decide +kernel
  have hsame := h ratedConfig {} childStore _ hdenied "scout" none 1
  simp only [answered_checkRateLimit, Except.ok.injEq] at hsame
  have hallowed := congrArg RateLimitResult.allowed hsame
  revert hallowed
  decide +kernel

end Hill90.Router
