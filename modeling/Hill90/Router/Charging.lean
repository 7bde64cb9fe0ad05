import Hill90.Router.Target

/-! # What a forwarded request is charged

Each `log_usage` that succeeds is a row of `model_usage`.  A request that was forwarded should
have one, under a status that the limits count; what ends it decides whether it does.
-/

namespace Hill90.Router

open Program
open Policies (AgentPolicy)

/-- The answers of a run in which every usage row is written. -/
def Metered (t : Transcript) (st : Statement) (answer : Except Failure st.Rows) (u : Transcript) :
    Prop :=
  Heard t st answer u ∧ ∀ row, st = .insertUsage row → answer.isOk = true

def rowOf : Said Statement Statement.Rows Failure → Option Usage
  | ⟨.insertUsage row, .ok _⟩ => some row
  | _ => none

def charges (t : Transcript) : List Usage := t.filterMap rowOf

def Forwards (t : Transcript) : Prop := ∃ said ∈ t, said.1.calls = true

/-- The ways of coming back after which a forwarded request has no row, or none that counts: a
call to LiteLLM is cancelled, its stream is cancelled, or the response cannot be begun. -/
def severs : Said Statement Statement.Rows Failure → Bool
  | ⟨.forward .., .error e⟩ | ⟨.openStream .., .error e⟩ => !e.isException
  | ⟨.nextChunk, .error e⟩ | ⟨.sendChunk, .error e⟩ => e = .cancelled
  | ⟨.startResponse, .error _⟩ => true
  | _ => false

def Severed (t : Transcript) : Prop := ∃ said ∈ t, severs said = true

def ChargedOnce (t : Transcript) : Prop :=
  Forwards t → ∃ row, charges t = [row] ∧ row.status.counted = true

structure Unsent (t : Transcript) : Prop where
  kept : ¬Forwards t
  whole : ¬Severed t

/-- A request that may be forwarded next. -/
structure Uncharged (t : Transcript) : Prop extends Unsent t where
  blank : charges t = []

/-- A forwarded request with these rows, severed or not. -/
structure Sent (rows : List Usage) (cut : Bool) (t : Transcript) : Prop where
  sent : Forwards t
  rows : charges t = rows
  severed : Severed t ↔ cut = true

variable {cfg : Config} {t u : Transcript} {st : Statement} {answer : Except Failure st.Rows}
  {rows : List Usage} {cut : Bool}

theorem charges_heard (h : Heard t st answer u) :
    charges u = charges t ++ (rowOf ⟨st, answer⟩).toList := by
  rw [h, charges, List.filterMap_append]
  cases hrow : rowOf ⟨st, answer⟩ <;> simp [charges, hrow]

theorem forwards_heard (h : Heard t st answer u) : Forwards u ↔ Forwards t ∨ st.calls = true := by
  rw [h]
  simp [Forwards, or_and_right, exists_or]

theorem severed_heard (h : Heard t st answer u) :
    Severed u ↔ Severed t ∨ severs ⟨st, answer⟩ = true := by
  rw [h]
  simp [Severed, or_and_right, exists_or]

theorem Unsent.chargedOnce (h : Unsent t) : ChargedOnce t ↔ ¬Severed t :=
  iff_of_true (fun hsent => absurd hsent h.kept) h.whole

theorem Sent.uncharged (h : Sent [] true t) : ChargedOnce t ↔ ¬Severed t := by
  refine iff_of_false (fun hcharged => ?_) (not_not.mpr (h.severed.mpr rfl))
  obtain ⟨row, hrow, _⟩ := hcharged h.sent
  rw [h.rows] at hrow
  cases hrow

theorem Sent.charged {row : Usage} (h : Sent [row] cut t) (hcut : row.status.counted = !cut) :
    ChargedOnce t ↔ ¬Severed t := by
  rw [h.severed]
  constructor
  · intro hcharged
    obtain ⟨row', hrow, hcounted⟩ := hcharged h.sent
    rw [h.rows] at hrow
    cases hrow
    rw [hcut] at hcounted
    simpa using hcounted
  · intro hwhole _
    exact ⟨row, h.rows, by rw [hcut]; simpa using hwhole⟩

theorem Unsent.heard (h : Unsent t) (hcalls : st.calls = false) (hsevers : severs ⟨st, answer⟩ = false)
    (hheard : Heard t st answer u) : Unsent u := by
  refine ⟨fun hsent => ?_, fun hsevered => ?_⟩
  · obtain hsent | hsent := (forwards_heard hheard).mp hsent
    · exact h.kept hsent
    · rw [hcalls] at hsent
      cases hsent
  · obtain hsevered | hsevered := (severed_heard hheard).mp hsevered
    · exact h.whole hsevered
    · rw [hsevers] at hsevered
      cases hsevered

theorem Uncharged.heard (h : Uncharged t) (hcalls : st.calls = false)
    (hsevers : severs ⟨st, answer⟩ = false) (hrow : rowOf ⟨st, answer⟩ = none)
    (hheard : Heard t st answer u) : Uncharged u :=
  ⟨h.toUnsent.heard hcalls hsevers hheard, by rw [charges_heard hheard, h.blank, hrow]; rfl⟩

theorem Uncharged.sent (h : Uncharged t) (hcalls : st.calls = true) (hrow : rowOf ⟨st, answer⟩ = none)
    (hheard : Heard t st answer u) : Sent [] (severs ⟨st, answer⟩) u := by
  refine ⟨(forwards_heard hheard).mpr (.inr hcalls), ?_, ?_⟩
  · rw [charges_heard hheard, h.blank, hrow]
    rfl
  · rw [severed_heard hheard]
    exact ⟨fun hs => hs.resolve_left h.whole, .inr⟩

theorem Sent.heard (h : Sent rows cut t) (hheard : Heard t st answer u) :
    Sent (rows ++ (rowOf ⟨st, answer⟩).toList) (cut || severs ⟨st, answer⟩) u := by
  refine ⟨(forwards_heard hheard).mpr (.inl h.sent), ?_, ?_⟩
  · rw [charges_heard hheard, h.rows]
  · rw [severed_heard hheard, h.severed, Bool.or_eq_true]

/-! ## Before the forwarding -/

def Statement.quiet : Statement → Bool
  | forward .. | openStream .. | startResponse | nextChunk | sendChunk | insertUsage _ => false
  | _ => true

theorem quiet_of_resolves {st : Statement} (h : st.resolves = true) : st.quiet = true := by
  cases st <;> first | rfl | cases h

theorem Uncharged.quiet (h : Uncharged t) (hst : st.quiet = true) (hheard : Heard t st answer u) :
    Uncharged u := by
  refine h.heard ?_ ?_ ?_ hheard
  · cases st <;> first | rfl | cases hst
  · cases st <;> first | rfl | cases hst
  · cases st <;> first | rfl | cases hst

theorem uncharged_only {α : Type} {p : Handler α} (hp : Only (fun st => st.quiet = true) p)
    (ht : Uncharged t) : Ensures Metered p (fun _ => Uncharged) (fun _ => Uncharged) t :=
  hp.ensures (fun _ _ _ _ ht hst h => ht.quiet hst h.1) ht

theorem unsent_only {α : Type} {p : Handler α} (hp : Only (fun st => st.enforces = true) p)
    (ht : Unsent t) : Ensures Metered p (fun _ => Unsent) (fun _ => Unsent) t := by
  refine hp.ensures (fun t st answer u ht hst h => ht.heard ?_ ?_ h.1) ht
  · cases st <;> first | rfl | cases hst
  · cases st <;> first | rfl | cases hst

def Denies (check : Handler (Option Response)) : Prop :=
  ∀ t, Uncharged t → Ensures Metered check
    (fun denial t => match denial with
      | none => Uncharged t
      | some _ => Unsent t) (fun _ => Unsent) t

theorem denies_ask {st : Statement} {f : st.Rows → Handler (Option Response)} (hst : st.quiet = true)
    (hf : ∀ rows, Denies (f rows)) : Denies (ask st >>= f) := by
  intro t ht
  exact ensures_ask (fun rows u h => hf rows u (ht.quiet hst h.1)) fun e u h => (ht.quiet hst h.1).toUnsent

theorem denies_log (row : Usage) (r : Response) :
    Denies (logUsage row >>= fun _ => pure (some r)) := by
  intro t ht
  exact ensures_then (fun _ => Unsent) (unsent_only (only_logUsage rfl) ht.toUnsent) fun _ _ h => h

theorem denies_ite {c : Prop} [Decidable c] {check : Handler (Option Response)} (h : Denies check) :
    Denies (if c then pure none else check) :=
  fun t ht => ensures_ite (fun _ => ht) fun _ => h t ht

theorem denies_enforceRate (q : Attempt) (limit : Option ℤ) (scope : Option Chat.Uuid)
    (message : String) : Denies (enforceRate q limit scope message) := by
  cases limit with
  | none => exact fun t ht => ht
  | some maxRpm => exact denies_ask rfl fun rows => denies_ite (denies_log _ _)

theorem denies_enforceBudget (q : Attempt) (limit : Option ℤ) (scope : Option Chat.Uuid)
    (message : String) : Denies (enforceBudget q limit scope message) := by
  cases limit with
  | none => exact fun t ht => ht
  | some maxTokens => exact denies_ask rfl fun rows => denies_ite (denies_log _ _)

theorem denies_firstDenial {checks : List (Handler (Option Response))}
    (h : ∀ check ∈ checks, Denies check) : Denies (firstDenial checks) := by
  induction checks with
  | nil => exact fun t ht => ht
  | cons check checks ih =>
    intro t ht
    refine ensures_then _ (h check (by simp) t ht) fun denial u hu => ?_
    cases denial with
    | none => exact ih (fun c hc => h c (List.mem_cons_of_mem check hc)) u hu
    | some r => exact hu

theorem denies_agentChecks (q : Attempt) (policy : AgentPolicy) :
    ∀ check ∈ agentChecks q policy, Denies check := by
  intro check hcheck
  simp only [agentChecks, List.mem_cons, List.not_mem_nil, or_false] at hcheck
  obtain rfl | rfl := hcheck
  · exact denies_enforceRate _ _ _ _
  · exact denies_enforceBudget _ _ _ _

theorem denies_delegationChecks (q : Attempt) (effective : EffectivePolicy) :
    ∀ check ∈ delegationChecks q effective, Denies check := by
  intro check hcheck
  simp only [delegationChecks, List.mem_cons, List.not_mem_nil, or_false] at hcheck
  obtain rfl | rfl := hcheck
  · exact denies_enforceRate _ _ _ _
  · exact denies_enforceBudget _ _ _ _

def Decides (p : Handler (Except Response Attempt)) : Prop :=
  ∀ t, Uncharged t → Ensures Metered p
    (fun enforced t => match enforced with
      | .ok _ => Uncharged t
      | .error _ => Unsent t) (fun _ => Unsent) t

theorem decides_checks {q : Attempt} {checks : List (Handler (Option Response))}
    (h : ∀ check ∈ checks, Denies check) :
    Decides (firstDenial checks >>= fun denial => pure (decided q denial)) := by
  intro t ht
  refine ensures_then _ (denies_firstDenial h t ht) fun denial u hu => ?_
  cases denial with
  | none => exact hu
  | some r => exact hu

theorem decides_enforceDelegation (q : Attempt) (policy : AgentPolicy) (id : Chat.Uuid) :
    Decides (enforceDelegation q policy id) := by
  intro t ht
  refine ensures_ask (fun deleg t₁ h₁ => ?_) fun e u h => (ht.quiet rfl h.1).toUnsent
  have ht₁ := ht.quiet rfl h₁.1
  cases deleg with
  | none => exact ht₁.toUnsent
  | some d =>
    refine ensures_ite (fun _ => ht₁.toUnsent) fun _ => ?_
    refine ensures_ask (fun now t₂ h₂ => ?_) fun e u h => (ht₁.quiet rfl h.1).toUnsent
    have ht₂ := ht₁.quiet rfl h₂.1
    refine ensures_ite (fun _ => ht₂.toUnsent) fun _ => ensures_ite (fun _ => ?_) fun _ => ?_
    · refine decides_checks (fun check hcheck => ?_) t₂ ht₂
      obtain h | h := List.mem_append.mp hcheck
      · exact denies_delegationChecks _ _ check h
      · exact denies_agentChecks _ _ check h
    · exact ensures_then (fun _ => Unsent) (unsent_only (only_logUsage rfl) ht₂.toUnsent) fun _ _ h => h

theorem decides_enforcePolicy (identity : Payload) (requested requestType : String) :
    Decides (enforcePolicy identity requested requestType) := by
  intro t ht
  have hpolicy : Only (fun st => st.quiet = true) (resolveAgentPolicy identity.sub) := by
    refine only_bind (only_ask rfl) fun own => ?_
    cases own with
    | some p => exact only_pure p
    | none => exact only_bind (only_ask rfl) fun _ => only_pure _
  refine ensures_then (fun _ => Uncharged) ((uncharged_only hpolicy ht).mono (fun _ _ h => h)
    fun _ _ h => h.toUnsent) fun policy u hu => ?_
  cases identity.delegationId with
  | some id => exact decides_enforceDelegation _ _ _ u hu
  | none => exact ensures_ite (fun _ => decides_checks (denies_agentChecks _ _) u hu) fun _ => hu.toUnsent

/-! ## The forwarding -/

/-- A request is charged as it should be exactly where nothing severed it. -/
def Accounted (t : Transcript) : Prop := ChargedOnce t ↔ ¬Severed t

theorem ensures_attempt {α : Type} {f : Except Failure st.Rows → Handler α}
    {R : Transcript → (st : Statement) → Except Failure st.Rows → Transcript → Prop}
    {Q : α → Transcript → Prop} {E : Failure → Transcript → Prop}
    (h : ∀ answer u, R t st answer u → Ensures R (f answer) Q E u) :
    Ensures R (attempt st >>= f) Q E t :=
  ⟨fun rows u hu => h (.ok rows) u hu, fun e u hu => h (.error e) u hu⟩

theorem Sent.log {row : Usage} (ht : Sent [] cut t) {α : Type} {f : Unit → Handler α}
    {Q : α → Transcript → Prop} {E : Failure → Transcript → Prop}
    (hf : ∀ u, Sent [row] cut u → Ensures Metered (f ()) Q E u) :
    Ensures Metered (logUsage row >>= f) Q E t := by
  refine ⟨fun _ u hu => hf u ?_, fun e u hu => ?_⟩
  · have hrow := ht.heard hu.1
    simpa [rowOf, severs] using hrow
  · exact absurd (hu.2 row rfl) (by simp [Except.isOk, Except.toBool])

theorem accounted_log {α : Type} {row : Usage} (ht : Sent [] cut t) (hrow : row.status.counted = !cut)
    (p : Handler α) (hp : ∀ u, Ensures Metered p (fun _ => (· = u)) (fun _ => (· = u)) u) :
    Ensures Metered (logUsage row >>= fun _ => p) (fun _ => Accounted) (fun _ => Accounted) t := by
  refine ht.log fun u hu => (hp u).mono (fun a u' hsame => ?_) fun e u' hsame => ?_
  · cases hsame
    exact hu.charged hrow
  · cases hsame
    exact hu.charged hrow

theorem accounted_proxyError (q : Attempt) (r : Resolved) {e : Failure}
    (ht : Sent [] (!e.isException) t) :
    Ensures Metered (proxyError q r e) (fun _ => Accounted) (fun _ => Accounted) t := by
  refine ensures_ite (fun he => ?_) fun he => ?_
  · rw [he] at ht
    exact accounted_log ht rfl _ fun u => rfl
  · rw [Bool.eq_false_of_not_eq_true he] at ht
    exact ht.uncharged

theorem accounted_proxy (endpoint : Endpoint) (q : Attempt) (r : Resolved) (ht : Uncharged t) :
    Ensures Metered (proxy endpoint q r) (fun _ => Accounted) (fun _ => Accounted) t := by
  refine ensures_attempt fun answer u hu => ?_
  cases answer with
  | error e => exact accounted_proxyError q r (ht.sent rfl rfl hu.1)
  | ok reply =>
    refine accounted_log (ht.sent rfl rfl hu.1) ?_ _ fun u => rfl
    simp only [Attempt.charge, Attempt.row, severs, Bool.not_false]
    split <;> rfl

theorem generate_ends (chunks : List Chunk) (r : StreamingResult) (ht : Sent [] false t) :
    Ensures Metered (generate chunks r)
      (fun ended => Sent [] (decide (ended.2 = some .cancelled))) (fun _ => Accounted) t := by
  induction chunks generalizing r t with
  | nil =>
    refine ensures_attempt fun answer u hu => ?_
    have hsent := ht.heard hu.1
    cases answer with
    | error e => simpa [rowOf, severs] using hsent
    | ok _ => simpa [rowOf, severs] using hsent
  | cons chunk chunks ih =>
    refine ensures_attempt fun answer u hu => ?_
    have hnext := ht.heard hu.1
    cases answer with
    | error e => simpa [rowOf, severs] using hnext
    | ok _ =>
      refine ensures_attempt fun answer v hv => ?_
      have hsent := hnext.heard hv.1
      cases answer with
      | error e => simpa [rowOf, severs] using hsent
      | ok _ =>
        have hwhole : Sent [] false v := by simpa [rowOf, severs] using hsent
        refine ensures_ite (fun _ => ?_) fun _ => ih _ hwhole
        simpa using hwhole

theorem announce_keeps (ending : Option Failure) (ht : Sent [] cut t) :
    Ensures Metered (announce ending) (fun _ => Sent [] cut) (fun _ => Accounted) t := by
  cases ending with
  | none => exact ht
  | some e =>
    refine ensures_ite (fun _ => ensures_attempt fun answer u hu => ?_) fun _ => ht
    have hsent := ht.heard hu.1
    cases answer with
    | error e' => simpa [rowOf, severs] using hsent
    | ok _ => simpa [rowOf, severs] using hsent

theorem counted_streamStatus (r : StreamingResult) (ending : Option Failure) :
    (streamStatus r ending).counted = !decide (ending = some .cancelled) := by
  unfold streamStatus
  split
  · rename_i h
    rw [h]
    rfl
  · rename_i h
    rw [decide_eq_false h]
    split <;> rfl

theorem accounted_streamAndLog (q : Attempt) (r : Resolved)
    {stream : Handler (StreamingResult × Option Failure)}
    (hstream : Ensures Metered stream
      (fun ended => Sent [] (decide (ended.2 = some .cancelled))) (fun _ => Accounted) t) :
    Ensures Metered (streamAndLog q r stream) (fun _ => Accounted) (fun _ => Accounted) t := by
  refine ensures_then _ hstream fun ended u hu => ?_
  refine ensures_then _ (announce_keeps _ hu) fun raised v hv => ?_
  refine accounted_log hv (counted_streamStatus _ _) _ fun w => ?_
  cases raised with
  | none => rfl
  | some e => rfl

theorem accounted_handleStreaming (q : Attempt) (r : Resolved) (ht : Uncharged t) :
    Ensures Metered (handleStreaming q r) (fun _ => Accounted) (fun _ => Accounted) t := by
  refine ensures_attempt fun answer u hu => ?_
  have hstart : ∀ {stream : Handler (StreamingResult × Option Failure)}, Sent [] false u →
      (∀ v, Sent [] false v → Ensures Metered stream
        (fun ended => Sent [] (decide (ended.2 = some .cancelled))) (fun _ => Accounted) v) →
      Ensures Metered (ask .startResponse >>= fun _ => streamAndLog q r stream) (fun _ => Accounted)
        (fun _ => Accounted) u := by
    intro stream hsent hstream
    refine ensures_ask (fun _ v hv => accounted_streamAndLog q r (hstream v ?_)) fun e v hv => ?_
    · simpa [rowOf, severs] using hsent.heard hv.1
    · have hcut : Sent [] true v := by simpa [rowOf, severs] using hsent.heard hv.1
      exact hcut.uncharged
  match answer with
  | .error e => exact accounted_proxyError q r (ht.sent rfl rfl hu.1)
  | .ok (.rejected statusCode) => exact accounted_log (ht.sent rfl rfl hu.1) rfl _ fun u => rfl
  | .ok .rejectedNull => exact hstart (ht.sent rfl rfl hu.1) fun v hv => by simpa using hv
  | .ok (.opened chunks) =>
    exact hstart (ht.sent rfl rfl hu.1) fun v hv => generate_ends chunks {} hv

theorem accounted_endpoint {req : ApiRequest} {requestType : String}
    {next : Attempt → Resolved → Handler Response}
    (hnext : ∀ q r t, Uncharged t →
      Ensures Metered (next q r) (fun _ => Accounted) (fun _ => Accounted) t) (ht : Uncharged t) :
    Ensures Metered (do
      let requested ← requestedModel req.body
      let enforced ← enforcePolicy req.identity requested requestType
      match enforced with
      | .error denial => pure denial
      | .ok q => do
        let body := req.body.set "model" (.text q.resolvedModel)
        let r ← resolveByok cfg q.agentId q.resolvedModel body req.taskType
        if !cfg.httpClient then throw (.http 503 "HTTP client not initialized")
        else next q r) (fun _ => Accounted) (fun _ => Accounted) t := by
  have haccounted : ∀ {t}, Unsent t → Accounted t := fun h => h.chargedOnce
  refine ensures_then (fun _ => Uncharged) ((uncharged_only (only_requestedModel _) ht).mono
    (fun _ _ h => h) fun _ _ h => haccounted h.toUnsent) fun requested u hu => ?_
  refine ensures_then _ ((decides_enforcePolicy req.identity requested requestType u hu).mono
    (fun _ _ h => h) fun _ _ h => haccounted h) fun enforced v hv => ?_
  cases enforced with
  | error denial => exact haccounted hv
  | ok q =>
    refine ensures_then (fun _ => Uncharged) ((uncharged_only (only_resolveByok _ _ _ _ _
      fun _ => quiet_of_resolves) hv).mono (fun _ _ h => h) fun _ _ h => haccounted h.toUnsent)
      fun r w hw => ?_
    exact ensures_ite (fun _ => haccounted hw.toUnsent) fun _ => hnext q r w hw

theorem uncharged_nil : Uncharged [] :=
  ⟨⟨by simp [Forwards], by simp [Severed]⟩, rfl⟩

/-- Where every usage row is written, a forwarded request leaves exactly one, of a status that the
limits count, exactly where no call to LiteLLM and no stream of it was cancelled and the response
could be begun. -/
theorem charged_once_iff {door : ApiRequest → Handler Response} (hdoor : door ∈ forwarding cfg)
    {req : ApiRequest} {result : Except Failure Response} {t : Transcript}
    (h : Runs Metered (door req) [] result t) : ChargedOnce t ↔ ¬Severed t := by
  have hends : Ensures Metered (door req) (fun _ => Accounted) (fun _ => Accounted) [] := by
    simp only [forwarding, List.mem_cons, List.not_mem_nil, or_false] at hdoor
    obtain rfl | rfl := hdoor
    · exact accounted_endpoint (fun q r t ht => ensures_ite
        (fun _ => accounted_handleStreaming q r ht) fun _ => accounted_proxy .chat q r ht) uncharged_nil
    · exact accounted_endpoint (fun q r t ht => accounted_proxy .embeddings q r ht) uncharged_nil
  cases result with
  | ok a => exact (hends.of_runs h).1 a rfl
  | error e => exact (hends.of_runs h).2 e rfl

def streamedBody : Body := fun member =>
  if member = "model" then some (.text "m")
  else if member = "stream" then some (.bool true)
  else none

def keyed : Config where
  decrypt := fun _ _ => some "sk-secret"

def streamedAttempt : Attempt := ⟨"scout", "chat.completion", "m", "m", none⟩

def streamedResolved : Resolved where
  owner := "jon"
  providerModelId := bareRecord.litellmModel
  body := ((streamedBody.set "model" (.text "m")).set "model" (.text bareRecord.litellmModel)).set
    "api_key" (.text "sk-secret")

def streamedReads : Transcript :=
  [⟨.selectAssigned "scout", .ok (some { allowedModels := ["m"] })⟩,
    ⟨.agentOwner "scout", .ok (some "jon")⟩, ⟨.userModel "m" "jon", .ok (some bareRecord)⟩]

theorem run_streams {result : Except Failure Response} {t : Transcript}
    (h : Runs Metered (handleStreaming streamedAttempt streamedResolved) streamedReads result t) :
    Runs Metered (chatCompletions keyed (plainRequest streamedBody)) [] result t := by
  have hinject : injectByokCredentials keyed bareRecord (streamedBody.set "model" (.text "m")) =
      .ok streamedResolved.body := rfl
  have hstream : isTrue (streamedResolved.body "stream") = true := by
    simp [streamedResolved, Body.set, streamedBody, isTrue]
  have hrequested : Runs Metered (requestedModel (plainRequest streamedBody).body) [] (.ok "m") [] := by
    simp only [requestedModel, plainRequest, streamedBody, if_true]
    exact .reply _ _
  have henforced : Runs Metered (enforcePolicy (plainRequest streamedBody).identity "m" "chat.completion")
      [] (.ok (.ok streamedAttempt)) (streamedReads.take 1) := by
    refine .answered (show Metered [] (.selectAssigned "scout")
      (.ok (some { allowedModels := ["m"] })) _ from ⟨rfl, by simp⟩) ?_
    exact .reply _ _
  have hresolved : Runs Metered (resolveByok keyed "scout" "m" (streamedBody.set "model" (.text "m")) none)
      (streamedReads.take 1) (.ok streamedResolved) streamedReads := by
    refine .answered (show Metered _ (.agentOwner "scout") (.ok (some "jon")) _ from ⟨rfl, by simp⟩) ?_
    refine .answered (show Metered _ (.userModel "m" "jon") (.ok (some bareRecord)) _ from
      ⟨rfl, by simp⟩) ?_
    change Runs Metered (inject keyed "jon" bareRecord (streamedBody.set "model" (.text "m"))) _ _ _
    rw [inject, hinject]
    exact .reply _ _
  refine hrequested.bind (henforced.bind (hresolved.bind ?_))
  simp only [keyed, hstream, Bool.not_true, Bool.false_eq_true, if_false, if_true]
  exact h

/-- The stream is opened, begun, ended and charged. -/
theorem charged_once_completed : ∃ result t,
    Runs Metered (chatCompletions keyed (plainRequest streamedBody)) [] result t ∧
      (ChargedOnce t ↔ ¬Severed t) := by
  have hrun : Runs Metered (chatCompletions keyed (plainRequest streamedBody)) [] (.ok .streamed)
      (streamedReads ++ [⟨.openStream "scout" (streamBody streamedResolved.body), .ok (.opened [])⟩,
        ⟨.startResponse, .ok ()⟩, ⟨.nextChunk, .ok ()⟩,
        ⟨.insertUsage (streamedAttempt.charge streamedResolved .success (some 0) (some 0)), .ok ()⟩]) := by
    apply run_streams
    refine .answered (show Metered _ (.openStream "scout" (streamBody streamedResolved.body))
      (.ok (.opened [])) _ from ⟨rfl, by simp⟩) ?_
    refine .answered (show Metered _ .startResponse (.ok ()) _ from ⟨rfl, by simp⟩) ?_
    refine .answered (show Metered _ .nextChunk (.ok ()) _ from ⟨rfl, by simp⟩) ?_
    refine .answered (show Metered _ (.insertUsage (streamedAttempt.charge streamedResolved .success
      (some 0) (some 0))) (.ok ()) _ from ⟨rfl, fun _ _ => rfl⟩) ?_
    exact .reply _ _
  exact ⟨_, _, hrun, charged_once_iff (List.mem_cons_self) hrun⟩

/-- The client goes away while the stream is read: the row that is written does not count. -/
theorem disconnect_uncounted :
    ¬∀ (cfg : Config), ∀ door ∈ forwarding cfg, ∀ (req : ApiRequest) (result : Except Failure Response)
      (t : Transcript), Runs Metered (door req) [] result t → ChargedOnce t := by
  intro h
  have hrun : Runs Metered (chatCompletions keyed (plainRequest streamedBody)) [] (.error .cancelled)
      (streamedReads ++ [⟨.openStream "scout" (streamBody streamedResolved.body), .ok (.opened [])⟩,
        ⟨.startResponse, .ok ()⟩, ⟨.nextChunk, .error .cancelled⟩,
        ⟨.insertUsage (streamedAttempt.charge streamedResolved .clientDisconnect (some 0) (some 0)),
          .ok ()⟩]) := by
    apply run_streams
    refine .answered (show Metered _ (.openStream "scout" (streamBody streamedResolved.body))
      (.ok (.opened [])) _ from ⟨rfl, by simp⟩) ?_
    refine .answered (show Metered _ .startResponse (.ok ()) _ from ⟨rfl, by simp⟩) ?_
    refine .rejected (show Metered _ .nextChunk (.error .cancelled) _ from ⟨rfl, by simp⟩) ?_
    refine .answered (show Metered _ (.insertUsage (streamedAttempt.charge streamedResolved
      .clientDisconnect (some 0) (some 0))) (.ok ()) _ from ⟨rfl, fun _ _ => rfl⟩) ?_
    exact .raise _ _
  obtain ⟨row, hrow, hcounted⟩ := h keyed _ List.mem_cons_self _ _ _ hrun
    ⟨⟨.openStream "scout" (streamBody streamedResolved.body), .ok (.opened [])⟩, by simp, rfl⟩
  simp only [charges, streamedReads, rowOf, List.cons_append, List.nil_append, List.filterMap] at hrow
  cases hrow
  cases hcounted

end Hill90.Router
