import Hill90.Foundation.Trail
import Hill90.Router.Conduct

/-! # Where a request is sent

The address, the key and the model of a forwarded body come from the model record the request
resolves to; the address only where that record has one.
-/

namespace Hill90.Router

open Models (UserModelInfo RoutingConfig)
open Program

abbrev Transcript := List (Said Statement Statement.Rows Failure)

def recordOf : Said Statement Statement.Rows Failure → Option UserModelInfo
  | ⟨.userModel _ _, .ok info⟩ => info
  | ⟨.routeCredentials _ _, .ok info⟩ => info
  | ⟨.platformModel _, .ok info⟩ => info
  | _ => none

def sentBody : Said Statement Statement.Rows Failure → Option Body
  | ⟨.forward _ _ body, _⟩ => some body
  | ⟨.openStream _ body, _⟩ => some body
  | _ => none

def records (t : Transcript) : List UserModelInfo := t.filterMap recordOf

def sentBodies (t : Transcript) : List Body := t.filterMap sentBody

/-- The members of a body that say where it goes, with which key and to which model. -/
structure Target where
  apiBase : Option Json
  apiKey : Option Json
  model : Option Json

def target (body : Body) : Target := ⟨body "api_base", body "api_key", body "model"⟩

/-- The record has an address of its own, as `if model_info.api_base_url` reads it. -/
def HasBase (info : UserModelInfo) : Prop := ∃ url, info.apiBaseUrl = some url ∧ url ≠ ""

def targetOf (info : UserModelInfo) (apiKey : String) (body : Body) : Target where
  apiBase := match info.apiBaseUrl with
    | some url => if url = "" then body "api_base" else some (.text url)
    | none => body "api_base"
  apiKey := some (.text apiKey)
  model := some (.text info.litellmModel)

def SameButTarget (body body' : Body) : Prop :=
  ∀ member, member ≠ "api_base" → member ≠ "api_key" → body member = body' member

variable {cfg : Config} {info : UserModelInfo} {apiKey : String} {body body' : Body}

theorem target_of_inject (hkey : cfg.decrypt info.apiKeyEncrypted info.apiKeyNonce = some apiKey)
    (h : injectByokCredentials cfg info body = .ok body') : target body' = targetOf info apiKey body := by
  simp only [injectByokCredentials, hkey] at h
  cases hbase : info.apiBaseUrl with
  | none =>
    simp only [hbase, Except.ok.injEq] at h
    subst h
    simp [target, targetOf, hbase, Body.set]
  | some url =>
    simp only [hbase, Except.ok.injEq] at h
    subst h
    by_cases hurl : url = ""
    · simp [target, targetOf, hbase, hurl, Body.set]
    · simp [target, targetOf, hbase, hurl, Body.set]

theorem target_streamBody (body : Body) : target (streamBody body) = target body := by
  simp [target, streamBody, Body.set]

/-- A record with an address leaves nothing of the body in the target. -/
theorem targetOf_of_hasBase (h : HasBase info) (body body' : Body) :
    targetOf info apiKey body = targetOf info apiKey body' := by
  obtain ⟨url, hurl, hne⟩ := h
  simp [targetOf, hurl, hne]

/-- Nothing is resolved and nothing is sent yet. -/
def Silent (t : Transcript) : Prop := records t = [] ∧ sentBodies t = []

def Sends (cfg : Config) (body : Body) (t : Transcript) : Prop :=
  ∀ sent ∈ sentBodies t, cfg.httpClient = true ∧ ∃ info apiKey, records t = [info] ∧
    cfg.decrypt info.apiKeyEncrypted info.apiKeyNonce = some apiKey ∧
      target sent = targetOf info apiKey body

theorem sends_of_silent {t : Transcript} (h : Silent t) : Sends cfg body t := by
  intro sent hsent
  rw [h.2] at hsent
  cases hsent

theorem sends_of_unsent {t : Transcript} (h : sentBodies t = []) : Sends cfg body t := by
  intro sent hsent
  rw [h] at hsent
  cases hsent

def Statement.plain : Statement → Bool
  | userModel .. | routeCredentials .. | platformModel _ | forward .. | openStream .. => false
  | _ => true

theorem plain_of_enforces {st : Statement} (h : st.enforces = true) : st.plain = true := by
  cases st <;> first | rfl | cases h

theorem plain_of_streams {st : Statement} (h : st.streams = true) : st.plain = true := by
  cases st <;> first | rfl | cases h

theorem unheard_of_plain {st : Statement} (hst : st.plain = true) (answer : Except Failure st.Rows) :
    recordOf ⟨st, answer⟩ = none ∧ sentBody ⟨st, answer⟩ = none := by
  cases st <;> first | exact ⟨rfl, rfl⟩ | cases hst

theorem records_heard {t u : Transcript} {st : Statement} {answer : Except Failure st.Rows}
    (h : Heard t st answer u) : records u = records t ++ (recordOf ⟨st, answer⟩).toList := by
  rw [h, records, List.filterMap_append]
  cases hrecord : recordOf ⟨st, answer⟩ <;> simp [records, hrecord]

theorem sentBodies_heard {t u : Transcript} {st : Statement} {answer : Except Failure st.Rows}
    (h : Heard t st answer u) : sentBodies u = sentBodies t ++ (sentBody ⟨st, answer⟩).toList := by
  rw [h, sentBodies, List.filterMap_append]
  cases hsent : sentBody ⟨st, answer⟩ <;> simp [sentBodies, hsent]

theorem silent_heard {t u : Transcript} {st : Statement} {answer : Except Failure st.Rows}
    (ht : Silent t) (hst : st.plain = true) (h : Heard t st answer u) : Silent u := by
  obtain ⟨hrecord, hsent⟩ := unheard_of_plain hst answer
  constructor
  · rw [records_heard h, hrecord, ht.1]
    rfl
  · rw [sentBodies_heard h, hsent, ht.2]
    rfl

theorem silent_only {α : Type} {p : Handler α} (hp : Only (fun st => st.plain = true) p)
    {t : Transcript} (ht : Silent t) :
    Ensures Heard p (fun _ => Silent) (fun _ => Silent) t :=
  hp.ensures (fun _ _ _ _ hu hst h => silent_heard hu hst h) ht

/-- The body that is ready to be sent, in a run that has looked up its record. -/
def Ready (cfg : Config) (body : Body) (r : Resolved) (t : Transcript) : Prop :=
  sentBodies t = [] ∧ ∃ info apiKey, records t = [info] ∧
    cfg.decrypt info.apiKeyEncrypted info.apiKeyNonce = some apiKey ∧
      target r.body = targetOf info apiKey body ∧ r.body "stream" = body "stream"

theorem ready_of_inject {owner : String} {t : Transcript} (hrecords : records t = [info])
    (hsent : sentBodies t = []) :
    Ensures Heard (inject cfg owner info body) (Ready cfg body) (fun _ u => sentBodies u = []) t := by
  unfold inject
  cases hinject : injectByokCredentials cfg info body with
  | error e => exact hsent
  | ok body' =>
    cases hkey : cfg.decrypt info.apiKeyEncrypted info.apiKeyNonce with
    | none => simp [injectByokCredentials, hkey] at hinject
    | some apiKey =>
      refine ⟨hsent, info, apiKey, hrecords, hkey, target_of_inject hkey hinject, ?_⟩
      simp only [injectByokCredentials, hkey] at hinject
      split at hinject
      · cases hinject
        split <;> simp [Body.set]
      · cases hinject
        simp [Body.set]

theorem heard_lookup {t u : Transcript} {st : Statement} {answer : Except Failure st.Rows}
    (ht : Silent t) (h : Heard t st answer u) (hsent : sentBody ⟨st, answer⟩ = none) :
    records u = (recordOf ⟨st, answer⟩).toList ∧ sentBodies u = [] := by
  constructor
  · rw [records_heard h, ht.1]
    rfl
  · rw [sentBodies_heard h, hsent, ht.2]
    rfl

theorem ready_of_resolve (agentId model : String) (taskType : Option String) {t : Transcript}
    (ht : Silent t) :
    Ensures Heard (resolveByok cfg agentId model body taskType) (Ready cfg body)
      (fun _ u => sentBodies u = []) t := by
  refine ensures_ask (fun owner u hu => ?_) fun e u hu => (silent_heard ht rfl hu).2
  replace hu := silent_heard ht rfl hu
  cases owner with
  | none => exact hu.2
  | some owner =>
    refine ensures_ask (fun single v hv => ?_) fun e v hv => (heard_lookup hu hv rfl).2
    cases single with
    | some info =>
      obtain ⟨hrecords, hsent⟩ := heard_lookup hu hv rfl
      exact ready_of_inject hrecords hsent
    | none =>
      replace hv : Silent v := heard_lookup hu hv rfl
      refine ensures_ask (fun router w hw => ?_) fun e w hw => (silent_heard hv rfl hw).2
      replace hw := silent_heard hv rfl hw
      cases router with
      | none =>
        refine ensures_ask (fun platform x hx => ?_) fun e x hx => (heard_lookup hw hx rfl).2
        cases platform with
        | some info =>
          obtain ⟨hrecords, hsent⟩ := heard_lookup hw hx rfl
          exact ready_of_inject hrecords hsent
        | none => exact (heard_lookup hw hx rfl).2
      | some router =>
        dsimp only
        cases Models.selectRoute router taskType with
        | none => exact hw.2
        | some route =>
          refine ensures_ask (fun creds x hx => ?_) fun e x hx => (heard_lookup hw hx rfl).2
          cases creds with
          | some info =>
            obtain ⟨hrecords, hsent⟩ := heard_lookup hw hx rfl
            exact ready_of_inject hrecords hsent
          | none => exact (heard_lookup hw hx rfl).2

theorem sends_of_forwards {α : Type} {p : Handler α} {r : Resolved} (hclient : cfg.httpClient = true)
    (hp : Only (fun st => st.Forwards r) p) {t : Transcript} (ht : Ready cfg body r t) :
    Ensures Heard p (fun _ => Sends cfg body) (fun _ => Sends cfg body) t := by
  obtain ⟨hsent, info, apiKey, hrecords, hkey, htarget, _⟩ := ht
  have hkeeps : Ensures Heard p
      (fun _ u => records u = [info] ∧ ∀ sent ∈ sentBodies u, target sent = target r.body)
      (fun _ u => records u = [info] ∧ ∀ sent ∈ sentBodies u, target sent = target r.body) t := by
    refine hp.ensures ?_ ⟨hrecords, by simp [hsent]⟩
    rintro u st answer v ⟨hu, hall⟩ hst hv
    rw [records_heard hv, sentBodies_heard hv, hu]
    obtain hst | ⟨endpoint, agentId, rfl⟩ | ⟨agentId, rfl⟩ := hst
    · obtain ⟨hnone, hquiet⟩ := unheard_of_plain (plain_of_streams hst) answer
      rw [hnone, hquiet]
      simpa using hall
    · refine ⟨rfl, fun sent hmem => ?_⟩
      obtain hmem | hmem := List.mem_append.mp hmem
      · exact hall sent hmem
      · cases List.mem_singleton.mp hmem
        rfl
    · refine ⟨rfl, fun sent hmem => ?_⟩
      obtain hmem | hmem := List.mem_append.mp hmem
      · exact hall sent hmem
      · cases List.mem_singleton.mp hmem
        exact target_streamBody r.body
  have hend : ∀ u, (records u = [info] ∧ ∀ sent ∈ sentBodies u, target sent = target r.body) →
      Sends cfg body u :=
    fun u hu sent hmem => ⟨hclient, info, apiKey, hu.1, hkey, (hu.2 sent hmem).trans htarget⟩
  exact hkeeps.mono (fun _ => hend) fun _ => hend

theorem sends_of_resolve {q : Attempt} {req : ApiRequest} {next : Resolved → Handler Response}
    (hnext : ∀ r, Only (fun st => st.Forwards r) (next r)) {t : Transcript} (ht : Silent t) :
    Ensures Heard (do
      let r ← resolveByok cfg q.agentId q.resolvedModel (req.body.set "model" (.text q.resolvedModel))
        req.taskType
      if !cfg.httpClient then throw (.http 503 "HTTP client not initialized") else next r)
      (fun _ => Sends cfg (req.body.set "model" (.text q.resolvedModel)))
      (fun _ => Sends cfg (req.body.set "model" (.text q.resolvedModel))) t := by
  refine ensures_then _ ((ready_of_resolve q.agentId q.resolvedModel req.taskType ht).mono
    (fun _ _ h => h) fun _ _ => sends_of_unsent) fun r u hu => ?_
  exact ensures_ite (fun _ => sends_of_unsent hu.1)
    fun hclient => sends_of_forwards (by simpa using hclient) (hnext r) hu

theorem silent_nil : Silent [] := ⟨rfl, rfl⟩

theorem sends_of_endpoint {req : ApiRequest} {requestType : String}
    {next : Attempt → Resolved → Handler Response}
    (hnext : ∀ q r, Only (fun st => st.Forwards r) (next q r)) :
    Ensures Heard (do
      let requested ← requestedModel req.body
      let enforced ← enforcePolicy req.identity requested requestType
      match enforced with
      | .error denial => pure denial
      | .ok q => do
        let r ← resolveByok cfg q.agentId q.resolvedModel (req.body.set "model" (.text q.resolvedModel))
          req.taskType
        if !cfg.httpClient then throw (.http 503 "HTTP client not initialized") else next q r)
      (fun _ t => ∃ model, Sends cfg (req.body.set "model" (.text model)) t)
      (fun _ t => ∃ model, Sends cfg (req.body.set "model" (.text model)) t) [] := by
  have hend : ∀ {t : Transcript}, Silent t → ∃ model, Sends cfg (req.body.set "model" (.text model)) t :=
    fun ht => ⟨"", sends_of_silent ht⟩
  refine ensures_then (fun _ => Silent)
    ((silent_only (only_requestedModel req.body) silent_nil).mono (fun _ _ h => h) fun _ _ => hend)
    fun requested t ht => ?_
  refine ensures_then (fun _ => Silent)
    ((silent_only (only_enforcePolicy req.identity requested requestType
      fun _ hst => plain_of_enforces hst) ht).mono (fun _ _ h => h) fun _ _ => hend)
    fun enforced u hu => ?_
  cases enforced with
  | error denial => exact hend hu
  | ok q =>
    exact (sends_of_resolve (hnext q) hu).mono (fun _ _ h => ⟨q.resolvedModel, h⟩)
      fun _ _ h => ⟨q.resolvedModel, h⟩

def forwarding (cfg : Config) : List (ApiRequest → Handler Response) :=
  [chatCompletions cfg, embeddings cfg]

theorem sends_of_run {door : ApiRequest → Handler Response} (hdoor : door ∈ forwarding cfg)
    {req : ApiRequest} {result : Except Failure Response} {t : Transcript}
    (h : Runs Heard (door req) [] result t) :
    ∃ model, Sends cfg (req.body.set "model" (.text model)) t := by
  have hends : Ensures Heard (door req)
      (fun _ t => ∃ model, Sends cfg (req.body.set "model" (.text model)) t)
      (fun _ t => ∃ model, Sends cfg (req.body.set "model" (.text model)) t) [] := by
    simp only [forwarding, List.mem_cons, List.not_mem_nil, or_false] at hdoor
    obtain rfl | rfl := hdoor
    · exact sends_of_endpoint fun q r => only_ite
        (fun _ => only_handleStreaming q r fun _ hst => hst)
        fun _ => only_proxy .chat q r fun _ hst => hst
    · exact sends_of_endpoint fun q r => only_proxy .embeddings q r fun _ hst => hst
  cases result with
  | ok a => exact (hends.of_runs h).1 a rfl
  | error e => exact (hends.of_runs h).2 e rfl

theorem targetOf_set (model : Json) :
    targetOf info apiKey (body.set "model" model) = targetOf info apiKey body := by
  simp [targetOf, Body.set]

/-- Two runs that resolve to this record send to one target, whatever they were answered and
whatever `api_base` and `api_key` their bodies held. -/
def Independent (cfg : Config) (info : UserModelInfo) : Prop :=
  ∀ door ∈ forwarding cfg, ∀ (req : ApiRequest) (body' : Body), SameButTarget req.body body' →
    ∀ result result' t t', Runs Heard (door req) [] result t →
      Runs Heard (door { req with body := body' }) [] result' t' →
        records t = [info] → records t' = [info] →
          ∀ sent ∈ sentBodies t, ∀ sent' ∈ sentBodies t', target sent = target sent'

def plainRequest (body : Body) : ApiRequest where
  identity := { sub := "scout", exp := 0, iat := 0, jti := "jti" }
  body := body

theorem run_forwards (hclient : cfg.httpClient = true)
    (hinject : injectByokCredentials cfg info (body.set "model" (.text "m")) = .ok body')
    (hmodel : body "model" = some (.text "m")) :
    ∃ t, Runs Heard (embeddings cfg (plainRequest body)) [] (.ok (.upstream 200)) t ∧
      records t = [info] ∧ sentBodies t = [body'] := by
  let q : Attempt := ⟨"scout", "embedding", "m", "m", none⟩
  let r : Resolved := ⟨"jon", info.litellmModel, body'⟩
  have hrequested : Runs Heard (requestedModel (plainRequest body).body) [] (.ok "m") [] := by
    simp only [requestedModel, plainRequest, hmodel]
    exact .reply _ _
  have henforced : ∀ t : Transcript, Runs Heard (enforcePolicy (plainRequest body).identity "m" "embedding") t
      (.ok (.ok q)) (t ++ [⟨.selectAssigned "scout", .ok (some { allowedModels := ["m"] })⟩]) := by
    intro t
    exact .answered (show Heard t (.selectAssigned "scout") (.ok (some { allowedModels := ["m"] })) _ from rfl)
      (.reply _ _)
  have hresolved : ∀ t : Transcript, Runs Heard
      (resolveByok cfg "scout" "m" (body.set "model" (.text "m")) none) t (.ok r)
      (t ++ [⟨.agentOwner "scout", .ok (some "jon")⟩] ++ [⟨.userModel "m" "jon", .ok (some info)⟩]) := by
    intro t
    refine .answered (show Heard t (.agentOwner "scout") (.ok (some "jon")) _ from rfl) ?_
    refine .answered (show Heard _ (Statement.userModel "m" "jon") (.ok (some info)) _ from rfl) ?_
    change Runs Heard (inject cfg "jon" info (body.set "model" (.text "m"))) _ _ _
    rw [inject, hinject]
    exact .reply _ _
  have hproxy : ∀ t : Transcript, Runs Heard (proxy .embeddings q r) t (.ok (.upstream 200))
      (t ++ [⟨.forward .embeddings "scout" body', .ok {}⟩] ++
        [⟨.insertUsage (q.charge r .success (some 0) (some 0)), .ok ()⟩]) := by
    intro t
    refine .answered (show Heard t (.forward .embeddings "scout" body') (.ok {}) _ from rfl) ?_
    exact .answered (show Heard _ (Statement.insertUsage (q.charge r .success (some 0) (some 0))) (.ok ()) _ from rfl)
      (.reply _ _)
  have hforward : ∀ t : Transcript, Runs Heard (if (!cfg.httpClient) = true then
      (throw (.http 503 "HTTP client not initialized") : Handler Response) else proxy .embeddings q r) t
      (.ok (.upstream 200)) (t ++ [⟨.forward .embeddings "scout" body', .ok {}⟩] ++
        [⟨.insertUsage (q.charge r .success (some 0) (some 0)), .ok ()⟩]) := by
    intro t
    rw [hclient]
    exact hproxy t
  exact ⟨_, hrequested.bind ((henforced []).bind ((hresolved _).bind (hforward _))), rfl, rfl⟩

/-- Without an address of its own the record is sent where the body says. -/
theorem aimed_of_bare (hclient : cfg.httpClient = true)
    (hkey : cfg.decrypt info.apiKeyEncrypted info.apiKeyNonce = some apiKey) (hbase : ¬HasBase info) :
    ¬Independent cfg info := by
  intro h
  let blank : Body := fun member => if member = "model" then some (.text "m") else none
  let aimed : Body := Function.update blank "api_base" (some (.text "https://evil.example"))
  have hinject : ∀ body : Body, ∃ sent, injectByokCredentials cfg info (body.set "model" (.text "m")) =
      .ok sent := by
    intro body
    simp only [injectByokCredentials, hkey]
    split <;> exact ⟨_, rfl⟩
  obtain ⟨sent, hsent⟩ := hinject blank
  obtain ⟨sent', hsent'⟩ := hinject aimed
  obtain ⟨t, hrun, hrecords, hbodies⟩ := run_forwards hclient hsent rfl
  obtain ⟨t', hrun', hrecords', hbodies'⟩ := run_forwards hclient hsent' rfl
  have hsame : SameButTarget blank aimed := by
    intro member hmember _
    exact (Function.update_of_ne hmember _ blank).symm
  have heq := h (embeddings cfg) (by simp [forwarding]) (plainRequest blank) aimed hsame _ _ t t' hrun
    hrun' hrecords hrecords' sent (by simp [hbodies]) sent' (by simp [hbodies'])
  rw [target_of_inject hkey hsent, target_of_inject hkey hsent', targetOf_set, targetOf_set] at heq
  have hfield := congrArg Target.apiBase heq
  cases hurl : info.apiBaseUrl with
  | none => simp [targetOf, hurl, blank, aimed] at hfield
  | some url =>
    by_cases hempty : url = ""
    · simp [targetOf, hurl, hempty, blank, aimed] at hfield
    · exact hbase ⟨url, hurl, hempty⟩

/-- Noninterference of the upstream target: what a body says about it matters exactly where the
resolved record has no address of its own and something is sent for it at all. -/
theorem target_independent_iff : Independent cfg info ↔
    (cfg.httpClient = true → ∀ apiKey, cfg.decrypt info.apiKeyEncrypted info.apiKeyNonce = some apiKey →
      HasBase info) := by
  constructor
  · intro h hclient apiKey hkey
    by_contra hbase
    exact aimed_of_bare hclient hkey hbase h
  · intro h door hdoor req body' hsame result result' t t' hrun hrun' hrecords hrecords' sent hsent
      sent' hsent'
    obtain ⟨model, hsends⟩ := sends_of_run hdoor hrun
    obtain ⟨model', hsends'⟩ := sends_of_run hdoor hrun'
    obtain ⟨hclient, i, key, hi, hkey, htarget⟩ := hsends sent hsent
    obtain ⟨_, i', key', hi', hkey', htarget'⟩ := hsends' sent' hsent'
    cases hrecords.symm.trans hi
    cases hrecords'.symm.trans hi'
    cases hkey.symm.trans hkey'
    rw [htarget, htarget']
    exact targetOf_of_hasBase (h hclient key hkey) _ _

def bareRecord : UserModelInfo := ⟨"openai/gpt", [1], [2], none⟩

/-- The body's `api_base` decides where a decrypted key is sent. -/
theorem bare_record_aimed : ¬Independent { decrypt := fun _ _ => some "sk-secret" } bareRecord :=
  aimed_of_bare rfl rfl (by rintro ⟨url, ⟨⟩, _⟩)

end Hill90.Router
