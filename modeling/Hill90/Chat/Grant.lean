import Mathlib.Data.Set.Insert
import Hill90.Chat.Answer

/-! # Grants of replies

A send and a chain look for a pending reply of each agent before they insert its
placeholder, many statements later.  A request that has passed the look holds a grant
until it has inserted the placeholder; a new thread grants all its agents at once.  No
grant is held twice by one request, and the threads of all grants exist.
-/

namespace Hill90.Chat

open Program Service

/-- The threads a request has seen to exist, and the agents it may open a reply for. -/
structure Grants where
  known : Set Uuid
  held : Set (Uuid × Uuid)

namespace Grants

variable (m : Grants)

def learn (threadId : Uuid) : Grants := { m with known := insert threadId m.known }

def grant (threadId agentUuid : Uuid) : Grants :=
  { m with held := insert (threadId, agentUuid) m.held }

def grantAll (threadId : Uuid) (agentUuids : List Uuid) : Grants :=
  { m with held := {g | g.1 = threadId ∧ g.2 ∈ agentUuids} }

def use (p : Placeholder) : Grants := { m with held := {g ∈ m.held | g ≠ (p.threadId, p.agentId)} }

end Grants

def grants : Discipline Statement Statement.Rows Failure Grants where
  may
    | m, .selectPending threadId agentUuid => threadId ∈ m.known ∧ (threadId, agentUuid) ∉ m.held
    | m, .createThread .. => m.held = ∅
    | m, .createPlaceholder p => (p.threadId, p.agentId) ∈ m.held
    | _, _ => True
  returns := credible
  returned
    | m, .getThreadAgents threadId, (rows : List Uuid) =>
      if rows.isEmpty then m else m.learn threadId
    | m, .selectTrigger _, (row : Option Trigger) => row.elim m fun t => m.learn t.threadId
    | m, .selectPending threadId agentUuid, (pending : Bool) =>
      if pending then m else m.grant threadId agentUuid
    | m, .createThread _ _ _ _ agentUuids _ _, (row : Thread × Uuid × ℕ) =>
      m.grantAll row.1.id agentUuids
    | m, .createPlaceholder p, _ => m.use p
    | m, _, _ => m
  rejected
    | m, .createPlaceholder p, _ => m.use p
    | m, _, _ => m

section Meets

variable {α : Type} {m m' m'' : Grants}

def Grants.Extends (m m' : Grants) : Prop := m'.held = m.held ∧ m.known ⊆ m'.known

theorem Grants.Extends.refl (m : Grants) : m.Extends m := ⟨rfl, subset_rfl⟩

theorem Grants.Extends.trans (h : m.Extends m') (h' : m'.Extends m'') : m.Extends m'' :=
  ⟨h'.1.trans h.1, h.2.trans h'.2⟩

theorem Grants.extends_learn (m : Grants) (threadId : Uuid) : m.Extends (m.learn threadId) :=
  ⟨rfl, Set.subset_insert _ _⟩

def Statement.neutral : Statement → Bool
  | selectPending .. | createThread .. | createPlaceholder _ => false
  | _ => true

abbrev Neutral (st : Statement) : Prop := st.neutral = true

theorem Neutral.of_passive {st : Statement} (h : Passive st) : Neutral st := by
  cases st <;> first | rfl | cases h

theorem Neutral.of_delivering {st : Statement} (h : Delivering st) : Neutral st := by
  cases st <;> first | rfl | cases h

theorem Neutral.of_batching {st : Statement} (h : Batching st) : Neutral st := by
  cases st <;> first | rfl | cases h

theorem Neutral.of_routine {st : Statement} (h : Routine st) : Neutral st :=
  .of_passive (.of_routine h)

theorem extends_of_neutral {st : Statement} (h : Neutral st) :
    grants.may m st ∧ (∀ rows, m.Extends (grants.returned m st rows)) ∧
      ∀ e, m.Extends (grants.rejected m st e) := by
  cases st
  case selectPending => cases h
  case createThread => cases h
  case createPlaceholder => cases h
  case getThreadAgents threadId =>
    refine ⟨trivial, fun (rows : List Uuid) => ?_, fun _ => .refl m⟩
    simp only [grants]
    split
    · exact .refl m
    · exact m.extends_learn threadId
  case selectTrigger id =>
    refine ⟨trivial, fun (row : Option Trigger) => ?_, fun _ => .refl m⟩
    cases row with
    | none => exact .refl m
    | some t => exact m.extends_learn t.threadId
  all_goals exact ⟨trivial, fun _ => .refl m, fun _ => .refl m⟩

theorem meets_neutral {p : Handler α} (h : Only Neutral p) :
    p.Meets grants (fun _ m' => m.Extends m') (fun _ _ => True) m := by
  have hstable := h.meets_of_stable (D := grants) (P := fun m' => m.Extends m') (m := m) ?_ (.refl m)
  · exact hstable.mono (fun _ _ h => h) fun _ _ _ => trivial
  · intro m' st hm' hst
    obtain ⟨hmay, hrows, herr⟩ := extends_of_neutral (m := m') hst
    exact ⟨hmay, fun rows => hm'.trans (hrows rows), fun e => hm'.trans (herr e)⟩

theorem meets_passive {p : Handler α} (h : Only Passive p) :
    p.Meets grants (fun _ m' => m.Extends m') (fun _ _ => True) m :=
  meets_neutral (h.mono fun _ => .of_passive)

def Ready (threadId : Uuid) (agents : List Agent) (m : Grants) : Prop :=
  (agents.map (·.id)).Nodup ∧ ∀ agent ∈ agents, (threadId, agent.id) ∈ m.held

theorem Ready.sublist {threadId : Uuid} {agents agents' : List Agent} (h : Ready threadId agents m)
    (hsub : agents'.Sublist agents) : Ready threadId agents' m :=
  ⟨h.1.sublist (hsub.map _), fun agent hagent => h.2 agent (hsub.subset hagent)⟩

theorem Ready.extends {threadId : Uuid} {agents : List Agent} (h : Ready threadId agents m)
    (hm : m.Extends m') : Ready threadId agents m' := by
  refine ⟨h.1, fun agent hagent => ?_⟩
  rw [hm.1]
  exact h.2 agent hagent

theorem meets_createPlaceholders (opts : DispatchOpts) {agents : List Agent}
    (h : Ready opts.threadId agents m) :
    (createPlaceholders opts agents).Meets grants (fun _ _ => True) (fun _ _ => True) m := by
  induction agents generalizing m with
  | nil => trivial
  | cons agent agents ih =>
    obtain ⟨hnodup, hheld⟩ := h
    obtain ⟨hfresh, hnodup⟩ := List.nodup_cons.mp hnodup
    refine meets_ask (hheld agent List.mem_cons_self) (fun id _ => ?_) fun _ => trivial
    refine meets_then (fun _ _ => True) (ih ⟨hnodup, fun agent' hagent' => ?_⟩) fun _ _ _ => trivial
    refine ⟨hheld agent' (List.mem_cons_of_mem agent hagent'), fun heq => hfresh ?_⟩
    have hid : agent'.id = agent.id := congrArg Prod.snd heq
    exact List.mem_map.mpr ⟨agent', hagent', hid⟩

theorem meets_dispatchToAgents (cfg : Config) (opts : DispatchOpts)
    (h : Ready opts.threadId opts.agents m) :
    (dispatchToAgents cfg opts).Meets grants (fun _ _ => True) (fun _ _ => True) m := by
  refine meets_then _ (meets_createPlaceholders opts h) fun placeholders m' _ => ?_
  have hrest := (only_deliverAll cfg opts placeholders).mono fun _ => Neutral.of_delivering
  exact (meets_neutral hrest).mono (fun _ _ _ => trivial) fun _ _ _ => trivial

/-- Looking through some agents grants the ones that are returned, in their order. -/
def Looked (threadId : Uuid) (uuids : List Uuid) (m : Grants) (agents : List Agent) (m' : Grants) :
    Prop :=
  (agents.map (·.id)).Sublist uuids ∧ m.held ⊆ m'.held ∧ m.known ⊆ m'.known ∧
    ∀ agent ∈ agents, (threadId, agent.id) ∈ m'.held

def Ungranted (threadId : Uuid) (uuids : List Uuid) (m : Grants) : Prop :=
  uuids.Nodup ∧ threadId ∈ m.known ∧ ∀ uuid ∈ uuids, (threadId, uuid) ∉ m.held

theorem Ungranted.grant {threadId uuid : Uuid} {uuids : List Uuid}
    (h : Ungranted threadId (uuid :: uuids) m) : Ungranted threadId uuids (m.grant threadId uuid) := by
  obtain ⟨hnodup, hknown, hfree⟩ := h
  obtain ⟨hfresh, hnodup⟩ := List.nodup_cons.mp hnodup
  refine ⟨hnodup, hknown, fun uuid' huuid' => ?_⟩
  rintro (heq | hheld)
  · have hsame : uuid' = uuid := congrArg Prod.snd heq
    exact hfresh (hsame ▸ huuid')
  · exact hfree uuid' (List.mem_cons_of_mem uuid huuid') hheld

theorem Ungranted.tail {threadId uuid : Uuid} {uuids : List Uuid}
    (h : Ungranted threadId (uuid :: uuids) m) : Ungranted threadId uuids m :=
  ⟨(List.nodup_cons.mp h.1).2, h.2.1, fun uuid' huuid' => h.2.2 uuid' (List.mem_cons_of_mem uuid huuid')⟩

theorem Ungranted.extends {threadId : Uuid} {uuids : List Uuid} (h : Ungranted threadId uuids m)
    (hm : m.Extends m') : Ungranted threadId uuids m' := by
  refine ⟨h.1, hm.2 h.2.1, fun uuid huuid => ?_⟩
  rw [hm.1]
  exact h.2.2 uuid huuid

theorem Ungranted.sublist {threadId : Uuid} {uuids uuids' : List Uuid}
    (h : Ungranted threadId uuids m) (hsub : uuids'.Sublist uuids) : Ungranted threadId uuids' m :=
  ⟨h.1.sublist hsub, h.2.1, fun uuid huuid => h.2.2 uuid (hsub.subset huuid)⟩

theorem Looked.skip {threadId uuid : Uuid} {uuids : List Uuid} {agents : List Agent}
    (h : Looked threadId uuids m agents m') : Looked threadId (uuid :: uuids) m agents m' :=
  ⟨h.1.cons uuid, h.2⟩

theorem Looked.take {threadId : Uuid} {uuids : List Uuid} {agent : Agent} {agents : List Agent}
    (h : Looked threadId uuids (m.grant threadId agent.id) agents m') :
    Looked threadId (agent.id :: uuids) m (agent :: agents) m' := by
  obtain ⟨hsub, hheld, hknown, hgranted⟩ := h
  refine ⟨hsub.cons_cons agent.id, fun g hg => hheld (Set.mem_insert_of_mem _ hg), hknown, ?_⟩
  intro agent' hagent'
  obtain rfl | hagent' := List.mem_cons.mp hagent'
  · exact hheld (Set.mem_insert _ _)
  · exact hgranted agent' hagent'

theorem Looked.ready {threadId : Uuid} {uuids : List Uuid} {agents : List Agent}
    (h : Looked threadId uuids m agents m') (hnodup : uuids.Nodup) : Ready threadId agents m' :=
  ⟨hnodup.sublist h.1, h.2.2.2⟩

/-- The look at one agent, and what follows it. -/
theorem meets_look {threadId uuid : Uuid} {uuids : List Uuid} {f : Bool → Handler α}
    {Q : α → Grants → Prop} (h : Ungranted threadId (uuid :: uuids) m)
    (htrue : (f true).Meets grants Q (fun _ _ => True) m)
    (hfalse : (f false).Meets grants Q (fun _ _ => True) (m.grant threadId uuid)) :
    (query (.selectPending threadId uuid) >>= f).Meets grants Q (fun _ _ => True) m := by
  refine meets_ask ⟨h.2.1, h.2.2 uuid List.mem_cons_self⟩ (fun (pending : Bool) _ => ?_)
    fun _ => trivial
  cases pending with
  | true => exact htrue
  | false => exact hfalse

theorem meets_classifyAgents (threadId : Uuid) {agents : List Agent}
    (h : Ungranted threadId (agents.map (·.id)) m) :
    (classifyAgents threadId agents).Meets grants
      (fun result m' => Looked threadId (agents.map (·.id)) m result.1 m') (fun _ _ => True) m := by
  induction agents generalizing m with
  | nil => exact ⟨List.nil_sublist _, subset_rfl, subset_rfl, by simp⟩
  | cons agent agents ih =>
    refine meets_ite (fun _ => meets_look h ?_ ?_) fun _ => ?_
    · exact meets_then _ (ih h.tail) fun result m' hlooked => hlooked.skip
    · exact meets_then _ (ih h.grant) fun result m' hlooked => hlooked.take
    · exact meets_then _ (ih h.tail) fun result m' hlooked => hlooked.skip

theorem meets_eligibleAgents (threadId : Uuid) {uuids : List Uuid} (h : Ungranted threadId uuids m) :
    (eligibleAgents threadId uuids).Meets grants (Looked threadId uuids m) (fun _ _ => True) m := by
  induction uuids generalizing m with
  | nil => exact ⟨List.nil_sublist _, subset_rfl, subset_rfl, by simp⟩
  | cons uuid uuids ih =>
    have hskip : (eligibleAgents threadId uuids).Meets grants (Looked threadId (uuid :: uuids) m)
        (fun _ _ => True) m := (ih h.tail).mono (fun _ _ h => h.skip) fun _ _ _ => trivial
    refine meets_ask trivial (fun (scope : Option String) _ => ?_) fun _ => trivial
    cases scope with
    | some scope => exact hskip
    | none =>
      refine meets_ask trivial (fun (agent : Option Agent) hagent => ?_) fun _ => trivial
      cases agent with
      | none => exact hskip
      | some agent =>
        obtain rfl : agent.id = uuid := hagent agent rfl
        refine meets_ite (fun _ => meets_look h ?_ ?_) fun _ => hskip
        · exact meets_then _ (ih h.tail) fun rest m' hlooked => hlooked.skip
        · exact meets_then _ (ih h.grant) fun rest m' hlooked => hlooked.take

theorem meets_loadKnownAgents (uuids : List Uuid) :
    (loadKnownAgents uuids).Meets grants
      (fun agents m' => (agents.map (·.id)).Sublist uuids ∧ m.Extends m') (fun _ _ => True) m :=
  (meets_neutral ((only_loadKnownAgents uuids).mono fun _ => .of_routine)).and_yields
    (fun _ _ h => h) (yields_loadKnownAgents uuids)

theorem meets_resolveAgentSlugs (threadId : Uuid) (slugs : List String) :
    (resolveAgentSlugs threadId slugs).Meets grants
      (fun resolved m' => (resolved.map (·.2)).Nodup ∧ m.Extends m') (fun _ _ => True) m :=
  (meets_neutral ((only_resolveAgentSlugs threadId slugs).mono fun _ h =>
    .of_delivering (.of_closing (.of_seeking h)))).and_yields
    (fun _ _ h => h) (yields_resolveAgentSlugs threadId slugs)

theorem meets_deliver (cfg : Config) (req : SendRequest) (text : String) (threadType : ThreadType)
    (lead : Option Uuid) (all : List Uuid) (targets : Option (List Uuid)) {agents : List Agent}
    (skipped : List (Uuid × String)) (h : Ready req.threadId agents m) :
    (deliver cfg req text threadType lead all targets agents skipped).Meets grants
      (fun _ _ => True) (fun _ _ => True) m := by
  refine meets_ask trivial (fun userMsg _ => ?_) fun _ => trivial
  refine meets_ask trivial (fun history _ => ?_) fun _ => trivial
  have hpeers : (peersOf threadType all).Meets grants (fun _ m' => m.Extends m')
      (fun _ _ => True) m := meets_neutral ((only_peersOf threadType all).mono fun _ => .of_routine)
  refine meets_then _ hpeers fun participants m' hm' => ?_
  refine meets_ite (fun _ => trivial) fun _ => ?_
  refine meets_then _ (meets_dispatchToAgents cfg _ ?_) fun _ _ _ => trivial
  exact (h.extends hm').sublist (sublist_onlyLead lead agents)

theorem meets_sendTo (cfg : Config) (req : SendRequest) (text : String) (threadType : ThreadType)
    (lead : Option Uuid) (all : List Uuid) {uuids : List Uuid} (targets : Option (List Uuid))
    (h : Ungranted req.threadId uuids m) :
    (sendTo cfg req text threadType lead all uuids targets).Meets grants
      (fun _ _ => True) (fun _ _ => True) m := by
  refine meets_then _ (meets_loadKnownAgents uuids) ?_
  rintro agents m' ⟨hsub, hm'⟩
  refine meets_ite (fun _ => trivial) fun _ => ?_
  have hdenied : (deniedAgent req.user.admin agents).Meets grants (fun _ m'' => m'.Extends m'')
      (fun _ _ => True) m' :=
    meets_neutral ((only_deniedAgent _ agents).mono fun _ => .of_routine)
  refine meets_then _ hdenied fun denied m'' hm'' => ?_
  have hm'' := hm'.trans hm''
  cases denied with
  | some denied => trivial
  | none =>
    have hagents : Ungranted req.threadId (agents.map (·.id)) m'' := (h.sublist hsub).extends hm''
    refine meets_then _ (meets_classifyAgents req.threadId hagents) fun result m₃ hlooked => ?_
    refine meets_ite (fun _ => trivial) fun _ => ?_
    exact meets_deliver cfg req text threadType lead all targets result.2 (hlooked.ready hagents.1)

theorem meets_orDuplicate {text : String} {p : Handler Response}
    (h : p.Meets grants (fun _ _ => True) (fun _ _ => True) m) :
    (orDuplicate text p).Meets grants (fun _ _ => True) (fun _ _ => True) m := by
  refine (meets_tryCatch _ _).mpr (h.mono (fun _ _ _ => trivial) fun e m' _ => ?_)
  split
  · split
    · trivial
    · trivial
  · trivial

theorem meets_sendMessage (cfg : Config) (req : SendRequest) :
    (sendMessage cfg req).Meets grants (fun _ _ => True) (fun _ _ => True) ⟨∅, ∅⟩ := by
  have hallowed : (isParticipant req.threadId req.user).Meets grants
      (fun _ m' => Grants.Extends ⟨∅, ∅⟩ m') (fun _ _ => True) ⟨∅, ∅⟩ :=
    meets_neutral ((only_isParticipant _ _).mono fun _ => .of_routine)
  refine meets_orDuplicate (meets_then _ hallowed fun allowed m hm => ?_)
  refine meets_ite (fun _ => trivial) fun _ => ?_
  split
  · trivial
  · rename_i text _
    refine meets_ask trivial (fun (info : Option (ThreadType × Option Uuid)) _ => ?_) fun _ => trivial
    cases info with
    | none => trivial
    | some info =>
      obtain ⟨threadType, lead⟩ := info
      refine meets_ask trivial (fun (all : List Uuid) hall => ?_) fun _ => trivial
      refine meets_ite (fun _ => trivial) fun hsome => ?_
      have hlearn : grants.returned m (.getThreadAgents req.threadId) all = m.learn req.threadId :=
        if_neg hsome
      have hfree : ∀ uuids : List Uuid, uuids.Nodup →
          Ungranted req.threadId uuids (m.learn req.threadId) := by
        intro uuids hnodup
        refine ⟨hnodup, Set.mem_insert _ _, fun uuid _ hheld => ?_⟩
        have hempty : (req.threadId, uuid) ∈ m.held := hheld
        rw [hm.1] at hempty
        exact hempty
      change Meets grants _ _ _ (grants.returned m (.getThreadAgents req.threadId) all)
      rw [hlearn]
      refine meets_ite (fun _ => meets_sendTo cfg req text threadType lead all none (hfree all hall))
        fun _ => ?_
      refine meets_then _ (meets_resolveAgentSlugs req.threadId _) ?_
      rintro resolved m' ⟨hnodup, hm'⟩
      split
      · trivial
      · exact meets_sendTo cfg req text threadType lead all _ ((hfree _ hnodup).extends hm')

theorem meets_openThread (cfg : Config) (req : CreateRequest) (threadType : ThreadType)
    (text : String) {agents toDispatch : List Agent} (hsub : toDispatch.Sublist agents)
    (hm : m.held = ∅) :
    (openThread cfg req threadType text agents toDispatch).Meets grants
      (fun _ _ => True) (fun _ _ => True) m := by
  refine meets_ask hm (fun (row : Thread × Uuid × ℕ) hnodup => ?_) fun _ => trivial
  obtain ⟨thread, userMsg⟩ := row
  refine meets_then _ (meets_dispatchToAgents cfg _ ?_) fun _ _ _ => trivial
  have hall : Ready thread.id agents (m.grantAll thread.id (agents.map (·.id))) :=
    ⟨hnodup, fun agent hagent => ⟨rfl, List.mem_map.mpr ⟨agent, hagent, rfl⟩⟩⟩
  exact hall.sublist hsub

theorem meets_createThread (cfg : Config) (req : CreateRequest) :
    (createThread cfg req).Meets grants (fun _ _ => True) (fun _ _ => True) ⟨∅, ∅⟩ := by
  apply meets_orDuplicate
  split
  · trivial
  · rename_i uuids threadType text _
    refine meets_then _ (meets_neutral ((only_loadAgents uuids).mono fun _ => .of_routine))
      fun loaded m hm => ?_
    cases loaded with
    | error uuid => trivial
    | ok agents =>
      refine meets_then _ (meets_neutral ((only_deniedAgent _ agents).mono fun _ => .of_routine))
        fun denied m' hm' => ?_
      cases denied with
      | some denied => trivial
      | none =>
        refine meets_ite (fun _ => trivial) fun _ => meets_ite (fun _ => trivial) fun _ => ?_
        apply meets_openThread
        · exact (sublist_onlyLead _ _).trans List.filter_sublist
        · exact hm'.1.trans hm.1

theorem neutral_chainOf (id : Uuid) (trigger : Trigger) : Only Neutral (chainOf id trigger) := by
  unfold chainOf
  split
  · exact only_pure _
  · exact only_bind (only_query rfl) fun _ => only_bind (only_query rfl) fun _ => only_pure _

theorem meets_dispatchChain (cfg : Config) (id threadId chainId : Uuid) (newHop : ℕ)
    {agents : List Agent} (h : Ready threadId agents m) :
    (dispatchChain cfg id threadId chainId newHop agents).Meets grants
      (fun _ _ => True) (fun _ _ => True) m := by
  refine meets_ask trivial (fun history _ => ?_) fun _ => trivial
  refine meets_ask trivial (fun info _ => ?_) fun _ => trivial
  refine meets_then _ (meets_neutral ((only_groupPeers threadId _).mono fun _ => .of_routine))
    fun participants m' hm' => ?_
  exact meets_then _ (meets_dispatchToAgents cfg _ (h.extends hm')) fun _ _ _ => trivial

theorem meets_continueChain (cfg : Config) (id threadId chainId : Uuid) (newHop : ℕ)
    {uuids : List Uuid} (h : Ungranted threadId uuids m) :
    (continueChain cfg id threadId chainId newHop uuids).Meets grants
      (fun _ _ => True) (fun _ _ => True) m := by
  refine meets_ite (fun _ => ?_) fun _ => trivial
  refine meets_then _ (meets_neutral ((only_chainStart chainId).mono fun _ => .of_routine))
    fun start m' hm' => ?_
  refine meets_ask trivial (fun now _ => ?_) fun _ => trivial
  refine meets_ite (fun _ => ?_) fun _ => trivial
  refine meets_ask trivial (fun (authors : List Uuid) _ => ?_) fun _ => trivial
  refine meets_ite (fun _ => trivial) fun _ => ?_
  have hfresh : Ungranted threadId (uuids.filter fun uuid => uuid ∉ authors) m' :=
    (h.sublist List.filter_sublist).extends hm'
  refine meets_then _ (meets_eligibleAgents threadId hfresh) fun agents m'' hlooked => ?_
  refine meets_ite (fun _ => trivial) fun _ => ?_
  exact meets_dispatchChain cfg id threadId chainId newHop (hlooked.ready hfresh.1)

theorem meets_orchestrate (cfg : Config) (id : Uuid) (b : CallbackBody) (hm : m.held = ∅) :
    (orchestrate cfg id b).Meets grants (fun _ _ => True) (fun _ _ => True) m := by
  refine meets_ite (fun _ => ?_) fun _ => trivial
  refine (meets_tryCatch _ _).mpr ?_
  refine meets_ask trivial (fun (trigger : Option Trigger) _ => ?_) fun _ => trivial
  cases trigger with
  | none => trivial
  | some trigger =>
    refine meets_then _ (meets_resolveAgentSlugs trigger.threadId _) ?_
    rintro resolved m' ⟨hnodup, hm'⟩
    refine meets_ite (fun _ => trivial) fun _ => ?_
    refine meets_then _ (meets_neutral (neutral_chainOf id trigger)) fun chainId m'' hm'' => ?_
    refine (meets_continueChain cfg id trigger.threadId chainId _ ?_).mono
      (fun _ _ _ => trivial) fun _ _ _ => trivial
    have hfree : Ungranted trigger.threadId (resolved.map (·.2)) (m.learn trigger.threadId) := by
      refine ⟨hnodup, Set.mem_insert _ _, fun uuid _ hheld => ?_⟩
      have hempty : (trigger.threadId, uuid) ∈ m.held := hheld
      rw [hm] at hempty
      exact hempty
    exact (hfree.sublist List.filter_sublist).extends (hm'.trans hm'')

theorem meets_chatCallbackHandler (cfg : Config) (req : CallbackRequest) :
    (chatCallbackHandler cfg req).Meets grants (fun _ _ => True) (fun _ _ => True) ⟨∅, ∅⟩ := by
  have hnotUpdated : ∀ (id : Uuid) (m : Grants),
      (notUpdated id).Meets grants (fun _ _ => True) (fun _ _ => True) m := by
    intro id m
    refine meets_ask trivial (fun (status : Option Status) _ => ?_) fun _ => trivial
    cases status <;> trivial
  unfold chatCallbackHandler
  split
  · trivial
  · refine meets_ite (fun _ => trivial) fun _ => ?_
    split
    · trivial
    · rename_i id _
      refine meets_ite (fun _ => trivial) fun _ => meets_ite (fun _ => ?_) fun _ => ?_
      · refine meets_ask trivial (fun (rowCount : ℕ) _ => ?_) fun _ => trivial
        refine meets_ite (fun _ => hnotUpdated id _) fun _ => ?_
        exact meets_ask trivial (fun _ _ => trivial) fun _ => trivial
      · refine meets_ask trivial (fun (rowCount : ℕ) _ => ?_) fun _ => trivial
        refine meets_ite (fun _ => hnotUpdated id _) fun _ => ?_
        refine meets_ask trivial (fun _ _ => ?_) fun _ => trivial
        have hjournal : Only Neutral (journal cfg id req.body) := by
          apply (only_journal cfg id req.body).mono
          rintro st (h | rfl)
          · exact .of_routine h
          · rfl
        refine meets_then _ (meets_neutral hjournal) fun _ m hm => ?_
        refine meets_then _ (meets_neutral ((only_completeBatch id).mono fun _ => .of_batching))
          fun _ m' hm' => ?_
        refine meets_then _ (meets_neutral ((only_tagElevated id).mono fun _ => .of_routine))
          fun _ m'' hm'' => ?_
        refine meets_then _ (meets_orchestrate cfg id req.body ?_) fun _ _ _ => trivial
        exact hm''.1.trans (hm'.1.trans hm.1)

theorem meets_grants (cfg : Config) (q : Request) :
    (q.handler cfg).Meets grants (fun _ _ => True) (fun _ _ => True) ⟨∅, ∅⟩ := by
  by_cases hpassive : q.isPassive = true
  · exact (meets_passive (only_passive cfg hpassive)).mono (fun _ _ _ => trivial) fun _ _ _ => trivial
  · cases q with
    | createThread req => exact meets_createThread cfg req
    | sendMessage req => exact meets_sendMessage cfg req
    | callback req => exact meets_chatCallbackHandler cfg req
    | _ => exact absurd rfl hpassive

end Meets

section Known

variable {s s' : Store} {modes : ℕ → Option Grants} {i : ℕ} {m : Grants}

/-- The threads of a request's grants were issued. -/
def Grants.Issued (s : Store) (m : Grants) : Prop :=
  (∀ threadId ∈ m.known, threadId < s.nextId) ∧ ∀ g ∈ m.held, g.1 < s.nextId

structure Known (s : Store) (modes : ℕ → Option Grants) : Prop where
  store : s.Issued
  modes : ∀ i m, modes i = some m → m.Issued s

theorem Grants.Issued.mono (h : m.Issued s) (hle : s.nextId ≤ s'.nextId) : m.Issued s' :=
  ⟨fun t ht => Nat.lt_of_lt_of_le (h.1 t ht) hle, fun g hg => Nat.lt_of_lt_of_le (h.2 g hg) hle⟩

theorem Known.update (h : Known s modes) (hm : m.Issued s) :
    Known s (Function.update modes i (some m)) := by
  refine ⟨h.store, fun j n hj => ?_⟩
  obtain ⟨_, rfl⟩ | ⟨_, hj⟩ := update_eq_some hj
  · exact hm
  · exact h.modes j n hj

theorem Known.run (h : Known s modes) {c : Choice} {st : Statement} {rows : st.Rows}
    (hrun : st.run s c = .ok (rows, s')) : Known s' modes :=
  ⟨h.store.run hrun, fun i m hi => (h.modes i m hi).mono (frame_of_run hrun).nextId⟩

theorem issued_rejected (h : m.Issued s) (st : Statement) (e : Failure) :
    (grants.rejected m st e).Issued s := by
  cases st
  case createPlaceholder p => exact ⟨h.1, fun g hg => h.2 g hg.1⟩
  all_goals exact h

theorem issued_returned (hs : s.Issued) (h : m.Issued s') {c : Choice} {st : Statement}
    {rows : st.Rows} (hmay : grants.may m st) (hrun : st.run s c = .ok (rows, s')) :
    (grants.returned m st rows).Issued s' := by
  have hlearn : ∀ {threadId : Uuid}, threadId < s'.nextId → (m.learn threadId).Issued s' := by
    intro threadId hlt
    refine ⟨?_, h.2⟩
    rintro t (rfl | ht)
    · exact hlt
    · exact h.1 t ht
  cases st
  case getThreadAgents threadId =>
    simp only [grants]
    split
    · exact h
    · rename_i hsome
      cases hrun
      apply hlearn
      obtain ⟨id, hid⟩ := List.exists_mem_of_ne_nil (s.activeAgents threadId) fun hnil =>
        hsome (by rw [hnil]; rfl)
      obtain ⟨p, hp, _⟩ := List.mem_map.mp hid
      have hthread : p.threadId = threadId := by
        have hactive := (List.mem_filter.mp hp).2
        simp only [Store.isActiveAgent, Bool.and_eq_true, decide_eq_true_eq] at hactive
        exact hactive.1.1
      exact hthread ▸ hs.participants p (List.mem_filter.mp hp).1
  case selectTrigger id =>
    cases hrun
    cases hget : s.message? id with
    | none => simpa [grants, hget] using h
    | some row =>
      have hrow := (hs.messages row (Table.mem_of_get? hget)).2
      simpa [grants, hget] using hlearn hrow
  case selectPending threadId agentUuid =>
    simp only [grants]
    split
    · exact h
    · refine ⟨h.1, ?_⟩
      rintro g (rfl | hg)
      · exact h.1 threadId hmay.1
      · exact h.2 g hg
  case createThread type title createdBy lead agentUuids content key =>
    obtain ⟨thread, row⟩ := rows
    obtain ⟨_, _, _, hid, _, huser⟩ := addThread_ok hrun
    obtain ⟨_, _, hadd⟩ := addUserMessage_ok huser
    obtain ⟨_, hnext, _⟩ := addMessage_ok hadd
    refine ⟨h.1, fun g hg => ?_⟩
    have hthread : g.1 = thread.id := hg.1
    have hnext' : s'.nextId = s.nextId + 1 + 1 := hnext
    grind
  case createPlaceholder p => exact ⟨h.1, fun g hg => h.2 g hg.1⟩
  all_goals exact h

theorem keeps_grants (cfg : Config) :
    (service cfg).Keeps grants (fun _ => ⟨∅, ∅⟩) (fun _ _ _ => True) Known where
  handler q := meets_grants cfg q
  fresh s hs := by
    obtain ⟨hmessages, hthreads, hparticipants⟩ := hs
    refine ⟨⟨?_, ?_, ?_⟩, fun _ _ h => nomatch h⟩
    · simp [hthreads]
    · simp [hparticipants]
    · simp [hmessages]
  arrive s modes i q h _ := h.update ⟨fun _ ht => ht.elim, fun _ hg => hg.elim⟩
  answer s modes i m c st rows s' h hm hmay hrun := by
    have hstore := h.run hrun
    exact ⟨credible_of_run hrun,
      hstore.update (issued_returned h.store (hstore.modes i m hm) hmay hrun)⟩
  fail s modes i m st e h hm hmay := h.update (issued_rejected (h.modes i m hm) st e)
  lose s modes i m c st rows s' e h hm hmay hrun := by
    have hstore := h.run hrun
    exact hstore.update (issued_rejected (hstore.modes i m hm) st e)
  around s modes x s' h hx := by
    cases hx
    cases x <;> exact ⟨h.store.change _, h.modes⟩

end Known

end Hill90.Chat
