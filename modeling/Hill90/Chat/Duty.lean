import Mathlib.Data.Set.Insert
import Hill90.Chat.Answer

/-! # Who dispatches the replies to a message

The request that inserts a user message dispatches the replies to it; the callback that
closes the message of an agent dispatches the chain from it.  Such a request has the
duty of the message and remembers what it has read about it: its thread, its place in a chain, the
members of threads, and the agents that may have got their placeholder.
-/

namespace Hill90.Chat

open Program Service

/-- What a request knows of the place of its message in a chain. -/
inductive Link where
  | unknown
  | absent
  | linked (chainId : Uuid) (hop : ℕ)

structure Duty where
  target : Option Uuid
  human : Bool
  thread : Option Uuid
  link : Link
  members : Set (Uuid × Uuid)
  done : Set Uuid

namespace Duty

def start : Duty := ⟨none, false, none, .unknown, ∅, ∅⟩

variable (m : Duty)

def take (id : Uuid) (human : Bool) (thread : Option Uuid) : Duty :=
  { m with target := some id, human, thread, link := .unknown, done := ∅ }

def meet (threadId : Uuid) (uuids : List Uuid) : Duty :=
  { m with members := m.members ∪ {g | g.1 = threadId ∧ g.2 ∈ uuids} }

def read (t : Trigger) : Duty :=
  { m with
    thread := some t.threadId
    link := match t.chainId with
      | some chainId => .linked chainId (t.chainHop.getD 0)
      | none => .absent }

def place (p : Placeholder) : Duty := { m with done := insert p.agentId m.done }

/-- A first reply carries no chain, a later one the next hop of the chain of its trigger. -/
def Carries (cfg : Config) (p : Placeholder) : Prop :=
  (m.human = true ∧ p.chain = none) ∨
    (m.human = false ∧ ∃ chainId hop, m.link = .linked chainId hop ∧
      p.chain = some (chainId, some (hop + 1), some p.replyTo) ∧
      cfg.maxChainHops.any (fun max => ((hop + 1 : ℕ) : ℤ) ≤ max) = true)

end Duty

/-- A row that is in no chain has no hop. -/
def coherent : (st : Statement) → st.Rows → Prop
  | .selectTrigger _, (row : Option Trigger) => ∀ t ∈ row, t.chainId = none → t.chainHop = none
  | _, _ => True

def duties (cfg : Config) : Discipline Statement Statement.Rows Failure Duty where
  may
    | m, .createThread .. => m.target = none
    | m, .createUserMessage .. => m.target = none
    | m, .finishMessage .. => m.target = none
    | m, .startChain _ id => m.target = some id ∧ m.link = .absent
    | m, .createPlaceholder p => m.target = some p.replyTo ∧ m.thread = some p.threadId ∧
        p.agentId ∉ m.done ∧ (p.threadId, p.agentId) ∈ m.members ∧ m.Carries cfg p
    | _, _ => True
  returns st rows := credible st rows ∧ coherent st rows
  returned
    | m, .getThreadAgents threadId, (rows : List Uuid) => m.meet threadId rows
    | m, .resolveAgentSlugs threadId _, (rows : List (String × Uuid)) =>
      m.meet threadId (rows.map (·.2))
    | m, .createThread _ _ _ _ agentUuids _ _, (row : Thread × Uuid × ℕ) =>
      (m.meet row.1.id agentUuids).take row.2.1 true (some row.1.id)
    | m, .createUserMessage threadId .., (row : Uuid × ℕ) => m.take row.1 true (some threadId)
    | m, .finishMessage id _, (rows : ℕ) => if rows = 0 then m else m.take id false none
    | m, .selectTrigger id, (row : Option Trigger) =>
      match row with
      | some t => if m.target = some id then m.read t else m
      | none => m
    | m, .startChain chainId _, _ => { m with link := .linked chainId 0 }
    | m, .createPlaceholder p, _ => m.place p
    | m, _, _ => m
  rejected
    | m, .startChain .., _ => { m with link := .unknown }
    | m, .createPlaceholder p, _ => m.place p
    | m, _, _ => m

section Meets

variable {cfg : Config} {α : Type} {m m' m'' : Duty}

structure Duty.Extends (m m' : Duty) : Prop where
  target : m'.target = m.target
  human : m'.human = m.human
  thread : m'.thread = m.thread
  link : m'.link = m.link
  done : m'.done = m.done
  members : m.members ⊆ m'.members

theorem Duty.Extends.refl (m : Duty) : m.Extends m := ⟨rfl, rfl, rfl, rfl, rfl, subset_rfl⟩

theorem Duty.Extends.trans (h : m.Extends m') (h' : m'.Extends m'') : m.Extends m'' :=
  ⟨h'.target.trans h.target, h'.human.trans h.human, h'.thread.trans h.thread,
    h'.link.trans h.link, h'.done.trans h.done, h.members.trans h'.members⟩

theorem Duty.extends_meet (m : Duty) (threadId : Uuid) (uuids : List Uuid) :
    m.Extends (m.meet threadId uuids) := ⟨rfl, rfl, rfl, rfl, rfl, Set.subset_union_left⟩

theorem Duty.mem_meet (m : Duty) {threadId uuid : Uuid} {uuids : List Uuid} (h : uuid ∈ uuids) :
    (threadId, uuid) ∈ (m.meet threadId uuids).members := .inr ⟨rfl, h⟩

theorem Duty.Carries.extends {p : Placeholder} (h : m.Carries cfg p) (hm : m.Extends m') :
    m'.Carries cfg p := by
  unfold Duty.Carries
  rw [hm.human, hm.link]
  exact h

def Statement.plain : Statement → Bool
  | createThread .. | createUserMessage .. | finishMessage .. | startChain .. | createPlaceholder _
  | selectTrigger _ => false
  | _ => true

abbrev Plain (st : Statement) : Prop := st.plain = true

theorem Plain.of_passive {st : Statement} (h : Passive st) : Plain st := by
  cases st <;> first | rfl | cases h

theorem Plain.of_routine {st : Statement} (h : Routine st) : Plain st := .of_passive (.of_routine h)

theorem Plain.of_delivering {st : Statement} (h : Delivering st) : Plain st := by
  cases st <;> first | rfl | cases h

theorem Plain.of_batching {st : Statement} (h : Batching st) : Plain st := by
  cases st <;> first | rfl | cases h

theorem Plain.of_looking {st : Statement} (h : Looking st) : Plain st := by
  cases st <;> first | rfl | cases h

theorem Plain.of_journal {id : Uuid} {st : Statement} (h : Routine st ∨ st = .selectJournal id) :
    Plain st := by
  obtain h | rfl := h
  · exact .of_routine h
  · rfl

variable (cfg) in
theorem extends_of_plain {st : Statement} (h : Plain st) :
    (duties cfg).may m st ∧ (∀ rows, m.Extends ((duties cfg).returned m st rows)) ∧
      ∀ e, m.Extends ((duties cfg).rejected m st e) := by
  cases st
  case getThreadAgents threadId =>
    exact ⟨trivial, fun rows => m.extends_meet threadId _, fun _ => .refl m⟩
  case resolveAgentSlugs threadId slugs =>
    exact ⟨trivial, fun rows => m.extends_meet threadId _, fun _ => .refl m⟩
  all_goals first | exact ⟨trivial, fun _ => .refl m, fun _ => .refl m⟩ | cases h

theorem meets_plain {p : Handler α} (h : Only Plain p) :
    p.Meets (duties cfg) (fun _ m' => m.Extends m') (fun _ _ => True) m := by
  have hstable := h.meets_of_stable (D := duties cfg) (P := fun m' => m.Extends m') (m := m) ?_
    (.refl m)
  · exact hstable.mono (fun _ _ h => h) fun _ _ _ => trivial
  · intro m' st hm' hst
    obtain ⟨hmay, hrows, herr⟩ := extends_of_plain cfg (m := m') hst
    exact ⟨hmay, fun rows => hm'.trans (hrows rows), fun e => hm'.trans (herr e)⟩

theorem meets_yielding {R : α → Prop} {p : Handler α} (h : Only Plain p)
    (hp : p.Yields credible R) :
    p.Meets (duties cfg) (fun a m' => R a ∧ m.Extends m') (fun _ _ => True) m :=
  (meets_plain h).and_yields (fun _ _ h => h.1) hp

structure Dispatches (cfg : Config) (opts : DispatchOpts) (agents : List Agent) (m : Duty) :
    Prop where
  target : m.target = some opts.replyTo
  thread : m.thread = some opts.threadId
  distinct : (agents.map (·.id)).Nodup
  fresh : ∀ agent ∈ agents, agent.id ∉ m.done
  members : ∀ agent ∈ agents, (opts.threadId, agent.id) ∈ m.members
  carries : ∀ agentId, m.Carries cfg ⟨opts.threadId, agentId, opts.replyTo, opts.chain⟩

theorem meets_createPlaceholders_of_dispatches {opts : DispatchOpts} {agents : List Agent}
    (h : Dispatches cfg opts agents m) :
    (createPlaceholders opts agents).Meets (duties cfg) (fun _ _ => True) (fun _ _ => True) m := by
  induction agents generalizing m with
  | nil => trivial
  | cons agent agents ih =>
    have hmem := List.mem_cons_self (a := agent) (l := agents)
    obtain ⟨hnot, hdistinct⟩ := List.nodup_cons.mp h.distinct
    refine meets_ask ⟨h.target, h.thread, h.fresh agent hmem, h.members agent hmem,
      h.carries agent.id⟩ (fun id _ => ?_) fun _ => trivial
    refine meets_then (fun _ _ => True) (ih ?_) fun _ _ _ => trivial
    refine ⟨h.target, h.thread, hdistinct, ?_, ?_, h.carries⟩
    · intro agent' hagent' hdone
      obtain heq | hdone := hdone
      · exact hnot (List.mem_map.mpr ⟨agent', hagent', heq⟩)
      · exact h.fresh agent' (List.mem_cons_of_mem agent hagent') hdone
    · intro agent' hagent'
      exact h.members agent' (List.mem_cons_of_mem agent hagent')

theorem meets_dispatch {opts : DispatchOpts} (h : Dispatches cfg opts opts.agents m) :
    (dispatchToAgents cfg opts).Meets (duties cfg) (fun _ _ => True) (fun _ _ => True) m := by
  refine meets_then _ (meets_createPlaceholders_of_dispatches h) fun placeholders m' _ => ?_
  have hrest := (only_deliverAll cfg opts placeholders).mono fun _ => Plain.of_delivering
  exact (meets_plain hrest).mono (fun _ _ _ => trivial) fun _ _ _ => trivial

theorem Dispatches.extends {opts : DispatchOpts} {agents : List Agent}
    (h : Dispatches cfg opts agents m) (hm : m.Extends m') : Dispatches cfg opts agents m' := by
  refine ⟨hm.target.trans h.target, hm.thread.trans h.thread, h.distinct, ?_, ?_, ?_⟩
  · intro agent hagent
    rw [hm.done]
    exact h.fresh agent hagent
  · intro agent hagent
    exact hm.members (h.members agent hagent)
  · intro agentId
    exact (h.carries agentId).extends hm

theorem duties_resolveAgentSlugs (threadId : Uuid) (slugs : List String) :
    (resolveAgentSlugs threadId slugs).Meets (duties cfg)
      (fun resolved m' => m.Extends m' ∧ (resolved.map (·.2)).Nodup ∧
        ∀ uuid ∈ resolved.map (·.2), (threadId, uuid) ∈ m'.members) (fun _ _ => True) m := by
  refine meets_ite (fun _ => ⟨.refl m, List.nodup_nil, by simp⟩) fun _ => ?_
  refine meets_ask trivial (fun (rows : List (String × Uuid)) hrows => ?_) fun _ => trivial
  refine ⟨m.extends_meet threadId _, toMap_values hrows.1, fun uuid huuid => m.mem_meet ?_⟩
  obtain ⟨e, he, rfl⟩ := List.mem_map.mp huuid
  exact List.mem_map.mpr ⟨e, mem_of_mem_toMap he, rfl⟩

section Send

/-- Before a send inserts its message: members it has met, and no duty. -/
structure Prepared (threadId : Uuid) (uuids : List Uuid) (m : Duty) : Prop where
  idle : m.target = none
  distinct : uuids.Nodup
  members : ∀ uuid ∈ uuids, (threadId, uuid) ∈ m.members

theorem Prepared.extends {threadId : Uuid} {uuids : List Uuid} (h : Prepared threadId uuids m)
    (hm : m.Extends m') : Prepared threadId uuids m' :=
  ⟨hm.target.trans h.idle, h.distinct, fun uuid huuid => hm.members (h.members uuid huuid)⟩

theorem Prepared.sublist {threadId : Uuid} {uuids uuids' : List Uuid}
    (h : Prepared threadId uuids m) (hsub : uuids'.Sublist uuids) : Prepared threadId uuids' m :=
  ⟨h.idle, h.distinct.sublist hsub, fun uuid huuid => h.members uuid (hsub.subset huuid)⟩

/-- The user message is in; its replies go to prepared agents. -/
theorem Prepared.dispatches {opts : DispatchOpts} {agents : List Agent}
    (h : Prepared opts.threadId (agents.map (·.id)) m) (hchain : opts.chain = none) :
    Dispatches cfg opts agents (m.take opts.replyTo true (some opts.threadId)) where
  target := rfl
  thread := rfl
  distinct := h.distinct
  fresh _ _ hdone := hdone
  members agent hagent := h.members agent.id (List.mem_map.mpr ⟨agent, hagent, rfl⟩)
  carries _ := .inl ⟨rfl, hchain⟩

theorem duties_orDuplicate {text : String} {p : Handler Response}
    (h : p.Meets (duties cfg) (fun _ _ => True) (fun _ _ => True) m) :
    (orDuplicate text p).Meets (duties cfg) (fun _ _ => True) (fun _ _ => True) m := by
  refine (meets_tryCatch _ _).mpr (h.mono (fun _ _ _ => trivial) fun e m' _ => ?_)
  split
  · split
    · trivial
    · trivial
  · trivial

theorem duties_deliver (req : SendRequest) (text : String) (threadType : ThreadType)
    (lead : Option Uuid) (all : List Uuid) (targets : Option (List Uuid)) {agents : List Agent}
    (skipped : List (Uuid × String)) (h : Prepared req.threadId (agents.map (·.id)) m) :
    (deliver cfg req text threadType lead all targets agents skipped).Meets (duties cfg)
      (fun _ _ => True) (fun _ _ => True) m := by
  refine meets_ask h.idle (fun (userMsg : Uuid × ℕ) _ => ?_) fun _ => trivial
  refine meets_ask trivial (fun history _ => ?_) fun _ => trivial
  have hpeers := (only_peersOf threadType all).mono fun _ => Plain.of_routine
  refine meets_then _ (meets_plain hpeers) fun participants m' hm' => ?_
  refine meets_ite (fun _ => trivial) fun _ => ?_
  refine meets_then _ (meets_dispatch (.extends ?_ hm')) fun _ _ _ => trivial
  exact (h.sublist ((sublist_onlyLead lead agents).map _)).dispatches rfl

theorem duties_sendTo (req : SendRequest) (text : String) (threadType : ThreadType)
    (lead : Option Uuid) (all : List Uuid) {uuids : List Uuid} (targets : Option (List Uuid))
    (h : Prepared req.threadId uuids m) :
    (sendTo cfg req text threadType lead all uuids targets).Meets (duties cfg)
      (fun _ _ => True) (fun _ _ => True) m := by
  have hload := (only_loadKnownAgents uuids).mono fun _ => Plain.of_routine
  refine meets_then _ (meets_yielding hload (yields_loadKnownAgents uuids)) ?_
  rintro agents m₁ ⟨hsub, hm₁⟩
  refine meets_ite (fun _ => trivial) fun _ => ?_
  have hdeny := (only_deniedAgent req.user.admin agents).mono fun _ => Plain.of_routine
  refine meets_then _ (meets_plain hdeny) fun denied m₂ hm₂ => ?_
  cases denied with
  | some denied => trivial
  | none =>
    have hclassify := (only_classifyAgents req.threadId agents).mono fun _ => Plain.of_looking
    refine meets_then _ (meets_yielding hclassify (yields_classifyAgents req.threadId agents)) ?_
    rintro result m₃ ⟨hresult, hm₃⟩
    refine meets_ite (fun _ => trivial) fun _ => ?_
    apply duties_deliver
    exact (h.extends ((hm₁.trans hm₂).trans hm₃)).sublist ((hresult.map _).trans hsub)

theorem duties_sendMessage (req : SendRequest) :
    (sendMessage cfg req).Meets (duties cfg) (fun _ _ => True) (fun _ _ => True) .start := by
  have hallowed := (only_isParticipant req.threadId req.user).mono fun _ => Plain.of_routine
  refine duties_orDuplicate (meets_then _ (meets_plain hallowed) fun allowed m₁ hm₁ => ?_)
  refine meets_ite (fun _ => trivial) fun _ => ?_
  split
  · trivial
  · rename_i text _
    refine meets_ask trivial (fun (info : Option (ThreadType × Option Uuid)) _ => ?_) fun _ => trivial
    cases info with
    | none => trivial
    | some info =>
      obtain ⟨threadType, lead⟩ := info
      refine meets_ask trivial (fun (all : List Uuid) hall => ?_) fun _ => trivial
      refine meets_ite (fun _ => trivial) fun _ => ?_
      refine meets_ite (fun _ => ?_) fun _ => ?_
      · apply duties_sendTo
        exact ⟨hm₁.target, hall.1, fun uuid huuid => m₁.mem_meet huuid⟩
      · refine meets_then _ (duties_resolveAgentSlugs req.threadId _) ?_
        rintro resolved m₂ ⟨hm₂, hdistinct, hmembers⟩
        split
        · trivial
        · apply duties_sendTo
          exact ⟨hm₂.target.trans hm₁.target, hdistinct, hmembers⟩

theorem duties_openThread (req : CreateRequest) (threadType : ThreadType) (text : String)
    {agents toDispatch : List Agent} (hsub : toDispatch.Sublist agents) (hm : m.target = none) :
    (openThread cfg req threadType text agents toDispatch).Meets (duties cfg)
      (fun _ _ => True) (fun _ _ => True) m := by
  refine meets_ask hm (fun (row : Thread × Uuid × ℕ) hnodup => ?_) fun _ => trivial
  obtain ⟨thread, userMsg⟩ := row
  refine meets_then _ (meets_dispatch ?_) fun _ _ _ => trivial
  have hall : Prepared thread.id (agents.map (·.id)) (m.meet thread.id (agents.map (·.id))) :=
    ⟨hm, hnodup.1, fun uuid huuid => m.mem_meet huuid⟩
  exact (hall.sublist (hsub.map _)).dispatches rfl

theorem duties_createThread (req : CreateRequest) :
    (createThread cfg req).Meets (duties cfg) (fun _ _ => True) (fun _ _ => True) .start := by
  apply duties_orDuplicate
  split
  · trivial
  · rename_i uuids threadType text _
    have hload := (only_loadAgents uuids).mono fun _ => Plain.of_routine
    refine meets_then _ (meets_plain hload) fun loaded m₁ hm₁ => ?_
    cases loaded with
    | error uuid => trivial
    | ok agents =>
      have hdeny := (only_deniedAgent req.user.admin agents).mono fun _ => Plain.of_routine
      refine meets_then _ (meets_plain hdeny) fun denied m₂ hm₂ => ?_
      cases denied with
      | some denied => trivial
      | none =>
        refine meets_ite (fun _ => trivial) fun _ => meets_ite (fun _ => trivial) fun _ => ?_
        apply duties_openThread
        · exact (sublist_onlyLead _ _).trans List.filter_sublist
        · exact (hm₁.trans hm₂).target

end Send

section Callback

variable {id threadId chainId : Uuid} {hop : ℕ} {uuids uuids' : List Uuid}

/-- Before a callback extends its chain: the place of its message in the chain is read,
and nothing is dispatched yet. -/
structure Chained (id threadId chainId : Uuid) (hop : ℕ) (uuids : List Uuid) (m : Duty) : Prop where
  target : m.target = some id
  human : m.human = false
  thread : m.thread = some threadId
  link : m.link = .linked chainId hop
  done : m.done = ∅
  distinct : uuids.Nodup
  members : ∀ uuid ∈ uuids, (threadId, uuid) ∈ m.members

theorem Chained.extends (h : Chained id threadId chainId hop uuids m) (hm : m.Extends m') :
    Chained id threadId chainId hop uuids m' where
  target := hm.target.trans h.target
  human := hm.human.trans h.human
  thread := hm.thread.trans h.thread
  link := hm.link.trans h.link
  done := hm.done.trans h.done
  distinct := h.distinct
  members uuid huuid := hm.members (h.members uuid huuid)

theorem Chained.sublist (h : Chained id threadId chainId hop uuids m)
    (hsub : uuids'.Sublist uuids) : Chained id threadId chainId hop uuids' m :=
  { h with
    distinct := h.distinct.sublist hsub
    members := fun uuid huuid => h.members uuid (hsub.subset huuid) }

theorem Chained.dispatches {opts : DispatchOpts} {agents : List Agent}
    (h : Chained id opts.threadId chainId hop (agents.map (·.id)) m) (hreply : opts.replyTo = id)
    (hchain : opts.chain = some (chainId, some (hop + 1), some id))
    (hmax : cfg.maxChainHops.any (fun max => ((hop + 1 : ℕ) : ℤ) ≤ max) = true) :
    Dispatches cfg opts agents m where
  target := by rw [h.target, hreply]
  thread := h.thread
  distinct := h.distinct
  fresh agent _ hdone := by
    rw [h.done] at hdone
    exact hdone
  members agent hagent := h.members agent.id (List.mem_map.mpr ⟨agent, hagent, rfl⟩)
  carries _ := .inr ⟨h.human, chainId, hop, h.link, by rw [hchain, hreply], hmax⟩

theorem duties_dispatchChain {agents : List Agent}
    (h : Chained id threadId chainId hop (agents.map (·.id)) m)
    (hmax : cfg.maxChainHops.any (fun max => ((hop + 1 : ℕ) : ℤ) ≤ max) = true) :
    (dispatchChain cfg id threadId chainId (hop + 1) agents).Meets (duties cfg)
      (fun _ _ => True) (fun _ _ => True) m := by
  refine meets_ask trivial (fun history _ => ?_) fun _ => trivial
  refine meets_ask trivial (fun info _ => ?_) fun _ => trivial
  have hpeers := fun type => (only_groupPeers threadId type).mono fun _ => Plain.of_routine
  refine meets_then _ (meets_plain (hpeers _)) fun participants m' hm' => ?_
  refine meets_then _ (meets_dispatch ?_) fun _ _ _ => trivial
  exact (h.extends hm').dispatches rfl rfl hmax

theorem duties_continueChain (h : Chained id threadId chainId hop uuids m) :
    (continueChain cfg id threadId chainId (hop + 1) uuids).Meets (duties cfg)
      (fun _ _ => True) (fun _ _ => True) m := by
  refine meets_ite (fun hmax => ?_) fun _ => trivial
  have hstart := (only_chainStart chainId).mono fun _ => Plain.of_routine
  refine meets_then _ (meets_plain hstart) fun start m₁ hm₁ => ?_
  refine meets_ask trivial (fun now _ => ?_) fun _ => trivial
  refine meets_ite (fun _ => ?_) fun _ => trivial
  refine meets_ask trivial (fun (authors : List Uuid) _ => ?_) fun _ => trivial
  refine meets_ite (fun _ => trivial) fun _ => ?_
  have hlook := fun targets =>
    (only_eligibleAgents threadId targets).mono fun _ => Plain.of_looking
  refine meets_then _ (meets_yielding (hlook _) (yields_eligibleAgents threadId _)) ?_
  rintro agents m₂ ⟨hsub, hm₂⟩
  refine meets_ite (fun _ => trivial) fun _ => duties_dispatchChain ?_ hmax
  exact (h.extends (hm₁.trans hm₂)).sublist (hsub.trans List.filter_sublist)

theorem duties_orchestrate (b : CallbackBody) (htarget : m.target = some id)
    (hhuman : m.human = false) (hdone : m.done = ∅) :
    (orchestrate cfg id b).Meets (duties cfg) (fun _ _ => True) (fun _ _ => True) m := by
  refine meets_ite (fun _ => ?_) fun _ => trivial
  refine (meets_tryCatch _ _).mpr ?_
  refine meets_ask trivial (fun (trigger : Option Trigger) hcoherent => ?_) fun _ => trivial
  cases trigger with
  | none => trivial
  | some trigger =>
    have hread : (duties cfg).returned m (.selectTrigger id) (some trigger) = m.read trigger :=
      if_pos htarget
    rw [hread]
    refine meets_then _ (duties_resolveAgentSlugs trigger.threadId _) ?_
    rintro resolved m₁ ⟨hm₁, hdistinct, hmembers⟩
    refine meets_ite (fun _ => trivial) fun _ => ?_
    have hchained : ∀ {chainId : Uuid} {m' : Duty}, m'.target = m₁.target → m'.human = m₁.human →
        m'.thread = m₁.thread → m'.done = m₁.done → m'.members = m₁.members →
        m'.link = .linked chainId (trigger.chainHop.getD 0) →
        Chained id trigger.threadId chainId (trigger.chainHop.getD 0) (resolved.map (·.2)) m' := by
      intro chainId m' h₁ h₂ h₃ h₄ h₅ h₆
      refine ⟨?_, ?_, ?_, h₆, ?_, hdistinct, ?_⟩
      · rw [h₁, hm₁.target, ← htarget]
        rfl
      · rw [h₂, hm₁.human, ← hhuman]
        rfl
      · rw [h₃, hm₁.thread]
        rfl
      · rw [h₄, hm₁.done, ← hdone]
        rfl
      · rw [h₅]
        exact hmembers
    refine meets_then (fun chainId m' => Chained id trigger.threadId chainId
      (trigger.chainHop.getD 0) (resolved.map (·.2)) m') ?_ fun chainId m' h => ?_
    · unfold chainOf
      split
      · rename_i chainId hchain
        refine hchained rfl rfl rfl rfl rfl ?_
        rw [hm₁.link]
        simp only [Duty.read, hchain]
      · rename_i hchain
        have hhop : trigger.chainHop = none := hcoherent.2 trigger rfl hchain
        refine meets_ask trivial (fun (chainId : Uuid) _ => ?_) fun _ => trivial
        refine meets_ask ⟨?_, ?_⟩ (fun _ _ => ?_) fun _ => trivial
        · exact hm₁.target.trans htarget
        · change m₁.link = .absent
          rw [hm₁.link]
          simp only [Duty.read, hchain]
        · refine hchained rfl rfl rfl rfl rfl ?_
          rw [hhop]
          rfl
    · refine (duties_continueChain (h.sublist List.filter_sublist)).mono (fun _ _ _ => trivial)
        fun _ _ _ => trivial

theorem duties_chatCallbackHandler (req : CallbackRequest) :
    (chatCallbackHandler cfg req).Meets (duties cfg) (fun _ _ => True) (fun _ _ => True)
      .start := by
  have hnotUpdated : ∀ (id : Uuid) (m : Duty),
      (notUpdated id).Meets (duties cfg) (fun _ _ => True) (fun _ _ => True) m := by
    intro id m
    refine meets_ask trivial (fun (status : Option Status) _ => ?_) fun _ => trivial
    cases status <;> trivial
  unfold chatCallbackHandler
  split
  · trivial
  · refine meets_ite (fun _ => trivial) fun _ => ?_
    split
    · trivial
    · rename_i id _
      refine meets_ite (fun _ => trivial) fun _ => meets_ite (fun _ => ?_) fun _ => ?_
      · refine meets_ask trivial (fun (rowCount : ℕ) _ => ?_) fun _ => trivial
        refine meets_ite (fun _ => hnotUpdated id _) fun _ => ?_
        exact meets_ask trivial (fun _ _ => trivial) fun _ => trivial
      · refine meets_ask rfl (fun (rowCount : ℕ) _ => ?_) fun _ => trivial
        refine meets_ite (fun _ => hnotUpdated id _) fun hsome => ?_
        have htake : (duties cfg).returned .start (.finishMessage id req.body) rowCount =
            Duty.start.take id false none := if_neg hsome
        rw [htake]
        refine meets_ask trivial (fun _ _ => ?_) fun _ => trivial
        have hjournal := (only_journal cfg id req.body).mono fun _ => Plain.of_journal
        refine meets_then _ (meets_plain hjournal) fun _ m₁ hm₁ => ?_
        have hbatch := (only_completeBatch id).mono fun _ => Plain.of_batching
        refine meets_then _ (meets_plain hbatch) fun _ m₂ hm₂ => ?_
        have htag := (only_tagElevated id).mono fun _ => Plain.of_routine
        refine meets_then _ (meets_plain htag) fun _ m₃ hm₃ => ?_
        have hm := (hm₁.trans hm₂).trans hm₃
        exact meets_then _ (duties_orchestrate req.body hm.target hm.human hm.done)
          fun _ _ _ => trivial

end Callback

theorem meets_duties (cfg : Config) (q : Request) :
    (q.handler cfg).Meets (duties cfg) (fun _ _ => True) (fun _ _ => True) .start := by
  by_cases hpassive : q.isPassive = true
  · have honly := (only_passive cfg hpassive).mono fun _ => Plain.of_passive
    exact (meets_plain honly).mono (fun _ _ _ => trivial) fun _ _ _ => trivial
  · cases q with
    | createThread req => exact duties_createThread req
    | sendMessage req => exact duties_sendMessage req
    | callback req => exact duties_chatCallbackHandler req
    | _ => exact absurd rfl hpassive

end Meets

end Hill90.Chat
