import Mathlib.Data.Set.Insert
import Hill90.Chat.Access
import Hill90.Chat.Answer
import Hill90.Chat.Membership

/-! # Whom a request contacts

A request looks the agents of a thread up and then contacts some of them.  What it may still
contact without another lookup is what its last lookup returned.  If agents leave only
while nobody may still contact them, and a lookup that does not ask for active agents finds
no running agent that has left, all contacts are with active agents.
-/

namespace Hill90.Chat

open Program Service

abbrev Contact := Uuid × String

def Statement.contacts (slug : Uuid → String) : Statement → Set Contact
  | createPlaceholder p => {(p.threadId, slug p.agentId)}
  | dispatchChatWork works => {g | ∃ w ∈ works, g = (w.threadId, w.agentId)}
  | _ => ∅

def Statement.looksUp : Statement → Bool
  | getThreadAgents _ | resolveAgentSlugs .. | createThread .. => true
  | _ => false

def contactsOf (slug : Uuid → String) (threadId : Uuid) (uuids : List Uuid) : Set Contact :=
  {g | ∃ uuid ∈ uuids, g = (threadId, slug uuid)}

def named (slug : Uuid → String) : (st : Statement) → st.Rows → Prop
  | .getAgentForDispatch _, (row : Option Agent) => ∀ agent ∈ row, agent.agentId = slug agent.id
  | _, _ => True

def lookups (slug : Uuid → String) : Discipline Statement Statement.Rows Failure (Set Contact) where
  may m st := st.contacts slug ⊆ m
  returns st rows := credible st rows ∧ named slug st rows
  returned
    | _, .getThreadAgents threadId, (rows : List Uuid) => contactsOf slug threadId rows
    | _, .resolveAgentSlugs threadId _, (rows : List (String × Uuid)) =>
      contactsOf slug threadId (rows.map (·.2))
    | _, .createThread _ _ _ _ agentUuids _ _, (row : Thread × Uuid × ℕ) =>
      contactsOf slug row.1.id agentUuids
    | m, _, _ => m
  rejected m st _ := if st.looksUp then ∅ else m

namespace AccessStatement

def contacts : AccessStatement → Set Contact
  | tailEvents threadId agentId _ => {(threadId, agentId)}
  | followEvents threadId agentIds _ => {g | ∃ agentId ∈ agentIds, g = (threadId, agentId)}
  | getScreenshot threadId agentId => {(threadId, agentId)}
  | postBrowser threadId agentId _ => {(threadId, agentId)}
  | relayTerminal threadId agentId _ => {(threadId, agentId)}
  | _ => ∅

def looksUp : AccessStatement → Bool
  | selectAgentParticipants _ | selectRunningAgent _ => true
  | _ => false

end AccessStatement

def accesses : Discipline AccessStatement AccessStatement.Rows Failure (Set Contact) where
  may m st := st.contacts ⊆ m
  returns _ _ := True
  returned
    | _, .selectAgentParticipants threadId, (rows : List AgentParticipant) =>
      {g | ∃ row ∈ rows, g = (threadId, row.agentId)}
    | _, .selectRunningAgent threadId, (row : Option RunningAgent) =>
      {g | ∃ agent ∈ row, g = (threadId, agent.agentId)}
    | m, _, _ => m
  rejected m st _ := if st.looksUp then ∅ else m

abbrev contacting (slug : Uuid → String) : Discipline PortalStatement PortalRows Failure (Set Contact) :=
  (lookups slug).sum accesses

def PortalStatement.contacts (slug : Uuid → String) : PortalStatement → Set Contact
  | .inl st => st.contacts slug
  | .inr st => st.contacts

def PortalStatement.looksUp : PortalStatement → Bool
  | .inl st => st.looksUp
  | .inr st => st.looksUp

section Meets

variable {slug : Uuid → String} {cfg : Config} {α : Type} {m : Set Contact} {threadId : Uuid}

def Statement.quiet : Statement → Bool
  | createPlaceholder _ | dispatchChatWork _ => false
  | st => !st.looksUp

def Statement.silent : Statement → Bool
  | createPlaceholder _ | dispatchChatWork _ => false
  | _ => true

abbrev Quiet (st : Statement) : Prop := st.quiet = true

abbrev Silent (st : Statement) : Prop := st.silent = true

theorem Quiet.of_routine {st : Statement} (h : Routine st) : Quiet st := by
  cases st <;> first | rfl | cases h

theorem Quiet.of_looking {st : Statement} (h : Looking st) : Quiet st := by
  cases st <;> first | rfl | cases h

theorem Quiet.of_batching {st : Statement} (h : Batching st) : Quiet st := by
  cases st <;> first | rfl | cases h

theorem Silent.of_passive {st : Statement} (h : Passive st) : Silent st := by
  cases st <;> first | rfl | cases h

theorem meets_quiet {p : Handler α} (h : Only Quiet p) :
    p.Meets (lookups slug) (fun _ m' => m' = m) (fun _ _ => True) m := by
  have hstable := h.meets_of_stable (D := lookups slug) (P := fun m' => m' = m) (m := m) ?_ rfl
  · exact hstable.mono (fun _ _ h => h) fun _ _ _ => trivial
  · rintro m' st rfl hst
    cases st <;> first | exact ⟨Set.empty_subset _, fun _ => rfl, fun _ => rfl⟩ | cases hst

theorem meets_quiet_yields {p : Handler α} {returns : (st : Statement) → st.Rows → Prop} {R : α → Prop}
    (h : Only Quiet p) (hreturns : ∀ st rows, (lookups slug).returns st rows → returns st rows)
    (hp : p.Yields returns R) :
    p.Meets (lookups slug) (fun a m' => R a ∧ m' = m) (fun _ _ => True) m :=
  (meets_quiet h).and_yields hreturns hp

theorem meets_silent {p : Handler α} (h : Only Silent p) :
    p.Meets (lookups slug) (fun _ _ => True) (fun _ _ => True) m := by
  have hstable := h.meets_of_stable (D := lookups slug) (P := fun _ => True) (m := m) ?_ trivial
  · exact hstable
  · intro m' st _ hst
    cases st <;>
      first | exact ⟨Set.empty_subset _, fun _ => trivial, fun _ => trivial⟩ | cases hst

def Knows (slug : Uuid → String) (threadId : Uuid) (m : Set Contact) (agents : List Agent) : Prop :=
  ∀ agent ∈ agents, agent.agentId = slug agent.id ∧ (threadId, agent.agentId) ∈ m

theorem Knows.of_subset {agents agents' : List Agent} (h : Knows slug threadId m agents)
    (hsub : agents' ⊆ agents) : Knows slug threadId m agents' :=
  fun agent hagent => h agent (hsub hagent)

theorem lookups_createPlaceholders {opts : DispatchOpts} {agents : List Agent}
    (h : Knows slug opts.threadId m agents) :
    (createPlaceholders opts agents).Meets (lookups slug)
      (fun placeholders m' => m' = m ∧ ∀ placeholder ∈ placeholders, placeholder.1 ∈ agents)
      (fun _ _ => True) m := by
  induction agents with
  | nil => exact ⟨rfl, by simp⟩
  | cons agent agents ih =>
    obtain ⟨hslug, hknown⟩ := h agent List.mem_cons_self
    refine meets_ask ?_ (fun (id : Uuid) _ => ?_) fun _ => trivial
    · rintro g rfl
      rwa [← hslug]
    · refine meets_then _ (ih (h.of_subset (List.subset_cons_self _ _))) ?_
      rintro rest m' ⟨rfl, hrest⟩
      refine ⟨rfl, fun placeholder hplaceholder => ?_⟩
      obtain rfl | hmem := List.mem_cons.mp hplaceholder
      · exact List.mem_cons_self
      · exact List.mem_cons_of_mem _ (hrest placeholder hmem)

theorem lookups_dispatchToAgents {opts : DispatchOpts} (h : Knows slug opts.threadId m opts.agents) :
    (dispatchToAgents cfg opts).Meets (lookups slug) (fun _ _ => True) (fun _ _ => True) m := by
  refine meets_then _ (lookups_createPlaceholders h) ?_
  rintro placeholders m' ⟨rfl, hplaceholders⟩
  refine meets_ite (fun _ => ?_) fun _ => ?_
  · have hrefuse := (only_refuseAll placeholders).mono fun _ hst =>
      Silent.of_passive (.of_closing hst)
    exact meets_then _ (meets_silent hrefuse) fun _ _ _ => trivial
  · refine meets_ask ?_ (fun (results : List DispatchOutcome) _ => ?_) fun _ => trivial
    · rintro g ⟨w, hw, rfl⟩
      obtain ⟨placeholder, hplaceholder, rfl⟩ := List.mem_map.mp hw
      exact (h _ (hplaceholders placeholder hplaceholder)).2
    · have hsettle := (only_settle placeholders results).mono fun _ hst =>
        Silent.of_passive (.of_closing hst)
      exact meets_silent hsettle

/-- Loading agents that were looked up gives agents the request may contact. -/
theorem knows_of_loaded {uuids : List Uuid} {agents : List Agent}
    (hm : contactsOf slug threadId uuids ⊆ m)
    (h : ∀ agent ∈ agents, agent.id ∈ uuids ∧ agent.agentId = slug agent.id) :
    Knows slug threadId m agents := by
  intro agent hagent
  obtain ⟨hmem, hslug⟩ := h agent hagent
  exact ⟨hslug, hm ⟨agent.id, hmem, by rw [hslug]⟩⟩

theorem loads_loadKnownAgents (uuids : List Uuid) :
    (loadKnownAgents uuids).Yields (lookups slug).returns fun agents =>
      ∀ agent ∈ agents, agent.id ∈ uuids ∧ agent.agentId = slug agent.id := by
  induction uuids with
  | nil => simp [loadKnownAgents, Yields, pure]
  | cons uuid uuids ih =>
    apply yields_ask
    rintro (row : Option Agent) ⟨hid, hslug⟩
    apply yields_then ih
    intro rest hrest agent hagent
    obtain hnew | hold := List.mem_append.mp hagent
    · have hrow : agent ∈ row := by simpa using hnew
      exact ⟨by simp [hid agent hrow], hslug agent hrow⟩
    · exact ⟨List.mem_cons_of_mem _ (hrest agent hold).1, (hrest agent hold).2⟩

theorem loads_loadAgents (uuids : List Uuid) :
    (loadAgents uuids).Yields (lookups slug).returns fun loaded => ∀ agents, loaded = .ok agents →
      ∀ agent ∈ agents, agent.agentId = slug agent.id := by
  induction uuids with
  | nil =>
    intro agents hagents
    cases hagents
    simp
  | cons uuid uuids ih =>
    apply yields_ask
    rintro (row : Option Agent) ⟨_, hslug⟩
    cases row with
    | none => exact fun _ h => nomatch h
    | some agent =>
      apply yields_then ih
      intro loaded hloaded agents hagents
      cases loaded with
      | error => cases hagents
      | ok rest =>
        cases hagents
        intro agent' hagent'
        obtain rfl | hmem := List.mem_cons.mp hagent'
        · exact hslug _ rfl
        · exact hloaded rest rfl agent' hmem

theorem loads_eligibleAgents (uuids : List Uuid) :
    (eligibleAgents threadId uuids).Yields (lookups slug).returns fun agents =>
      ∀ agent ∈ agents, agent.id ∈ uuids ∧ agent.agentId = slug agent.id := by
  induction uuids with
  | nil => simp [eligibleAgents, Yields, pure]
  | cons uuid uuids ih =>
    have hskip : (eligibleAgents threadId uuids).Yields (lookups slug).returns fun agents =>
        ∀ agent ∈ agents, agent.id ∈ uuid :: uuids ∧ agent.agentId = slug agent.id :=
      ih.mono fun agents h agent hagent =>
        ⟨List.mem_cons_of_mem _ (h agent hagent).1, (h agent hagent).2⟩
    apply yields_ask
    intro (scope : Option String) _
    cases scope with
    | some scope => exact hskip
    | none =>
      apply yields_ask
      rintro (row : Option Agent) ⟨hid, hslug⟩
      cases row with
      | none => exact hskip
      | some agent =>
        change Yields _ _ (if agent.isDispatchable = true then _ else _)
        split
        · apply yields_ask
          intro (pending : Bool) _
          apply yields_then hskip
          intro rest hrest
          change ∀ agent' ∈ (if pending then rest else agent :: rest), _
          split
          · exact hrest
          · intro agent' hagent'
            obtain rfl | hmem := List.mem_cons.mp hagent'
            · exact ⟨by simp [hid _ rfl], hslug _ rfl⟩
            · exact hrest agent' hmem
        · exact hskip

theorem lookups_resolveAgentSlugs (threadId : Uuid) (slugs : List String) :
    (resolveAgentSlugs threadId slugs).Meets (lookups slug)
      (fun resolved m' => contactsOf slug threadId (resolved.map (·.2)) ⊆ m')
      (fun _ _ => True) m := by
  refine meets_ite (fun _ => ?_) fun _ => ?_
  · rintro g ⟨uuid, huuid, _⟩
    cases huuid
  · refine meets_ask (Set.empty_subset _) (fun (rows : List (String × Uuid)) _ => ?_) fun _ => trivial
    rintro g ⟨uuid, huuid, rfl⟩
    obtain ⟨e, he, rfl⟩ := List.mem_map.mp huuid
    exact ⟨e.2, List.mem_map.mpr ⟨e, mem_of_mem_toMap he, rfl⟩, rfl⟩

theorem lookups_orDuplicate {text : String} {p : Handler Response}
    (h : p.Meets (lookups slug) (fun _ _ => True) (fun _ _ => True) m) :
    (orDuplicate text p).Meets (lookups slug) (fun _ _ => True) (fun _ _ => True) m := by
  refine (meets_tryCatch _ _).mpr (h.mono (fun _ _ _ => trivial) fun e m' _ => ?_)
  split
  · split <;> trivial
  · trivial

theorem lookups_deliver (req : SendRequest) (text : String) (threadType : ThreadType)
    (lead : Option Uuid) (all : List Uuid) (targets : Option (List Uuid)) {agents : List Agent}
    (skipped : List (Uuid × String)) (h : Knows slug req.threadId m agents) :
    (deliver cfg req text threadType lead all targets agents skipped).Meets (lookups slug)
      (fun _ _ => True) (fun _ _ => True) m := by
  refine meets_ask (Set.empty_subset _) (fun (userMsg : Uuid × ℕ) _ => ?_) fun _ => trivial
  refine meets_ask (Set.empty_subset _) (fun (history : List ChatLine) _ => ?_) fun _ => trivial
  have hpeers := (only_peersOf threadType all).mono fun _ => Quiet.of_routine
  refine meets_then _ (meets_quiet hpeers) ?_
  rintro participants m' rfl
  refine meets_ite (fun _ => trivial) fun _ => ?_
  refine meets_then _ (lookups_dispatchToAgents ?_) fun _ _ _ => trivial
  exact h.of_subset (sublist_onlyLead lead agents).subset

theorem lookups_sendTo (req : SendRequest) (text : String) (threadType : ThreadType)
    (lead : Option Uuid) (all : List Uuid) {uuids : List Uuid} (targets : Option (List Uuid))
    (h : contactsOf slug req.threadId uuids ⊆ m) :
    (sendTo cfg req text threadType lead all uuids targets).Meets (lookups slug)
      (fun _ _ => True) (fun _ _ => True) m := by
  have hquiet := (only_loadKnownAgents uuids).mono fun _ => Quiet.of_routine
  refine meets_then _ (meets_quiet_yields hquiet (fun _ _ h => h) (loads_loadKnownAgents uuids)) ?_
  rintro agents m' ⟨hloaded, rfl⟩
  refine meets_ite (fun _ => trivial) fun _ => ?_
  have hdeny := (only_deniedAgent req.user.admin agents).mono fun _ => Quiet.of_routine
  refine meets_then _ (meets_quiet hdeny) ?_
  rintro denied m' rfl
  cases denied with
  | some denied => trivial
  | none =>
    have hquiet := (only_classifyAgents req.threadId agents).mono fun _ => Quiet.of_looking
    refine meets_then _ (meets_quiet_yields hquiet (fun _ _ h => h.1)
      (yields_classifyAgents req.threadId agents)) ?_
    rintro result m' ⟨hresult, rfl⟩
    refine meets_ite (fun _ => trivial) fun _ => ?_
    exact lookups_deliver _ _ _ _ _ _ _ ((knows_of_loaded h hloaded).of_subset hresult.subset)

theorem lookups_sendMessage (req : SendRequest) :
    (sendMessage cfg req).Meets (lookups slug) (fun _ _ => True) (fun _ _ => True) m := by
  have hallowed := (only_isParticipant req.threadId req.user).mono fun _ => Quiet.of_routine
  refine lookups_orDuplicate (meets_then _ (meets_quiet hallowed) ?_)
  rintro allowed m' rfl
  refine meets_ite (fun _ => trivial) fun _ => ?_
  split
  · trivial
  · refine meets_ask (Set.empty_subset _) (fun (info : Option (ThreadType × Option Uuid)) _ => ?_)
      fun _ => trivial
    cases info with
    | none => trivial
    | some info =>
      obtain ⟨threadType, lead⟩ := info
      refine meets_ask (Set.empty_subset _) (fun (all : List Uuid) _ => ?_) fun _ => trivial
      refine meets_ite (fun _ => trivial) fun _ => ?_
      refine meets_ite (fun _ => ?_) fun _ => ?_
      · exact lookups_sendTo _ _ _ _ _ _ subset_rfl
      · refine meets_then _ (lookups_resolveAgentSlugs req.threadId _) fun resolved m' hm' => ?_
        split
        · trivial
        · exact lookups_sendTo _ _ _ _ _ _ hm'

theorem lookups_createThread (req : CreateRequest) :
    (createThread cfg req).Meets (lookups slug) (fun _ _ => True) (fun _ _ => True) m := by
  apply lookups_orDuplicate
  split
  · trivial
  · rename_i uuids type text _
    have hquiet := (only_loadAgents uuids).mono fun _ => Quiet.of_routine
    refine meets_then _ (meets_quiet_yields hquiet (fun _ _ h => h) (loads_loadAgents uuids)) ?_
    rintro loaded m' ⟨hloaded, rfl⟩
    cases loaded with
    | error uuid => trivial
    | ok agents =>
      have hdeny := (only_deniedAgent req.user.admin agents).mono fun _ => Quiet.of_routine
      refine meets_then _ (meets_quiet hdeny) ?_
      rintro denied m' rfl
      cases denied with
      | some denied => trivial
      | none =>
        refine meets_ite (fun _ => trivial) fun _ => meets_ite (fun _ => trivial) fun _ => ?_
        refine meets_ask (Set.empty_subset _) (fun (row : Thread × Uuid × ℕ) _ => ?_) fun _ => trivial
        obtain ⟨thread, userMsg⟩ := row
        refine meets_then _ (lookups_dispatchToAgents ?_) fun _ _ _ => trivial
        have hall : Knows slug thread.id (contactsOf slug thread.id (agents.map (·.id))) agents := by
          apply knows_of_loaded subset_rfl
          intro agent hagent
          exact ⟨List.mem_map.mpr ⟨agent, hagent, rfl⟩, hloaded agents rfl agent hagent⟩
        exact hall.of_subset ((sublist_onlyLead _ _).trans List.filter_sublist).subset

theorem lookups_dispatchChain {id chainId : Uuid} {newHop : ℕ} {agents : List Agent}
    (h : Knows slug threadId m agents) :
    (dispatchChain cfg id threadId chainId newHop agents).Meets (lookups slug)
      (fun _ _ => True) (fun _ _ => True) m := by
  refine meets_ask (Set.empty_subset _) (fun (history : List ChatLine) _ => ?_) fun _ => trivial
  refine meets_ask (Set.empty_subset _) (fun (info : Option (ThreadType × Option Uuid)) _ => ?_)
    fun _ => trivial
  have hpeers := fun type => (only_groupPeers threadId type).mono fun _ => Quiet.of_routine
  refine meets_then _ (meets_quiet (hpeers _)) ?_
  rintro participants m' rfl
  exact meets_then _ (lookups_dispatchToAgents h) fun _ _ _ => trivial

theorem lookups_continueChain {id chainId : Uuid} {newHop : ℕ} {targets : List Uuid}
    (h : contactsOf slug threadId targets ⊆ m) :
    (continueChain cfg id threadId chainId newHop targets).Meets (lookups slug)
      (fun _ _ => True) (fun _ _ => True) m := by
  refine meets_ite (fun _ => ?_) fun _ => trivial
  have hstart := (only_chainStart chainId).mono fun _ => Quiet.of_routine
  refine meets_then _ (meets_quiet hstart) ?_
  rintro start m' rfl
  refine meets_ask (Set.empty_subset _) (fun (now : ℕ) _ => ?_) fun _ => trivial
  refine meets_ite (fun _ => ?_) fun _ => trivial
  refine meets_ask (Set.empty_subset _) (fun (authors : List Uuid) _ => ?_) fun _ => trivial
  refine meets_ite (fun _ => trivial) fun _ => ?_
  have hquiet := (only_eligibleAgents threadId (targets.filter fun uuid => uuid ∉ authors)).mono
    fun _ => Quiet.of_looking
  refine meets_then _ (meets_quiet_yields hquiet (fun _ _ h => h) (loads_eligibleAgents _)) ?_
  rintro agents m' ⟨hloaded, rfl⟩
  refine meets_ite (fun _ => trivial) fun _ => lookups_dispatchChain ?_
  apply knows_of_loaded h
  intro agent hagent
  obtain ⟨hmem, hslug⟩ := hloaded agent hagent
  exact ⟨(List.mem_filter.mp hmem).1, hslug⟩

theorem lookups_orchestrate (id : Uuid) (b : CallbackBody) :
    (orchestrate cfg id b).Meets (lookups slug) (fun _ _ => True) (fun _ _ => True) m := by
  refine meets_ite (fun _ => ?_) fun _ => trivial
  refine (meets_tryCatch _ _).mpr ?_
  refine meets_ask (Set.empty_subset _) (fun (row : Option Trigger) _ => ?_) fun _ => trivial
  cases row with
  | none => trivial
  | some trigger =>
    refine meets_then _ ((lookups_resolveAgentSlugs trigger.threadId _).mono (fun _ _ h => h)
      fun _ _ _ => trivial) fun resolved m' hm' => ?_
    refine meets_ite (fun _ => trivial) fun _ => ?_
    have hchain : (chainOf id trigger).Meets (lookups slug) (fun _ m'' => m'' = m')
        (fun _ _ => True) m' := by
      unfold chainOf
      split
      · exact rfl
      · refine meets_ask (Set.empty_subset _) (fun (chainId : Uuid) _ => ?_) fun _ => trivial
        exact meets_ask (Set.empty_subset _) (fun _ _ => rfl) fun _ => trivial
    refine meets_then _ (hchain.mono (fun _ _ h => h) fun _ _ _ => trivial) ?_
    rintro chainId m'' rfl
    have htargets : contactsOf slug trigger.threadId ((resolved.map (·.2)).filter fun u =>
        u ≠ trigger.authorId) ⊆ m'' := by
      rintro g ⟨uuid, huuid, rfl⟩
      exact hm' ⟨uuid, (List.mem_filter.mp huuid).1, rfl⟩
    exact (lookups_continueChain htargets).mono (fun _ _ _ => trivial) fun _ _ _ => trivial

theorem lookups_finalCallback (id : Uuid) (b : CallbackBody) :
    (finalCallback cfg id b).Meets (lookups slug) (fun _ _ => True) (fun _ _ => True) m := by
  refine meets_ask (Set.empty_subset _) (fun (rowCount : ℕ) _ => ?_) fun _ => trivial
  refine meets_ite (fun _ => ?_) fun _ => ?_
  · have hnot := (only_notUpdated id).mono fun _ h => Silent.of_passive (.of_routine h)
    exact meets_silent hnot
  · refine meets_ask (Set.empty_subset _) (fun _ _ => ?_) fun _ => trivial
    have hjournal : Only Quiet (journal cfg id b) := by
      refine (only_journal cfg id b).mono ?_
      rintro st (hst | rfl)
      · exact .of_routine hst
      · rfl
    refine meets_then _ (meets_quiet hjournal) ?_
    rintro _ m' rfl
    refine meets_then _ (meets_quiet ((only_completeBatch id).mono fun _ => .of_batching)) ?_
    rintro _ m' rfl
    refine meets_then _ (meets_quiet ((only_tagElevated id).mono fun _ => .of_routine)) ?_
    rintro _ m' rfl
    exact meets_then _ (lookups_orchestrate id b) fun _ _ _ => trivial

theorem lookups_chatCallbackHandler (req : CallbackRequest) :
    (chatCallbackHandler cfg req).Meets (lookups slug) (fun _ _ => True) (fun _ _ => True) m := by
  unfold chatCallbackHandler
  split
  · trivial
  · refine meets_ite (fun _ => trivial) fun _ => ?_
    split
    · trivial
    · rename_i id _
      refine meets_ite (fun _ => trivial) fun _ => meets_ite (fun _ => ?_) fun _ => ?_
      · refine meets_ask (Set.empty_subset _) (fun (rowCount : ℕ) _ => ?_) fun _ => trivial
        refine meets_ite (fun _ => ?_) fun _ => ?_
        · have hnot := (only_notUpdated id).mono fun _ h => Silent.of_passive (.of_routine h)
          exact meets_silent hnot
        · exact meets_ask (Set.empty_subset _) (fun _ _ => trivial) fun _ => trivial
      · exact lookups_finalCallback id req.body

theorem meets_lookups (cfg : Config) (q : Request) :
    (q.handler cfg).Meets (lookups slug) (fun _ _ => True) (fun _ _ => True) m := by
  by_cases hpassive : q.isPassive = true
  · exact meets_silent ((only_passive cfg hpassive).mono fun _ => .of_passive)
  · cases q with
    | createThread req => exact lookups_createThread req
    | sendMessage req => exact lookups_sendMessage req
    | callback req => exact lookups_chatCallbackHandler req
    | _ => exact absurd rfl hpassive

section Access

variable {user : User}

theorem contacting_widen {β : Type} {p : Handler β} {Q : β → Set Contact → Prop}
    (h : p.Meets (lookups slug) Q (fun _ _ => True) m) :
    (p.widen : PortalHandler β).Meets (contacting slug) Q (fun _ _ => True) m := meets_widen h

theorem contacting_isParticipant :
    ((isParticipant threadId user).widen : PortalHandler Bool).Meets (contacting slug)
      (fun _ m' => m' = m) (fun _ _ => True) m :=
  contacting_widen (meets_quiet ((only_isParticipant threadId user).mono fun _ => .of_routine))

theorem contacting_readEvents {tail : ℕ} {ids : List Uuid} {agentIds : List String}
    {events : List Event} {failed : List String} (h : ∀ agentId ∈ agentIds, (threadId, agentId) ∈ m) :
    (Access.readEvents threadId tail ids agentIds events failed).Meets (contacting slug)
      (fun _ _ => True) (fun _ _ => True) m := by
  induction agentIds generalizing events failed with
  | nil => exact meets_ite (fun _ => trivial) fun _ => trivial
  | cons agentId agentIds ih =>
    have hrest : ∀ events failed,
        (Access.readEvents threadId tail ids agentIds events failed).Meets (contacting slug)
          (fun _ _ => True) (fun _ _ => True) m :=
      fun _ _ => ih fun id hid => h id (List.mem_cons_of_mem _ hid)
    refine meets_then (fun _ m' => m' = m) ((meets_tryCatch _ _).mpr ?_) ?_
    · refine ⟨?_, fun _ _ => rfl, fun _ => rfl⟩
      rintro g rfl
      exact h agentId List.mem_cons_self
    · rintro read m' rfl
      cases read with
      | ok read => exact hrest _ _
      | error err => exact meets_ite (fun _ => trivial) fun _ => hrest _ _

theorem contacting_threadEvents (follow : Bool) (parsedTail : Option ℤ) :
    (Access.threadEvents user threadId follow parsedTail).Meets (contacting slug)
      (fun _ _ => True) (fun _ _ => True) m := by
  refine (meets_tryCatch _ _).mpr ?_
  refine meets_then _ (contacting_isParticipant.mono (fun _ _ h => h) fun _ _ _ => trivial) ?_
  rintro allowed m' rfl
  refine meets_ite (fun _ => trivial) fun _ => ?_
  refine meets_ask (Set.empty_subset _) (fun (rows : List AgentParticipant) _ => ?_) fun _ => trivial
  refine meets_ite (fun _ => trivial) fun _ => ?_
  refine meets_ask (Set.empty_subset _) (fun (ids : List Uuid) _ => ?_) fun _ => trivial
  have hknown : ∀ agentId ∈ (rows.filter fun a => a.status = "running").map (·.agentId),
      (threadId, agentId) ∈ {g : Contact | ∃ row ∈ rows, g = (threadId, row.agentId)} := by
    intro agentId hagentId
    obtain ⟨row, hrow, rfl⟩ := List.mem_map.mp hagentId
    exact ⟨row, (List.mem_filter.mp hrow).1, rfl⟩
  refine meets_ite (fun _ => ?_) fun _ => ?_
  · refine meets_then (fun _ _ => True) ((meets_tryCatch _ _).mpr ?_) fun _ _ _ => trivial
    refine ⟨?_, fun _ _ => trivial, fun _ => trivial⟩
    rintro g ⟨agentId, hagentId, rfl⟩
    exact hknown agentId hagentId
  · exact (contacting_readEvents hknown).mono (fun _ _ _ => trivial) fun _ _ _ => trivial

theorem contacting_selected {β : Type} {f : Option RunningAgent → PortalHandler β}
    (hnone : (f none).Meets (contacting slug) (fun _ _ => True) (fun _ _ => True) ∅)
    (hsome : ∀ agent, (f (some agent)).Meets (contacting slug) (fun _ _ => True)
      (fun _ _ => True) {(threadId, agent.agentId)}) :
    (Access.ask (.selectRunningAgent threadId) >>= f).Meets (contacting slug)
      (fun _ _ => True) (fun _ _ => True) m := by
  refine meets_ask (Set.empty_subset _) (fun (row : Option RunningAgent) _ => ?_) fun _ => trivial
  cases row with
  | none =>
    have hempty : {g : Contact | ∃ agent ∈ (none : Option RunningAgent),
        g = (threadId, agent.agentId)} = ∅ := by simp
    change Meets _ _ _ _ {g : Contact | ∃ agent ∈ (none : Option RunningAgent), _}
    rw [hempty]
    exact hnone
  | some agent =>
    have hone : {g : Contact | ∃ agent' ∈ some agent, g = (threadId, agent'.agentId)} =
        {(threadId, agent.agentId)} := by
      ext g
      simp
    change Meets _ _ _ _ {g : Contact | ∃ agent' ∈ some agent, _}
    rw [hone]
    exact hsome agent

theorem contacting_screenshot :
    (Access.screenshot user threadId).Meets (contacting slug) (fun _ _ => True) (fun _ _ => True)
      m := by
  refine (meets_tryCatch _ _).mpr (Meets.mono (E := fun _ _ => True) ?_ (fun _ _ h => h) ?_)
  · refine meets_then _ contacting_isParticipant ?_
    rintro allowed m' rfl
    refine meets_ite (fun _ => trivial) fun _ => ?_
    refine contacting_selected trivial fun agent => ?_
    exact meets_ask subset_rfl (fun _ _ => trivial) fun _ => trivial
  · exact fun _ _ _ => meets_ite (fun _ => trivial) fun _ => trivial

theorem contacting_proxyBrowserAction (action : BrowserAction) :
    (Access.proxyBrowserAction user threadId action).Meets (contacting slug) (fun _ _ => True)
      (fun _ _ => True) m := by
  unfold Access.proxyBrowserAction
  split
  · trivial
  · refine meets_then _ contacting_isParticipant ?_
    rintro allowed m' rfl
    refine meets_ite (fun _ => trivial) fun _ => ?_
    refine contacting_selected trivial fun agent => ?_
    refine (meets_tryCatch _ _).mpr ?_
    refine meets_ask subset_rfl (fun _ _ => trivial) fun err => ?_
    exact meets_ite (fun _ => trivial) fun _ => trivial

theorem contacting_terminal (req : Access.Upgrade) :
    (Access.terminal req).Meets (contacting slug) (fun _ _ => True) (fun _ _ => True) m := by
  refine (meets_tryCatch _ _).mpr (Meets.mono (E := fun _ _ => True) ?_ (fun _ _ h => h)
    fun _ _ _ => trivial)
  refine meets_ite (fun _ => trivial) fun _ => ?_
  split
  · trivial
  · rename_i user _
    refine meets_ite (fun _ => trivial) fun _ => ?_
    have hallowed : (Access.mayEnter req.threadId user).Meets (contacting slug)
        (fun _ _ => True) (fun _ _ => True) m :=
      meets_ite (fun _ => trivial) fun _ =>
        ⟨Set.empty_subset _, fun _ _ => trivial, fun _ => trivial⟩
    refine meets_then _ hallowed fun allowed m' _ => ?_
    refine meets_ite (fun _ => trivial) fun _ => ?_
    refine contacting_selected trivial fun agent => ?_
    exact meets_ask subset_rfl (fun _ _ => trivial) fun _ => trivial

theorem meets_contacting (cfg : Config) (q : PortalRequest) :
    (q.handler cfg).Meets (contacting slug) (fun _ _ => True) (fun _ _ => True) ∅ := by
  cases q with
  | inl q => exact meets_then _ (contacting_widen (meets_lookups cfg q)) fun _ _ _ => trivial
  | inr q =>
    refine meets_then (fun _ _ => True) ?_ fun _ _ _ => trivial
    cases q with
    | events user threadId follow parsedTail => exact contacting_threadEvents follow parsedTail
    | screenshot user threadId => exact contacting_screenshot
    | browser user threadId action => exact contacting_proxyBrowserAction action
    | terminal req => exact contacting_terminal req

end Access

end Meets

end Hill90.Chat
