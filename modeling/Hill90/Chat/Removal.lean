import Hill90.Foundation.Recheck
import Hill90.Chat.Contact

/-! # Agents that were removed from a thread

All that a request in flight may contact without another lookup is active, in every run in
which no agent leaves while a request may still contact it, and no lookup that ignores
`left_at` runs while a running agent has left.
-/

namespace Hill90.Chat

open Program Service

section Names

variable {slug : Uuid → String} {s s' : Store}

/-- The agents are as they were, but for a status and tokens of one of them. -/
theorem agents_of_run {st : Statement} {c : Choice} {rows : st.Rows}
    (hrun : st.run s c = .ok (rows, s')) :
    s'.agents = s.agents ∨ ∃ id f hf, (∀ a : Agent, (f a).agentId = a.agentId) ∧
      s' = s.rewriteAgent id f hf := by
  cases st
  case createThread type title createdBy lead ids content key =>
    obtain ⟨thread, row⟩ := rows
    obtain ⟨_, _, _, _, _, huser⟩ := addThread_ok hrun
    obtain ⟨_, _, hadd⟩ := addUserMessage_ok huser
    have hsame := agents_addMessage hadd
    exact .inl hsame
  case createUserMessage threadId userId content key targets =>
    simp only [Statement.run] at hrun
    cases hadd : s.addUserMessage threadId userId content key targets with
    | error e =>
      rw [hadd] at hrun
      cases hrun
    | ok result =>
      obtain ⟨row, s₁⟩ := result
      rw [hadd] at hrun
      cases hrun
      obtain ⟨_, _, hadd⟩ := addUserMessage_ok hadd
      have hsame := agents_addMessage hadd
      exact .inl hsame
  case createPlaceholder p =>
    obtain ⟨_, _, _, hadd⟩ := addPlaceholder_ok hrun
    exact .inl (agents_addMessage hadd)
  case addParticipant threadId id =>
    simp only [Statement.run, Store.addParticipant] at hrun
    split at hrun
    · cases hrun
    · split at hrun <;> cases hrun <;> exact .inl rfl
  case touchThread id =>
    cases hrun
    unfold Store.ofMessage
    split <;> exact .inl rfl
  case titleThread id =>
    cases hrun
    unfold Store.ofMessage
    split <;> exact .inl rfl
  case failAgent id detail =>
    cases hrun
    right
    refine ⟨_, _, _, ?_, rfl⟩
    exact fun _ => rfl
  case clearAgent id keepAkm keepModelRouter =>
    cases hrun
    right
    refine ⟨_, _, _, ?_, rfl⟩
    exact fun _ => rfl
  all_goals
    cases hrun
    exact .inl rfl

theorem named_iff : s.named slug = true ↔ ∀ a ∈ s.agents.rows, a.agentId = slug a.id := by
  simp [Store.named]

theorem named_of_run {st : Statement} {c : Choice} {rows : st.Rows} (hs : s.named slug = true)
    (hrun : st.run s c = .ok (rows, s')) : s'.named slug = true := by
  obtain hsame | ⟨id, f, hf, hagentId, rfl⟩ := agents_of_run hrun
  · rwa [Store.named, hsame]
  · rw [named_iff] at hs ⊢
    intro a ha
    obtain ⟨a₀, ha₀, ⟨_, rfl⟩ | ⟨_, _, _, _, rfl⟩⟩ := Table.mem_patchRows ha
    · exact hs _ ha₀
    · rw [hagentId, hf]
      exact hs a₀ ha₀

theorem named_answer {st : Statement} {c : Choice} {rows : st.Rows} (hs : s.named slug = true)
    (hrun : st.run s c = .ok (rows, s')) : named slug st rows := by
  cases st
  case getAgentForDispatch id =>
    cases hrun
    intro agent hagent
    exact named_iff.mp hs agent (Table.mem_of_get? hagent)
  all_goals trivial

end Names

section Active

variable {slug : Uuid → String} {cfg : Config} {s s' : Store} {st : PortalStatement}
  {c : AccessChoice} {rows : PortalRows st} {g : Contact}

/-- An agent of this name takes part in the thread and has not left it. -/
def Active (slug : Uuid → String) (s : Store) (g : Contact) : Prop :=
  ∃ uuid ∈ s.activeAgents g.1, slug uuid = g.2

/-- The request may contact the agent without another lookup. -/
def MayContact (slug : Uuid → String) (g : Contact) (p : PortalHandler PortalResponse) : Prop :=
  p.Reaches (contacting slug).returns (fun st => st.looksUp = true) fun st => g ∈ st.contacts slug

/-- Agents leave, and threads are deleted, while no request in flight may contact them, and a
lookup of any running agent finds none that has left. -/
structure KeepsAgents (slug : Uuid → String) (S : PortalState) (a : PortalMove) : Prop where
  left : ∀ threadId uuid c, S.taking a = some (.inl (.leaveThread threadId uuid), c) →
    ∀ i q p, S.requests i = some (q, p) → ¬MayContact slug (threadId, slug uuid) p
  deleted : ∀ threadId c, S.taking a = some (.inl (.deleteThread threadId), c) →
    ∀ i q p agentId, S.requests i = some (q, p) → ¬MayContact slug (threadId, agentId) p
  looked : ∀ threadId c, S.taking a = some (.inr (.selectRunningAgent threadId), c) →
    ∀ uuid ∈ S.store.agentsEver threadId, ∀ agent, S.store.agent? uuid = some agent →
      agent.status = "running" → uuid ∈ S.store.activeAgents threadId

theorem returned_of_not_looksUp {m : Set Contact} (h : st.looksUp ≠ true) :
    (contacting slug).returned m st rows = m := by
  cases st with
  | inl st => cases st <;> first | rfl | exact absurd rfl h
  | inr st => cases st <;> first | rfl | exact absurd rfl h

theorem rejected_of_looksUp {m : Set Contact} {e : Failure} (h : st.looksUp = true) :
    (contacting slug).rejected m st e = ∅ := by
  cases st <;> exact if_pos h

theorem rejected_of_not_looksUp {m : Set Contact} {e : Failure} (h : st.looksUp ≠ true) :
    (contacting slug).rejected m st e = m := by
  cases st <;> exact if_neg h

theorem named_of_reachable (hS : (portal slug cfg).ReachableIf (KeepsAgents slug) S) :
    S.store.named slug = true := by
  apply Service.store_invariant (I := fun s => s.named slug = true) hS
  · exact fun s hs => hs.2
  · intro s c st rows s' hs hrun
    cases st with
    | inl st =>
      change st.run s c.toChoice = .ok (rows, s') at hrun
      exact named_of_run hs hrun
    | inr st =>
      obtain rfl : s' = s := by cases st <;> cases hrun <;> rfl
      exact hs
  · intro s x s' _ hx
    change (if (x.change s).named slug then some (x.change s) else none) = some s' at hx
    split at hx
    · cases hx
      assumption
    · cases hx

/-- Whoever is active and may be contacted is so after each effect. -/
theorem active_of_effect {S : PortalState} {a : PortalMove} (hok : KeepsAgents slug S a)
    (htaking : S.taking a = some (st, c)) (hrun : st.run S.store c = .ok (rows, s')) {i : ℕ}
    {q : PortalRequest} {p : PortalHandler PortalResponse} (hi : S.requests i = some (q, p))
    (hmay : MayContact slug g p) (h : Active slug S.store g) : Active slug s' g := by
  obtain ⟨uuid, huuid, hslug⟩ := h
  refine ⟨uuid, ?_, hslug⟩
  cases st with
  | inl st =>
    change st.run S.store c.toChoice = .ok (rows, s') at hrun
    apply active_kept hrun huuid
    · rintro rfl
      refine hok.left _ _ _ htaking i q p hi ?_
      rwa [hslug]
    · rintro rfl
      exact hok.deleted _ _ htaking i q p g.2 hi hmay
  | inr st =>
    obtain rfl : s' = S.store := by cases st <;> cases hrun <;> rfl
    exact huuid

theorem active_of_lookup {S : PortalState} {a : PortalMove} {m : Set Contact}
    (hok : KeepsAgents slug S a) (hnamed : S.store.named slug = true)
    (htaking : S.taking a = some (st, c)) (hrun : st.run S.store c = .ok (rows, s'))
    (hlook : st.looksUp = true) (hg : g ∈ (contacting slug).returned m st rows) :
    Active slug s' g := by
  cases st with
  | inl st =>
    cases st
    case getThreadAgents threadId =>
      cases hrun
      obtain ⟨uuid, huuid, rfl⟩ := hg
      exact ⟨uuid, huuid, rfl⟩
    case resolveAgentSlugs threadId slugs =>
      cases hrun
      obtain ⟨uuid, huuid, rfl⟩ := hg
      refine ⟨uuid, List.Sublist.subset (filterMap_values ?_ (S.store.activeAgents threadId)) huuid, rfl⟩
      intro id e he
      obtain ⟨a, _, he⟩ := Option.bind_eq_some_iff.mp he
      split at he <;> cases he
      rfl
    case createThread type title createdBy lead ids content key =>
      obtain ⟨uuid, huuid, rfl⟩ := hg
      obtain ⟨thread, row⟩ := rows
      obtain ⟨_, _, _, hid, _⟩ := addThread_ok hrun
      exact ⟨uuid, (mem_activeAgents_addThread hrun).mpr (.inr ⟨hid, huuid⟩), rfl⟩
    all_goals cases hlook
  | inr st =>
    cases st
    case selectAgentParticipants threadId =>
      cases hrun
      obtain ⟨row, hrow, rfl⟩ := hg
      obtain ⟨uuid, huuid, hrow⟩ := List.mem_filterMap.mp hrow
      obtain ⟨agent, hagent, rfl⟩ := Option.map_eq_some_iff.mp hrow
      refine ⟨uuid, huuid, ?_⟩
      rw [named_iff.mp hnamed agent (Table.mem_of_get? hagent), Table.key_of_get? hagent]
    case selectRunningAgent threadId =>
      cases hrun
      obtain ⟨row, hrow, rfl⟩ := hg
      obtain ⟨uuid, huuid, hrow⟩ := List.mem_filterMap.mp (List.mem_of_getElem? hrow)
      obtain ⟨agent, hagent, hrow⟩ := Option.bind_eq_some_iff.mp hrow
      split at hrow
      · rename_i hrunning
        cases hrow
        refine ⟨uuid, hok.looked _ _ htaking uuid huuid agent hagent hrunning, ?_⟩
        rw [named_iff.mp hnamed agent (Table.mem_of_get? hagent), Table.key_of_get? hagent]
      · cases hrow
    all_goals cases hlook

theorem rechecks_contacting (slug : Uuid → String) (cfg : Config) :
    (portalService slug cfg).Rechecks (fun _ => contacting slug) (KeepsAgents slug)
      (fun _ st => st.looksUp = true) (fun g st => g ∈ st.contacts slug) (fun m g => g ∈ m)
      (fun g _ s => Active slug s g) where
  handler _ q _ := ⟨∅, meets_contacting cfg q, fun _ => id⟩
  acts _ m st g hmay hact := by
    cases st <;> exact hmay hact
  returned _ m st rows g hlook hknows := by
    rwa [returned_of_not_looksUp hlook] at hknows
  rejected _ m st e g hknows := by
    by_cases hlook : st.looksUp = true
    · rw [rejected_of_looksUp hlook] at hknows
      exact hknows.elim
    · rw [rejected_of_not_looksUp hlook] at hknows
      exact ⟨hlook, hknows⟩
  credible S c _ st rows s' hreach hrun := by
    have hnamed := named_of_reachable hreach
    cases st with
    | inl st =>
      change st.run S.store c.toChoice = .ok (rows, s') at hrun
      exact ⟨credible_of_run hrun, named_answer hnamed hrun⟩
    | inr st => trivial
  looked S a c _ m st rows s' g hreach hok htaking _ hrun hlook hknows :=
    active_of_lookup hok (named_of_reachable hreach) htaking hrun hlook hknows
  kept S a st c rows s' hok htaking hrun i q p g hi hmay hactive :=
    active_of_effect hok htaking hrun hi hmay hactive
  around S x s' _ hx i q p g _ _ hactive := by
    obtain ⟨uuid, huuid, hslug⟩ := hactive
    refine ⟨uuid, ?_, hslug⟩
    change (if (x.change S.store).named slug then some (x.change S.store) else none) = some s' at hx
    split at hx
    · cases hx
      cases x <;> exact huuid
    · cases hx

/-- Each agent that a request contacts for a thread is an active participant of it. -/
theorem contacts_active {T : PortalState} {i : ℕ}
    (hT : (portal slug cfg).ReachableIf (KeepsAgents slug) T) (hwait : T.waits i = some st)
    (hg : g ∈ st.contacts slug) : Active slug T.store g := by
  obtain ⟨q, k, r, hrequest⟩ := System.waits_eq_some.mp hwait
  exact (rechecks_contacting slug cfg).acted hT hrequest hg

/-- No agent leaves, no thread is deleted, and no running agent has left the thread of a lookup. -/
def keepsNow (S : PortalState) (a : PortalMove) : Bool :=
  match S.taking a with
  | some (.inl (.leaveThread ..), _) | some (.inl (.deleteThread _), _) => false
  | some (.inr (.selectRunningAgent threadId), _) =>
    (S.store.agentsEver threadId).all fun uuid => uuid ∈ S.store.activeAgents threadId
  | _ => true

theorem keepsAgents_of_keepsNow {S : PortalState} {a : PortalMove} (h : keepsNow S a = true) :
    KeepsAgents slug S a := by
  constructor
  · intro threadId uuid c htaking
    simp [keepsNow, htaking] at h
  · intro threadId c htaking
    simp [keepsNow, htaking] at h
  · intro threadId c htaking uuid huuid _ _ _
    simp only [keepsNow, htaking, List.all_eq_true, decide_eq_true_eq] at h
    exact h uuid huuid

end Active

namespace Sample

def slug (id : Uuid) : String := if id = 1 then "ann" else "bob"

def portalStart : PortalState := ⟨start.store, fun _ => none, 0⟩

def enter (i : ℕ) (q : PortalRequest) (n : ℕ) : List PortalMove :=
  .arrive q :: List.replicate n (.resume i {})

def portalAfter (moves : List PortalMove) : PortalState :=
  (portal slug config).after portalStart moves

theorem fresh_portalStart : (portal slug config).initial portalStart :=
  ⟨⟨⟨rfl, rfl, rfl⟩, by decide⟩, rfl, rfl⟩

end Sample

/-- A click reaches the one agent of a thread. -/
theorem contacts_active_sample :
    ∃ (moves : List PortalMove) (st : PortalStatement),
      (Sample.portalAfter moves).waits 1 = some st ∧ (10, "ann") ∈ st.contacts Sample.slug ∧
      Active Sample.slug (Sample.portalAfter moves).store (10, "ann") := by
  let action : BrowserAction := .click (some 50) (some 50)
  let moves := Sample.enter 0 (.inl (Sample.openThread [1])) 5 ++
    Sample.enter 1 (.inr (.browser Sample.user 10 action)) 2
  let st : PortalStatement := .inr (.postBrowser 10 "ann" action)
  have hT : (portal Sample.slug Sample.config).ReachableIf (KeepsAgents Sample.slug)
      (Sample.portalAfter moves) := by
    apply Machine.reachableIf_of_accepts (C := keepsNow) _ Sample.fresh_portalStart
      (by decide +kernel)
    intro S a _ h
    exact keepsAgents_of_keepsNow h
  have hwait : (Sample.portalAfter moves).waits 1 = some st := by decide +kernel
  exact ⟨moves, st, hwait, rfl, contacts_active hT hwait rfl⟩

/-- An agent that was removed from the thread gets a click through it. -/
theorem removed_agent_controlled :
    ¬ ∀ T, (portal Sample.slug Sample.config).Reachable T → ∀ i st, T.waits i = some st →
      ∀ g ∈ st.contacts Sample.slug, Active Sample.slug T.store g := by
  intro hall
  let action : BrowserAction := .click (some 50) (some 50)
  let moves := Sample.enter 0 (.inl (Sample.openThread [1, 2])) 7 ++
    Sample.enter 1 (.inl (.updateParticipants Sample.user 10 none [1])) 4 ++
    Sample.enter 2 (.inr (.browser Sample.user 10 action)) 2
  let st : PortalStatement := .inr (.postBrowser 10 "ann" action)
  have hT : (portal Sample.slug Sample.config).Reachable (Sample.portalAfter moves) :=
    ⟨_, moves, Sample.fresh_portalStart, Machine.run_after (by decide +kernel)⟩
  have hwait : (Sample.portalAfter moves).waits 2 = some st := by decide +kernel
  obtain ⟨uuid, huuid, hslug⟩ := hall _ hT 2 st hwait (10, "ann") rfl
  have hnobody : ∀ uuid ∈ (Sample.portalAfter moves).store.activeAgents 10,
      Sample.slug uuid ≠ "ann" := by decide +kernel
  exact hnobody uuid huuid hslug

end Hill90.Chat
