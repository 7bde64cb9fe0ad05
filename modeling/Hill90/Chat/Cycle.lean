import Hill90.Foundation.Slots
import Hill90.Chat.Answer

/-! # One turn for each agent of a chain

A callback that extends a chain looks for the authors of its messages and dispatches
only agents that are not among them.  The look sees complete and pending messages; it
excludes neither an agent that is `thinking` or has failed, nor one that another callback
is about to dispatch.  In a run in which it would miss nobody, no agent has two messages
in a chain.
-/

namespace Hill90.Chat

open Program Service

/-- The statement tells a request which agents it may dispatch in the chain. -/
def Statement.Admits (turn : Uuid × Uuid) : Statement → Prop
  | selectChainAuthors chainId => chainId = turn.1
  | randomUUID => True
  | _ => False

/-- The statement gives the agent a message in the chain. -/
def Statement.Enlists (turn : Uuid × Uuid) : Statement → Prop
  | createPlaceholder p => ∃ chain ∈ p.chain, chain.1 = turn.1 ∧ p.agentId = turn.2
  | startChain chainId _ => chainId = turn.1
  | _ => False

def Store.turns (s : Store) (turn : Uuid × Uuid) : Set Uuid :=
  {id | ∃ m ∈ s.messages.rows, m.authorType = .agent ∧ m.chainId = some turn.1 ∧
    m.authorId = turn.2 ∧ m.id = id}

def chainTurns : Slots Statement Store (Uuid × Uuid) where
  occupants := Store.turns
  allows := Statement.Admits
  opens := Statement.Enlists

/-- The request can still dispatch the agent in the chain without a look at its authors. -/
def Invited (chainId agentUuid : Uuid) (p : Handler Response) : Prop :=
  chainTurns.Holds credible (chainId, agentUuid) p

/-- A look at a chain that finds no complete or pending message of an agent it may lead
to finds no message of the agent at all, and no other request may still dispatch it. -/
def ScansInTime (S : State) (a : ChatMove) : Prop :=
  ∀ i c q chainId agentUuid k r, a = .resume i c →
    S.requests i = some (q, .await (.selectChainAuthors chainId) k r) →
    (∃ rows : List Uuid, Invited chainId agentUuid (k rows)) →
    (∀ m ∈ S.store.chainMessages chainId, m.authorType = .agent → m.authorId = agentUuid →
      m.status ≠ .complete ∧ m.status ≠ .pending) →
    (∀ m ∈ S.store.chainMessages chainId, m.authorType = .agent → m.authorId ≠ agentUuid) ∧
      ∀ j q' p', j ≠ i → S.requests j = some (q', p') → ¬Invited chainId agentUuid p'

/-- The chains a request has seen, and the agents it may put into one. -/
structure Invitations where
  known : Set Uuid
  held : Set (Uuid × Uuid)

namespace Invitations

variable (m : Invitations)

def learn (chainId : Uuid) : Invitations := { m with known := insert chainId m.known }

def learnOf (t : Trigger) : Invitations := t.chainId.elim m m.learn

def begin (chainId : Uuid) : Invitations := ⟨insert chainId m.known, {g | g.1 = chainId}⟩

def invite (chainId : Uuid) (authors : List Uuid) : Invitations :=
  { m with held := {g | g.1 = chainId ∧ g.2 ∉ authors} }

def drop : Invitations := { m with held := ∅ }

def use (p : Placeholder) : Invitations :=
  { m with held := {g ∈ m.held | p.chain.map (·.1) = some g.1 → p.agentId ≠ g.2} }

end Invitations

def invitations : Discipline Statement Statement.Rows Failure Invitations where
  may
    | m, .selectChainAuthors chainId => chainId ∈ m.known ∧ m.held = ∅
    | m, .randomUUID => m.held = ∅
    | m, .startChain chainId _ => ∀ agentUuid, (chainId, agentUuid) ∈ m.held
    | m, .createPlaceholder p => ∀ chain ∈ p.chain, (chain.1, p.agentId) ∈ m.held
    | _, _ => True
  returns := credible
  returned
    | m, .selectTrigger _, (row : Option Trigger) => row.elim m m.learnOf
    | m, .selectChainAuthors chainId, (rows : List Uuid) => m.invite chainId rows
    | m, .randomUUID, (chainId : Uuid) => m.begin chainId
    | m, .startChain .., _ => m.drop
    | m, .createPlaceholder p, _ => m.use p
    | m, _, _ => m
  rejected
    | m, .startChain .., _ => m.drop
    | m, .createPlaceholder p, _ => m.use p
    | m, _, _ => m

section Meets

variable {cfg : Config} {α : Type} {m : Invitations} {id threadId chainId : Uuid}

def Statement.unchained : Statement → Bool
  | selectTrigger _ | selectChainAuthors _ | randomUUID | startChain .. => false
  | createPlaceholder p => p.chain.isNone
  | _ => true

abbrev Unchained (st : Statement) : Prop := st.unchained = true

theorem Unchained.of_passive {st : Statement} (h : Passive st) : Unchained st := by
  cases st <;> first | rfl | cases h

theorem Unchained.of_routine {st : Statement} (h : Routine st) : Unchained st :=
  .of_passive (.of_routine h)

theorem Unchained.of_delivering {st : Statement} (h : Delivering st) : Unchained st := by
  cases st <;> first | rfl | cases h

theorem Unchained.of_batching {st : Statement} (h : Batching st) : Unchained st := by
  cases st <;> first | rfl | cases h

theorem Unchained.of_looking {st : Statement} (h : Looking st) : Unchained st := by
  cases st <;> first | rfl | cases h

theorem Unchained.of_sending {st : Statement} (h : Sending st) : Unchained st := by
  cases st <;> first | exact h | rfl

theorem Unchained.of_journal {st : Statement} (h : Routine st ∨ st = .selectJournal id) :
    Unchained st := by
  obtain h | rfl := h
  · exact .of_routine h
  · rfl

theorem use_of_unchained (m : Invitations) {p : Placeholder} (h : p.chain = none) : m.use p = m := by
  simp [Invitations.use, h]

theorem steady_of_unchained {st : Statement} (h : Unchained st) :
    invitations.may m st ∧ (∀ rows, invitations.returned m st rows = m) ∧
      ∀ e, invitations.rejected m st e = m := by
  cases st
  case createPlaceholder p =>
    have hnone : p.chain = none := Option.isNone_iff_eq_none.mp h
    have hsame := use_of_unchained m hnone
    refine ⟨fun chain hchain => ?_, fun _ => hsame, fun _ => hsame⟩
    rw [hnone] at hchain
    cases hchain
  all_goals first | exact ⟨trivial, fun _ => rfl, fun _ => rfl⟩ | cases h

theorem meets_unchained {p : Handler α} (h : Only Unchained p) :
    p.Meets invitations (fun _ m' => m' = m) (fun _ _ => True) m :=
  h.meets (fun _ hst => steady_of_unchained hst) (fun _ => rfl) fun _ => trivial

theorem unchained_yielding {R : α → Prop} {p : Handler α} (h : Only Unchained p)
    (hp : p.Yields credible R) :
    p.Meets invitations (fun a m' => R a ∧ m' = m) (fun _ _ => True) m :=
  (meets_unchained h).and_yields (fun _ _ h => h) hp

/-- Distinct agents, each invited to the chain. -/
def Welcome (chainId : Uuid) (agents : List Agent) (m : Invitations) : Prop :=
  (agents.map (·.id)).Nodup ∧ ∀ agent ∈ agents, (chainId, agent.id) ∈ m.held

theorem meets_createPlaceholders_of_welcome (opts : DispatchOpts) {hop : Option ℕ}
    {trigger : Option Uuid} (hchain : opts.chain = some (chainId, hop, trigger))
    {agents : List Agent} (h : Welcome chainId agents m) :
    (createPlaceholders opts agents).Meets invitations (fun _ _ => True) (fun _ _ => True) m := by
  induction agents generalizing m with
  | nil => trivial
  | cons agent agents ih =>
    obtain ⟨hnodup, hheld⟩ := h
    obtain ⟨hfresh, hnodup⟩ := List.nodup_cons.mp hnodup
    refine meets_ask (fun chain hmem => ?_) (fun newId _ => ?_) fun _ => trivial
    · rw [hchain] at hmem
      cases hmem
      exact hheld agent List.mem_cons_self
    · refine meets_then (fun _ _ => True) (ih ⟨hnodup, fun agent' hagent' => ?_⟩) fun _ _ _ => trivial
      refine ⟨hheld agent' (List.mem_cons_of_mem agent hagent'), fun _ heq => hfresh ?_⟩
      exact List.mem_map.mpr ⟨agent', hagent', heq.symm⟩

theorem meets_dispatch_of_welcome (opts : DispatchOpts) {hop : Option ℕ} {trigger : Option Uuid}
    (hchain : opts.chain = some (chainId, hop, trigger)) (h : Welcome chainId opts.agents m) :
    (dispatchToAgents cfg opts).Meets invitations (fun _ _ => True) (fun _ _ => True) m := by
  refine meets_then _ (meets_createPlaceholders_of_welcome opts hchain h) fun placeholders m' _ => ?_
  have hrest := (only_deliverAll cfg opts placeholders).mono fun _ => Unchained.of_delivering
  exact (meets_unchained hrest).mono (fun _ _ _ => trivial) fun _ _ _ => trivial

theorem invitations_dispatchChain {newHop : ℕ} {agents : List Agent} (h : Welcome chainId agents m) :
    (dispatchChain cfg id threadId chainId newHop agents).Meets invitations
      (fun _ _ => True) (fun _ _ => True) m := by
  refine meets_ask trivial (fun history _ => ?_) fun _ => trivial
  refine meets_ask trivial (fun info _ => ?_) fun _ => trivial
  have hpeers := fun type => (only_groupPeers threadId type).mono fun _ => Unchained.of_routine
  refine meets_then _ (meets_unchained (hpeers _)) ?_
  rintro participants m' rfl
  exact meets_then _ (meets_dispatch_of_welcome _ rfl h) fun _ _ _ => trivial

theorem invitations_continueChain {newHop : ℕ} {uuids : List Uuid} (hknown : chainId ∈ m.known)
    (hheld : m.held = ∅) (hnodup : uuids.Nodup) :
    (continueChain cfg id threadId chainId newHop uuids).Meets invitations
      (fun _ _ => True) (fun _ _ => True) m := by
  refine meets_ite (fun _ => ?_) fun _ => trivial
  have hstart := (only_chainStart chainId).mono fun _ => Unchained.of_routine
  refine meets_then _ (meets_unchained hstart) ?_
  rintro start m' rfl
  refine meets_ask trivial (fun now _ => ?_) fun _ => trivial
  refine meets_ite (fun _ => ?_) fun _ => trivial
  refine meets_ask ⟨hknown, hheld⟩ (fun (authors : List Uuid) _ => ?_) fun _ => trivial
  refine meets_ite (fun _ => trivial) fun _ => ?_
  have hlook := fun targets =>
    (only_eligibleAgents threadId targets).mono fun _ => Unchained.of_looking
  refine meets_then _ (unchained_yielding (hlook _) (yields_eligibleAgents threadId _)) ?_
  rintro agents m' ⟨hsub, rfl⟩
  refine meets_ite (fun _ => trivial) fun _ => invitations_dispatchChain ⟨?_, fun agent hagent => ?_⟩
  · exact (hnodup.sublist List.filter_sublist).sublist hsub
  · have hmem := hsub.subset (List.mem_map.mpr ⟨agent, hagent, rfl⟩)
    exact ⟨rfl, by simpa using (List.mem_filter.mp hmem).2⟩

theorem invitations_chainOf {trigger : Trigger} (hheld : m.held = ∅) :
    (chainOf id trigger).Meets invitations
      (fun chainId m' => chainId ∈ m'.known ∧ m'.held = ∅) (fun _ _ => True)
      (m.learnOf trigger) := by
  unfold chainOf
  split
  · rename_i chainId hchain
    simp only [Invitations.learnOf, hchain, Option.elim_some]
    exact ⟨Set.mem_insert _ _, hheld⟩
  · rename_i hchain
    simp only [Invitations.learnOf, hchain, Option.elim_none]
    refine meets_ask hheld (fun (chainId : Uuid) _ => ?_) fun _ => trivial
    refine meets_ask (fun agentUuid => rfl) (fun _ _ => ?_) fun _ => trivial
    exact ⟨Set.mem_insert _ _, rfl⟩

theorem invitations_orchestrate (b : CallbackBody) (hheld : m.held = ∅) :
    (orchestrate cfg id b).Meets invitations (fun _ _ => True) (fun _ _ => True) m := by
  refine meets_ite (fun _ => ?_) fun _ => trivial
  refine (meets_tryCatch _ _).mpr ?_
  refine meets_ask trivial (fun (trigger : Option Trigger) _ => ?_) fun _ => trivial
  cases trigger with
  | none => trivial
  | some trigger =>
    have hresolve := fun slugs =>
      (only_resolveAgentSlugs trigger.threadId slugs).mono fun _ h =>
        Unchained.of_delivering (.of_closing (.of_seeking h))
    refine meets_then _
      (unchained_yielding (hresolve _) (yields_resolveAgentSlugs trigger.threadId _)) ?_
    rintro resolved m' ⟨hnodup, rfl⟩
    refine meets_ite (fun _ => trivial) fun _ => ?_
    refine meets_then _ (invitations_chainOf hheld) ?_
    rintro chainId m' ⟨hknown, hnone⟩
    refine (invitations_continueChain hknown hnone ?_).mono (fun _ _ _ => trivial) fun _ _ _ => trivial
    exact hnodup.sublist List.filter_sublist

theorem invitations_chatCallbackHandler (req : CallbackRequest) :
    (chatCallbackHandler cfg req).Meets invitations (fun _ _ => True) (fun _ _ => True)
      ⟨∅, ∅⟩ := by
  have hnotUpdated : ∀ (id : Uuid) (m : Invitations),
      (notUpdated id).Meets invitations (fun _ _ => True) (fun _ _ => True) m := by
    intro id m
    refine meets_ask trivial (fun (status : Option Status) _ => ?_) fun _ => trivial
    cases status <;> trivial
  unfold chatCallbackHandler
  split
  · trivial
  · refine meets_ite (fun _ => trivial) fun _ => ?_
    split
    · trivial
    · rename_i id _
      refine meets_ite (fun _ => trivial) fun _ => meets_ite (fun _ => ?_) fun _ => ?_
      · refine meets_ask trivial (fun (rowCount : ℕ) _ => ?_) fun _ => trivial
        refine meets_ite (fun _ => hnotUpdated id _) fun _ => ?_
        exact meets_ask trivial (fun _ _ => trivial) fun _ => trivial
      · refine meets_ask trivial (fun (rowCount : ℕ) _ => ?_) fun _ => trivial
        refine meets_ite (fun _ => hnotUpdated id _) fun _ => ?_
        refine meets_ask trivial (fun _ _ => ?_) fun _ => trivial
        have hjournal := (only_journal cfg id req.body).mono fun _ => Unchained.of_journal
        refine meets_then _ (meets_unchained hjournal) ?_
        rintro _ m rfl
        have hbatch := (only_completeBatch id).mono fun _ => Unchained.of_batching
        refine meets_then _ (meets_unchained hbatch) ?_
        rintro _ m rfl
        have htag := (only_tagElevated id).mono fun _ => Unchained.of_routine
        refine meets_then _ (meets_unchained htag) ?_
        rintro _ m rfl
        exact meets_then _ (invitations_orchestrate req.body rfl) fun _ _ _ => trivial

theorem meets_invitations (cfg : Config) (q : Request) :
    (q.handler cfg).Meets invitations (fun _ _ => True) (fun _ _ => True) ⟨∅, ∅⟩ := by
  have hother : ∀ {p : Handler Response}, Only Unchained p →
      p.Meets invitations (fun _ _ => True) (fun _ _ => True) ⟨∅, ∅⟩ := fun h =>
    (meets_unchained h).mono (fun _ _ _ => trivial) fun _ _ _ => trivial
  by_cases hpassive : q.isPassive = true
  · exact hother ((only_passive cfg hpassive).mono fun _ => .of_passive)
  · cases q with
    | createThread req => exact hother ((only_createThread cfg req).mono fun _ => .of_sending)
    | sendMessage req => exact hother ((only_sendMessage cfg req).mono fun _ h =>
        .of_sending (.of_posting h))
    | callback req => exact invitations_chatCallbackHandler req
    | _ => exact absurd rfl hpassive

end Meets

section Known

variable {s s' : Store} {modes : ℕ → Option Invitations} {m : Invitations}

def Invitations.Issued (s : Store) (m : Invitations) : Prop :=
  (∀ chainId ∈ m.known, chainId < s.nextId) ∧ ∀ g ∈ m.held, g.1 < s.nextId

structure ChainsIssued (s : Store) (modes : ℕ → Option Invitations) : Prop where
  store : ∀ msg ∈ s.messages.rows, ∀ chainId, msg.chainId = some chainId → chainId < s.nextId
  modes : ∀ i m, modes i = some m → m.Issued s

theorem Invitations.Issued.mono (h : m.Issued s) (hle : s.nextId ≤ s'.nextId) : m.Issued s' :=
  ⟨fun chainId hc => Nat.lt_of_lt_of_le (h.1 chainId hc) hle,
    fun g hg => Nat.lt_of_lt_of_le (h.2 g hg) hle⟩

theorem ChainsIssued.update (h : ChainsIssued s modes) {i : ℕ} (hm : m.Issued s) :
    ChainsIssued s (Function.update modes i (some m)) := by
  refine ⟨h.store, fun j n hj => ?_⟩
  obtain ⟨_, rfl⟩ | ⟨_, hj⟩ := update_eq_some hj
  · exact hm
  · exact h.modes j n hj

/-- The chain of a new or rewritten message is held by the request that wrote it. -/
theorem ChainsIssued.run (h : ChainsIssued s modes) {i : ℕ} (hm : modes i = some m) {c : Choice}
    {st : Statement} {rows : st.Rows} (hmay : invitations.may m st)
    (hrun : st.run s c = .ok (rows, s')) : ChainsIssued s' modes := by
  have hle := (frame_of_run hrun).nextId
  have hheld := (h.modes i m hm).2
  refine ⟨fun msg hmsg chainId hchain => ?_, fun j n hj => (h.modes j n hj).mono hle⟩
  apply Nat.lt_of_lt_of_le _ hle
  obtain hold | ⟨msg₀, hmsg₀, hrewritten⟩ | ⟨hcreated, _⟩ := (effect_of_run hrun).origin hmsg
  · exact h.store msg hold chainId hchain
  · cases hrewritten with
    | chained hid hnone =>
      cases hchain
      exact hheld _ (hmay 0)
    | _ => exact h.store msg₀ hmsg₀ chainId hchain
  · cases hcreated with
    | opened => cases hchain
    | said => cases hchain
    | @placed p =>
      obtain ⟨chain, hsome, rfl⟩ := Option.map_eq_some_iff.mp hchain
      exact hheld _ (hmay chain hsome)

theorem invitations_rejected_issued (h : m.Issued s) (st : Statement) (e : Failure) :
    (invitations.rejected m st e).Issued s := by
  cases st
  case startChain => exact ⟨h.1, fun g hg => hg.elim⟩
  case createPlaceholder p => exact ⟨h.1, fun g hg => h.2 g hg.1⟩
  all_goals exact h

theorem invitations_returned_issued (hstore : ∀ msg ∈ s.messages.rows, ∀ chainId,
      msg.chainId = some chainId → chainId < s.nextId) (h : m.Issued s') {c : Choice}
    {st : Statement} {rows : st.Rows} (hmay : invitations.may m st)
    (hrun : st.run s c = .ok (rows, s')) : (invitations.returned m st rows).Issued s' := by
  cases st
  case selectTrigger id =>
    cases hrun
    cases hget : s.message? id with
    | none => simpa [invitations, hget] using h
    | some row =>
      simp only [invitations, Option.map_some, Option.elim_some, Invitations.learnOf]
      cases hchain : row.chainId with
      | none => exact h
      | some chainId =>
        refine ⟨?_, h.2⟩
        rintro known (rfl | hknown)
        · exact hstore row (Table.mem_of_get? hget) known hchain
        · exact h.1 known hknown
  case selectChainAuthors chainId =>
    cases hrun
    refine ⟨h.1, fun g hg => ?_⟩
    rw [hg.1]
    exact h.1 chainId hmay.1
  case randomUUID =>
    cases hrun
    refine ⟨?_, fun g hg => ?_⟩
    · rintro known (rfl | hknown)
      · exact Nat.lt_succ_self _
      · exact h.1 known hknown
    · have hg' : g.1 = s.nextId := hg
      rw [hg']
      exact Nat.lt_succ_self _
  case startChain => exact ⟨h.1, fun g hg => hg.elim⟩
  case createPlaceholder p => exact ⟨h.1, fun g hg => h.2 g hg.1⟩
  all_goals exact h

theorem keeps_invitations (cfg : Config) :
    (service cfg).Keeps invitations (fun _ => ⟨∅, ∅⟩) (fun _ _ _ => True) ChainsIssued where
  handler q := meets_invitations cfg q
  fresh s hs := by
    refine ⟨fun msg hmsg => ?_, fun _ _ h => nomatch h⟩
    rw [hs.1] at hmsg
    cases hmsg
  arrive s modes i q h _ := h.update ⟨fun _ hc => hc.elim, fun _ hg => hg.elim⟩
  answer s modes i m c st rows s' h hm hmay hrun := by
    have hissued := h.run hm hmay hrun
    refine ⟨credible_of_run hrun, hissued.update ?_⟩
    exact invitations_returned_issued h.store (hissued.modes i m hm) hmay hrun
  fail s modes i m st e h hm hmay := h.update (invitations_rejected_issued (h.modes i m hm) st e)
  lose s modes i m c st rows s' e h hm hmay hrun := by
    have hissued := h.run hm hmay hrun
    exact hissued.update (invitations_rejected_issued (hissued.modes i m hm) st e)
  around s modes x s' h hx := by
    cases hx
    cases x <;> exact ⟨h.store, h.modes⟩

end Known

section Turns

variable {cfg : Config} {S T : State} {s s' : Store} {turn : Uuid × Uuid} {m : Invitations}
  {modes : ℕ → Option Invitations}

/-- The only message a statement adds to the turns of a chain. -/
def Store.newTurn (s : Store) : Statement → Uuid
  | .startChain _ id => id
  | _ => s.nextId

theorem turns_of_run {c : Choice} {st : Statement} {rows : st.Rows}
    (hrun : st.run s c = .ok (rows, s')) {id : Uuid} (hid : id ∈ s'.turns turn) :
    id ∈ s.turns turn ∨ (st.Enlists turn ∧ id = s.newTurn st) := by
  obtain ⟨msg, hmsg, htype, hchain, hauthor, rfl⟩ := hid
  obtain hold | ⟨msg₀, hmsg₀, hrewritten⟩ | ⟨hcreated, _⟩ := (effect_of_run hrun).origin hmsg
  · exact .inl ⟨msg, hold, htype, hchain, hauthor, rfl⟩
  · cases hrewritten with
    | chained hid' hnone =>
      cases hchain
      exact .inr ⟨rfl, hid'⟩
    | _ => exact .inl ⟨msg₀, hmsg₀, htype, hchain, hauthor, rfl⟩
  · cases hcreated with
    | opened => cases htype
    | said => cases htype
    | @placed p =>
      obtain ⟨chain, hsome, hchain⟩ := Option.map_eq_some_iff.mp hchain
      exact .inr ⟨⟨chain, hsome, hchain, hauthor⟩, rfl⟩

theorem held_of_invited {Q : Response → Invitations → Prop} {p : Handler Response}
    (h : p.Meets invitations Q (fun _ _ => True) m)
    (hp : chainTurns.Holds credible turn p) : turn ∈ m.held := by
  apply h.of_reaches (P := fun m => turn ∈ m.held) _ _ _ hp
  · intro m st hmay henlists
    cases st
    case createPlaceholder p =>
      obtain ⟨chain, hsome, hchain, hagent⟩ := henlists
      have hheld := hmay chain hsome
      rwa [hchain, hagent] at hheld
    case startChain chainId id =>
      obtain rfl : chainId = turn.1 := henlists
      exact hmay turn.2
    all_goals exact henlists.elim
  · intro m st rows hreturns hnot hheld
    cases st
    case selectTrigger =>
      cases rows with
      | none => exact hheld
      | some t =>
        simp only [invitations, Option.elim_some, Invitations.learnOf] at hheld
        cases hchain : t.chainId <;> (rw [hchain] at hheld; exact hheld)
    case selectChainAuthors chainId => exact absurd hheld.1.symm hnot
    case randomUUID => exact absurd trivial hnot
    case startChain => exact hheld.elim
    case createPlaceholder => exact hheld.1
    all_goals exact hheld
  · intro m st e _ hheld
    cases st
    case startChain => exact hheld.elim
    case createPlaceholder => exact hheld.1
    all_goals exact hheld

/-- Neither rows nor an error leave a turn held that the statement has used. -/
theorem not_enlists_of_held {st : Statement} {m' : Invitations}
    (hp : turn ∈ m'.held) (hstart : ∀ chainId id, st = .startChain chainId id → m'.held = ∅)
    (huse : ∀ row, st = .createPlaceholder row → m' = m.use row) : ¬st.Enlists turn := by
  intro henlists
  cases st
  case createPlaceholder row =>
    obtain ⟨chain, hsome, hchain, hagent⟩ := henlists
    rw [huse row rfl] at hp
    refine hp.2 ?_ hagent
    rw [Option.map_eq_some_iff]
    exact ⟨chain, hsome, hchain⟩
  case startChain chainId id =>
    rw [hstart chainId id rfl] at hp
    exact hp
  all_goals exact henlists.elim

abbrev FollowsInvitations (S : State) (modes : ℕ → Option Invitations) : Prop :=
  Follows invitations (fun _ _ _ => True) S modes

theorem turns_protocol (cfg : Config) :
    chainTurns.Protocol credible (service cfg) Store.newTurn
      (fun S => ∃ modes, FollowsInvitations S modes) where
  handler q turn hheld := held_of_invited (meets_invitations cfg q) hheld
  effect s c st rows s' hrun turn id hid := turns_of_run hrun hid
  error S i q st k r e turn hfollows hwait hheld := by
    obtain ⟨modes, hfollows⟩ := hfollows
    obtain ⟨m, _, hmay, _, herr⟩ := hfollows.waiting hwait
    have hmem := held_of_invited (herr e) hheld
    constructor
    · apply not_enlists_of_held hmem
      · rintro chainId id rfl
        rfl
      · rintro row rfl
        rfl
    · refine .inr ⟨fun hadmits => ?_, .inr ⟨e, hheld⟩⟩
      cases st
      case selectChainAuthors =>
        have hempty : turn ∈ (∅ : Set (Uuid × Uuid)) := hmay.2 ▸ hmem
        exact hempty
      case randomUUID =>
        have hnone : m.held = ∅ := hmay
        have hempty : turn ∈ (∅ : Set (Uuid × Uuid)) := hnone ▸ hmem
        exact hempty
      all_goals exact hadmits
  around s x s' hx turn id hid := by
    cases hx
    cases x <;> exact hid

theorem clear_of_new_chain (hfollows : FollowsInvitations S modes)
    (hissued : ChainsIssued S.store modes) (hturn : S.store.nextId ≤ turn.1) (i : ℕ) :
    chainTurns.Clear credible S i turn := by
  constructor
  · apply Set.eq_empty_of_forall_notMem
    rintro id ⟨msg, hmsg, _, hchain, _⟩
    exact absurd (hissued.store msg hmsg turn.1 hchain) (Nat.not_lt_of_le hturn)
  · intro j q p _ hj hheld
    obtain ⟨m, hm, hmeets⟩ := hfollows.present j q p hj
    exact absurd ((hissued.modes j m hm).2 turn (held_of_invited hmeets hheld))
      (Nat.not_lt_of_le hturn)

/-- An answer invites only those a look in time has not found, or into a new chain. -/
theorem invited_of_answered (hfollows : FollowsInvitations S modes)
    (hissued : ChainsIssued S.store modes) {i : ℕ} {c : Choice} (hok : ScansInTime S (.resume i c))
    {q : Request} {st : Statement} {k : st.Rows → Handler Response}
    {r : Failure → Handler Response} (hwait : S.requests i = some (q, .await st k r))
    {rows : st.Rows} (hrun : st.run S.store c = .ok (rows, s'))
    (hheld : chainTurns.Holds credible turn (k rows)) :
    ¬st.Enlists turn ∧ (chainTurns.Holds credible turn (.await st k r) ∨
      chainTurns.Clear credible S i turn) := by
  obtain ⟨m, -, hmay, hrows, -⟩ := hfollows.waiting hwait
  have hcredible := credible_of_run hrun
  have hmem := held_of_invited (hrows rows hcredible) hheld
  by_cases hadmits : st.Admits turn
  · cases st
    case selectChainAuthors chainId =>
      obtain rfl : chainId = turn.1 := hadmits
      refine ⟨id, .inr ?_⟩
      have hunseen : ∀ msg ∈ S.store.chainMessages turn.1, msg.authorType = .agent →
          msg.authorId = turn.2 → msg.status ≠ .complete ∧ msg.status ≠ .pending := by
        intro msg hmsg htype hauthor
        by_contra hseen
        refine hmem.2 ?_
        cases hrun
        rw [List.mem_eraseDups]
        refine List.mem_map.mpr ⟨msg, List.mem_filter.mpr ⟨hmsg, ?_⟩, hauthor⟩
        simp only [htype, Bool.and_eq_true, Bool.or_eq_true, decide_eq_true_eq, true_and]
        tauto
      obtain ⟨hnobody, hnone⟩ := hok i c q _ turn.2 k r rfl hwait ⟨rows, hheld⟩ hunseen
      refine ⟨Set.eq_empty_of_forall_notMem ?_, hnone⟩
      rintro id ⟨msg, hmsg, htype, hchain, hauthor, _⟩
      exact hnobody msg (List.mem_filter.mpr ⟨hmsg, by simpa using hchain⟩) htype hauthor
    case randomUUID =>
      refine ⟨id, .inr (clear_of_new_chain hfollows hissued ?_ i)⟩
      have hchain : turn.1 = rows := hmem
      cases hrun
      exact Nat.le_of_eq hchain.symm
    all_goals exact hadmits.elim
  · constructor
    · apply not_enlists_of_held hmem
      · rintro chainId id rfl
        rfl
      · rintro row rfl
        rfl
    · exact .inl (.inr ⟨hadmits, .inl ⟨rows, hcredible, hheld⟩⟩)

theorem exclusive_of_reachable (hT : (server cfg).ReachableIf ScansInTime T) :
    chainTurns.Exclusive credible T := by
  have hall : ∃ modes, FollowsInvitations T modes ∧ ChainsIssued T.store modes ∧
      chainTurns.Exclusive credible T := by
    apply hT.invariant (I := fun S => ∃ modes, FollowsInvitations S modes ∧
      ChainsIssued S.store modes ∧ chainTurns.Exclusive credible S)
    · intro S hS
      have hreachable : (server cfg).Reachable S := ⟨S, [], hS, .nil S⟩
      obtain ⟨modes, hfollows, hissued⟩ := (keeps_invitations cfg).reachable hreachable
      obtain ⟨⟨hmessages, _⟩, hrequests, _⟩ := hS
      refine ⟨modes, hfollows, hissued, Slots.exclusive_of_empty (fun turn => ?_) hrequests⟩
      apply Set.eq_empty_of_forall_notMem
      rintro id ⟨msg, hmsg, _⟩
      rw [hmessages] at hmsg
      cases hmsg
    · rintro S a T ⟨modes, hfollows, hissued, h⟩ hok hstep
      obtain ⟨modes', hfollows', hissued', _⟩ := (keeps_invitations cfg).step hfollows hissued hstep
      refine ⟨modes', hfollows', hissued', ?_⟩
      apply (turns_protocol cfg).step h ⟨modes, hfollows⟩ _ hstep
      rintro i c q st k r rows s' turn rfl hwait hrun hheld
      exact invited_of_answered hfollows hissued hok hwait hrun hheld
  obtain ⟨_, _, _, h⟩ := hall
  exact h

/-- In every run that scans in time an agent has at most one message in a chain. -/
theorem one_turn (hT : (server cfg).ReachableIf ScansInTime T) {m m' : Message} {chainId : Uuid}
    (hm : m ∈ T.store.messages.rows) (hm' : m' ∈ T.store.messages.rows)
    (hagent : m.authorType = .agent) (hagent' : m'.authorType = .agent)
    (hchain : m.chainId = some chainId) (hchain' : m'.chainId = some chainId)
    (hauthor : m'.authorId = m.authorId) : m' = m := by
  have hturn : m.id ∈ T.store.turns (chainId, m.authorId) := ⟨m, hm, hagent, hchain, rfl, rfl⟩
  have hturn' : m'.id ∈ T.store.turns (chainId, m.authorId) :=
    ⟨m', hm', hagent', hchain', hauthor, rfl⟩
  exact Table.eq_of_key_eq hm' hm ((exclusive_of_reachable hT).one _ hturn' hturn)

/-- Nobody is thinking or has failed, and the other requests have been answered. -/
def scansAlone (S : State) : ChatMove → Bool
  | .resume i _ =>
    S.alone i && S.store.messages.rows.all fun m => m.status = .complete || m.status = .pending
  | _ => true

theorem scansInTime_of_alone {a : ChatMove} (hS : (server cfg).Reachable S)
    (h : scansAlone S a = true) : ScansInTime S a := by
  rintro i c q chainId agentUuid k r rfl - - hunseen
  obtain ⟨halone, hstatus⟩ := Bool.and_eq_true_iff.mp h
  constructor
  · intro m hm htype hauthor
    have hseen := List.all_eq_true.mp hstatus m (List.mem_filter.mp hm).1
    obtain ⟨hcomplete, hpending⟩ := hunseen m hm htype hauthor
    simp [hcomplete, hpending] at hseen
  · intro j q' p' hne hj
    exact Slots.not_holds_of_ended (ended_of_alone hS halone hne) hj

namespace Sample

def cat : Agent :=
  { id := 4, agentId := "cat", status := "running", workToken := some "c", createdBy := 3 }

/-- Three agents, of whom `ann` has the lead; she asks the others, who get 14 and 15. -/
def askBoth : List ChatMove :=
  .environment (.agents ⟨[ann, bob, cat], by decide⟩) ::
    (serve 0 (.createThread
      { user, agentIds := [1, 2, 4], message := some "hi", leadAgentId := some 1 }) 9 ++
    serve 1 (callback 12 "complete" "ask @bob and @cat") 26)

end Sample

/-- `bob` turns back to `ann`, who is in the chain already. -/
theorem one_turn_sample :
    ∃ (moves : List ChatMove) (m : Message), m ∈ (Sample.after moves).store.messages.rows ∧
      m.authorId = 1 ∧ m.chainId = some 13 ∧ ∀ m' ∈ (Sample.after moves).store.messages.rows,
        m'.authorType = .agent → m'.chainId = some 13 → m'.authorId = 1 → m' = m := by
  let moves := Sample.askBoth ++ Sample.serve 2 (Sample.callback 14 "complete" "what says @ann") 11
  let m : Message :=
    { id := 12, seq := 4, threadId := 10, authorId := 1, authorType := .agent, role := .assistant
      content := "ask @bob and @cat", status := .complete, replyTo := some 11, chainId := some 13
      chainHop := some 0, batchComplete := some true, createdAt := 0, updatedAt := 0 }
  have hT : (server Sample.config).ReachableIf ScansInTime (Sample.after moves) := by
    apply Machine.reachableIf_of_accepts (C := scansAlone) _ Sample.fresh_start (by decide +kernel)
    intro S a hS h
    exact scansInTime_of_alone hS.reachable h
  have hm : m ∈ (Sample.after moves).store.messages.rows := by decide +kernel
  refine ⟨moves, m, hm, rfl, rfl, fun m' hm' hagent hchain hauthor => ?_⟩
  exact one_turn hT hm hm' rfl hagent rfl hchain hauthor

/-- `cat` mentions `bob` while he is thinking, and he gets a second message in the chain. -/
theorem thinking_agent_dispatched_again :
    ¬ ∀ T, (server Sample.config).Reachable T → ∀ m ∈ T.store.messages.rows,
      ∀ m' ∈ T.store.messages.rows, ∀ chainId, m.authorType = .agent → m'.authorType = .agent →
        m.chainId = some chainId → m'.chainId = some chainId → m'.authorId = m.authorId →
          m' = m := by
  intro hall
  let moves := Sample.askBoth ++ Sample.serve 2 (Sample.callback 14 "thinking" "") 2 ++
    Sample.serve 3 (Sample.callback 15 "complete" "what says @bob") 19
  let m : Message :=
    { id := 14, seq := 7, threadId := 10, authorId := 2, authorType := .agent, role := .assistant
      content := "", status := .thinking, replyTo := some 12, chainId := some 13
      chainHop := some 1, triggeredBy := some 12, createdAt := 0, updatedAt := 0 }
  let m' : Message :=
    { id := 16, seq := 9, threadId := 10, authorId := 2, authorType := .agent, role := .assistant
      content := "", status := .pending, replyTo := some 15, chainId := some 13
      chainHop := some 2, triggeredBy := some 15, createdAt := 0, updatedAt := 0 }
  have hT : (server Sample.config).Reachable (Sample.after moves) :=
    Sample.reachable (by decide +kernel)
  have hm : m ∈ (Sample.after moves).store.messages.rows := by decide +kernel
  have hm' : m' ∈ (Sample.after moves).store.messages.rows := by decide +kernel
  have hsame : m' = m := hall _ hT m hm m' hm' 13 rfl rfl rfl rfl rfl
  exact absurd (congrArg Message.id hsame) (by decide)

end Turns

end Hill90.Chat
