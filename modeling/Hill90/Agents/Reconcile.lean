import Hill90.Agents.Token

/-! # What a reconcile pass leaves behind

A pass that is not interrupted writes each row once, from what it saw of the row's container.
-/

namespace Hill90.Agents

open Chat (Uuid Failure)
open Program

/-! ## What a statement does to the rows -/

/-- A row is rewritten, or the row of an agent goes.  Only a patch records a row as running with
another container state than running. -/
theorem agents_run {s s' : Store} {c : Choice} {st : Statement} {rows : st.Rows}
    (h : Statement.run s c st = .ok (rows, s')) :
    s'.agents = s.agents ∨
    (∃ id f, ∃ hf : ∀ a, Agent.id (f a) = a.id, s'.agents = (s.rewrite id f hf).agents ∧
      (∀ a, (f a).agentId = a.agentId) ∧ ((∀ p, st ≠ .patch p) → ∀ a, (f a).status = .running →
        (f a).containerState = some .running ∨
          (a.status = .running ∧ (f a).containerState = a.containerState))) ∨
    ∃ id, s'.agents = s.agents.delete fun a => a.id = id := by
  have hcontainer : ∀ {agentId : String} {f : Container → Option Container} {u : Unit × Store},
      s.withContainer agentId f = .ok u → u.2.agents = s.agents := by
    intro agentId f u hu
    rw [Store.withContainer] at hu
    split at hu
    · cases hu
      rfl
    · cases hu
  cases st with
  | storeToken kind id credential =>
    cases h
    refine .inr (.inl ⟨id, fun a => a.setCredential kind (some credential), ?_, rfl, ?_, ?_⟩)
    · intro a
      cases kind <;> rfl
    · intro a
      cases kind <;> rfl
    · intro _ a hrunning
      cases kind
      · exact .inr ⟨hrunning, rfl⟩
      · exact .inr ⟨hrunning, rfl⟩
  | markRunning id containerId workToken =>
    cases h
    exact .inr (.inl ⟨id, _, _, rfl, fun _ => rfl, fun _ _ _ => .inl rfl⟩)
  | markError id detail =>
    cases h
    refine .inr (.inl ⟨id, _, _, rfl, fun _ => rfl, fun _ a hrunning => ?_⟩)
    cases hrunning
  | markStopped id keepAkm kept =>
    cases h
    refine .inr (.inl ⟨id, _, _, rfl, fun _ => rfl, fun _ a hrunning => ?_⟩)
    cases hrunning
  | patch p =>
    cases h
    exact .inr (.inl ⟨p.id, _, p.apply_id, rfl, fun _ => rfl, fun hpatch => absurd rfl (hpatch p)⟩)
  | deleteAgent id =>
    cases h
    exact .inr (.inr ⟨id, rfl⟩)
  | stopContainer agentId => exact .inl (hcontainer h)
  | removeContainer agentId => exact .inl (hcontainer h)
  | createContainer agentId =>
    simp only [Statement.run] at h
    split at h
    · cases h
    · cases h
      exact .inl rfl
  | startContainer agentId containerId =>
    simp only [Statement.run] at h
    split at h
    · split at h
      · cases h
        exact .inl rfl
      · cases h
    · cases h
  | inspectCreated agentId containerId =>
    simp only [Statement.run] at h
    split at h
    · split at h
      · cases h
        exact .inl rfl
      · cases h
    · cases h
  | insertSession id startedAt =>
    simp only [Statement.run] at h
    split at h
    · cases h
      exact .inl rfl
    · cases h
  | mint kind id =>
    simp only [Statement.run] at h
    split at h
    · cases h
      exact .inl rfl
    · cases h
      exact .inl rfl
  | _ =>
    cases h
    exact .inl rfl

def Store.Named (s : Store) : Prop := (s.agents.rows.map Agent.agentId).Nodup

theorem named_run {s s' : Store} {c : Choice} {st : Statement} {rows : st.Rows}
    (h : Statement.run s c st = .ok (rows, s')) (hs : s.Named) : s'.Named := by
  unfold Store.Named at hs ⊢
  obtain hsame | ⟨id, f, hf, hrewrite, hname, _⟩ | ⟨id, hdelete⟩ := agents_run h
  · rwa [hsame]
  · rw [hrewrite]
    change ((Table.patchRows _ _ 0 s.agents.rows).map Agent.agentId).Nodup
    rwa [Table.patchRows_keys fun _ => hname]
  · rw [hdelete]
    exact hs.sublist (List.filter_sublist.map Agent.agentId)

theorem keeps_named {α : Type} {good : Statement → Prop} (p : Handler α) :
    Keeps (Admitted Statement.run good) Store.Named p := by
  apply keeps_of_steady
  intro s st answer s' hs h
  cases h with
  | answered effect => exact named_run effect hs
  | failed _ => exact hs
  | lost _ effect => exact named_run effect hs

theorem agent_of_named {s : Store} (hs : s.Named) {a b : Agent} (ha : a ∈ s.agents.rows)
    (hb : b ∈ s.agents.rows) (h : a.agentId = b.agentId) : a = b :=
  List.inj_on_of_nodup_map hs ha hb h

/-! ## The pass -/

/-- A row after a pass, by the agents whose containers the pass could inspect. -/
def reconciled (containers : String → Option Container) (verified : Uuid → Bool) (a : Agent) : Agent :=
  (reconcileRow a (if verified a.id then some (containers a.agentId) else none)).elim a (·.apply a)

structure Reconciled (s : Store) (agents : List Agent) (verified : Uuid → Bool) (s' : Store) :
    Prop where
  containers : s'.containers = s.containers
  sessions : s'.sessions = s.sessions
  now : s'.now = s.now
  nextId : s'.nextId = s.nextId
  rows : ∀ id, s'.agent? id =
    (s.agent? id).map fun a => if a ∈ agents then reconciled s.containers verified a else a

variable {good : Statement → Prop} {s s' : Store} {verified : Uuid → Bool} {r : ReconcileResult}

theorem patch_id {agent : Agent} {seen : Observation} {p : AgentStatusPatch}
    (h : reconcileRow agent seen = some p) : p.id = agent.id := by
  cases seen with
  | none =>
    simp only [reconcileRow] at h
    split at h
    · cases h
      rfl
    · cases h
  | some state =>
    simp only [reconcileRow] at h
    split at h
    · cases h
      rfl
    · split at h
      · cases h
        rfl
      · split at h
        · cases h
          rfl
        · cases h

theorem always_observe {agentId : String} {E : Failure → Store → Prop} :
    Always (Admitted Statement.run good) (observe agentId)
      (fun seen s' => s' = s ∧ (seen = none ∨ seen = some (s.containers agentId))) E s := by
  rw [observe, always_tryCatch, always_bind]
  apply always_read fun _ => rfl
  · exact ⟨rfl, .inr rfl⟩
  · exact fun _ => ⟨rfl, .inl rfl⟩

theorem always_applyPatch (hpatch : ∀ p, ¬good (.patch p)) {agent : Agent} {seen : Observation}
    {E : Failure → Store → Prop} :
    Always (Admitted Statement.run good) (applyPatch (reconcileRow agent seen))
      (fun _ s' => s'.containers = s.containers ∧ s'.sessions = s.sessions ∧ s'.now = s.now ∧
        s'.nextId = s.nextId ∧
        ∀ id, s'.agent? id = (s.agent? id).map fun a =>
          if a.id = agent.id then (reconcileRow agent seen).elim a (·.apply a) else a) E s := by
  cases hp : reconcileRow agent seen with
  | none =>
    refine ⟨rfl, rfl, rfl, rfl, fun id => ?_⟩
    simp
  | some p =>
    apply always_query
    · intro _ s' h
      cases h with
      | answered effect =>
        cases effect
        refine ⟨rfl, rfl, rfl, rfl, fun id => ?_⟩
        rw [Store.agent?_rewrite, patch_id hp]
        rfl
    · intro e s' h
      cases h with
      | failed h => exact absurd h (hpatch p)
      | lost h _ => exact absurd h (hpatch p)

theorem count_unverified (agent : Agent) (seen : Observation) (p : Option AgentStatusPatch) :
    (r.count agent seen p).unverified =
      r.unverified ++ if seen.isSome then [] else [agent.agentId] := by
  cases seen with
  | none => rfl
  | some state =>
    simp only [ReconcileResult.count]
    split
    · simp
    · split <;> simp

/-- The loop over the rows that were read. -/
theorem always_reconcile (hpatch : ∀ p, ¬good (.patch p)) {agents : List Agent}
    (hmem : ∀ a ∈ agents, s.agent? a.id = some a) (hkeys : (agents.map Agent.id).Nodup)
    {E : Failure → Store → Prop} :
    Always (Admitted Statement.run good) (reconcileAgentStatuses agents r)
      (fun r' s' => ∃ verified, Reconciled s agents verified s' ∧
        r'.unverified = r.unverified ++ (agents.filter fun a => !verified a.id).map Agent.agentId) E s := by
  induction agents generalizing s r with
  | nil =>
    refine ⟨fun _ => true, ⟨rfl, rfl, rfl, rfl, fun id => ?_⟩, by simp⟩
    simp
  | cons agent agents ih =>
    rw [List.map_cons, List.nodup_cons] at hkeys
    obtain ⟨hfresh, hkeys⟩ := hkeys
    have hagent : s.agent? agent.id = some agent := hmem agent (by simp)
    apply always_then _ always_observe
    rintro seen s₀ ⟨rfl, hseen⟩
    apply always_then _ (always_applyPatch hpatch)
    rintro _ s₁ ⟨hcontainers, hsessions, hnow, hnext, hrows⟩
    have hmem₁ : ∀ a ∈ agents, s₁.agent? a.id = some a := by
      intro a ha
      have hne : a.id ≠ agent.id := by
        intro heq
        rw [← heq] at hfresh
        exact hfresh (List.mem_map_of_mem ha)
      rw [hrows, hmem a (List.mem_cons_of_mem _ ha), Option.map_some, if_neg hne]
    apply (ih hmem₁ hkeys).mono _ fun _ _ h => h
    rintro r' s' ⟨verified, hpass, hunverified⟩
    refine ⟨fun id => if id = agent.id then seen.isSome else verified id, ?_, ?_⟩
    · refine ⟨hpass.containers.trans hcontainers, hpass.sessions.trans hsessions,
        hpass.now.trans hnow, hpass.nextId.trans hnext, fun id => ?_⟩
      rw [hpass.rows, hrows, hcontainers]
      cases hid : s₀.agent? id with
      | none => rfl
      | some a =>
        simp only [Option.map_some]
        by_cases hown : a.id = agent.id
        · have haid : a.id = id := Table.key_of_get? hid
          have ha : a = agent := by
            rw [← haid, hown, hagent] at hid
            cases hid
            rfl
          subst ha
          have hwritten : ((reconcileRow a seen).elim a (·.apply a)).id = a.id := by
            cases reconcileRow a seen <;> rfl
          have hout : (reconcileRow a seen).elim a (·.apply a) ∉ agents := by
            intro hin
            apply hfresh
            rw [← hwritten]
            exact List.mem_map_of_mem hin
          rw [if_pos rfl, if_neg hout, if_pos List.mem_cons_self, reconciled, if_pos rfl]
          obtain rfl | rfl := hseen <;> rfl
        · have hne : a ≠ agent := fun h => hown (h ▸ rfl)
          have hmemiff : a ∈ agent :: agents ↔ a ∈ agents := by simp [hne]
          simp only [hmemiff, if_neg hown, reconciled]
    · rw [hunverified, count_unverified, List.append_assoc]
      congr 1
      have hrest : agents.filter (fun a => !(if a.id = agent.id then seen.isSome else verified a.id)) =
          agents.filter fun a => !verified a.id := by
        apply List.filter_congr
        intro a ha
        have hne : a.id ≠ agent.id := by
          intro heq
          rw [← heq] at hfresh
          exact hfresh (List.mem_map_of_mem ha)
        rw [if_neg hne]
      change _ = List.map _ (List.filter
        (fun a => !(if a.id = agent.id then seen.isSome else verified a.id)) (agent :: agents))
      rw [List.filter_cons, hrest, if_pos rfl]
      cases seen <;> rfl

theorem Store.id_close (s : Store) (x : Session) : (s.close x).id = x.id := rfl

/-- `closeSessionsForStoppedAgents`. -/
def Store.swept (s : Store) : Store := s.closeWhere s.stale s.close s.id_close

structure Passed (s : Store) (verified : Uuid → Bool) (result : ReconcileResult) (s' : Store) :
    Prop where
  pass : ∃ s₁, Reconciled s s.agents.rows verified s₁ ∧ (s' = s₁ ∨ s' = s₁.swept)
  unverified : result.unverified =
    (s.agents.rows.filter fun a => !verified a.id).map Agent.agentId

theorem always_pass (hpatch : ∀ p, ¬good (.patch p)) {E : Failure → Store → Prop} :
    Always (Admitted Statement.run good) runReconcilePass
      (fun response s' => (good .selectAgents ∧ response = .passed none ∧ s' = s) ∨
        ∃ verified result, response = .passed (some result) ∧ Passed s verified result s' ∧
          (¬good .sweepSessions →
            ∃ s₁, Reconciled s s.agents.rows verified s₁ ∧ s' = s₁.swept)) E s := by
  rw [runReconcilePass, always_tryCatch, always_bind]
  apply always_query
  · intro agents s₀ h
    cases h with
    | answered effect =>
      cases effect
      apply always_then _ (always_reconcile hpatch (fun a ha => Table.mem_iff_get?.mp ha) s.agents.keys)
      rintro result s₁ ⟨verified, hpass, hunverified⟩
      rw [List.nil_append] at hunverified
      rw [best, always_bind, always_tryCatch]
      apply always_query
      · intro _ s' h
        cases h with
        | answered effect =>
          cases effect
          exact .inr ⟨verified, result, rfl, ⟨⟨s₁, hpass, .inr rfl⟩, hunverified⟩,
            fun _ => ⟨s₁, hpass, rfl⟩⟩
      · intro e s' h
        cases h with
        | failed hgood =>
          exact .inr ⟨verified, result, rfl, ⟨⟨s₁, hpass, .inl rfl⟩, hunverified⟩,
            fun h => absurd hgood h⟩
        | lost hgood effect =>
          cases effect
          exact .inr ⟨verified, result, rfl, ⟨⟨s₁, hpass, .inr rfl⟩, hunverified⟩,
            fun h => absurd hgood h⟩
  · intro e s' h
    cases h with
    | failed hgood => exact .inl ⟨hgood, rfl, rfl⟩
    | lost hgood effect =>
      cases effect
      exact .inl ⟨hgood, rfl, rfl⟩

/-- By unique names the report says which containers were inspected. -/
theorem Passed.verified_eq {result : ReconcileResult} (h : Passed s verified result s')
    (hnames : s.Named) {a : Agent} (ha : a ∈ s.agents.rows) :
    verified a.id = !result.unverified.contains a.agentId := by
  have hiff : a.agentId ∈ result.unverified ↔ verified a.id = false := by
    rw [h.unverified, List.mem_map]
    constructor
    · rintro ⟨b, hb, hname⟩
      obtain ⟨hb, hv⟩ := List.mem_filter.mp hb
      cases agent_of_named hnames hb ha hname
      simpa using hv
    · intro hv
      exact ⟨a, List.mem_filter.mpr ⟨ha, by simp [hv]⟩, rfl⟩
  cases hv : verified a.id with
  | false => simpa using hiff.mpr hv
  | true =>
    have hnot : a.agentId ∉ result.unverified := fun hin => by
      rw [hiff, hv] at hin
      cases hin
    simpa using hnot

theorem Passed.agent? {result : ReconcileResult} (h : Passed s verified result s') (id : Uuid) :
    s'.agent? id = (s.agent? id).map (reconciled s.containers verified) := by
  obtain ⟨s₁, hpass, hs'⟩ := h.pass
  have hsame : s'.agent? id = s₁.agent? id := by
    obtain rfl | rfl := hs' <;> rfl
  rw [hsame, hpass.rows]
  cases hid : s.agent? id with
  | none => rfl
  | some a =>
    rw [Option.map_some, Option.map_some, if_pos (Table.mem_of_get? hid)]

theorem Passed.containers {result : ReconcileResult} (h : Passed s verified result s') :
    s'.containers = s.containers := by
  obtain ⟨s₁, hpass, rfl | rfl⟩ := h.pass
  · exact hpass.containers
  · exact hpass.containers

end Hill90.Agents
