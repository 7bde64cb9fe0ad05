import Hill90.Skills.Effect

/-! # The configuration of an agent and the skills it is assigned

A create and a PUT write both in one transaction.  What they leave is a merge of the skills, up to
their order, if the configuration they carry is one.
-/

namespace Hill90.Skills

open Chat (Uuid Failure)

variable {s s' t : Store} {x id : Uuid}

namespace Store

variable (s : Store)

def configOf (x : Uuid) : Option StoredConfig := (s.agents.get? x).map (·.toolsConfig)

def configsOf (x : Uuid) : List StoredConfig := (s.skillsOf x).map (·.toolsConfig)

def assignedTo (x : Uuid) : List Uuid :=
  (s.assignments.rows.filter fun a => a.agentId = x).map (·.skillId)

def Whole : Prop := ∀ r ∈ s.assignments.rows, (s.configOf r.agentId).isSome = true

end Store

def Statement.reassigns (s : Store) : Statement → Option Uuid
  | createAgent _ _ skills => if skills = [] then none else some s.nextId
  | updateAgent id _ _ (some skills) _ => if skills = [] ∧ s.assignedTo id = [] then none else some id
  | insertAssignment a => some a.agentId
  | deleteAssignment agentId skillId => if skillId ∈ s.assignedTo agentId then some agentId else none
  | _ => none

def Statement.configures (s : Store) : Statement → Option (Uuid × StoredConfig)
  | createAgent new _ _ | insertAgent new => some (s.nextId, new.toolsConfig)
  | updateAgent id u _ _ _ => u.toolsConfig.map fun config => (id, config)
  | setToolsConfig id config => config.map fun config => (id, config)
  | _ => none

theorem configsOf_eq (s : Store) (x : Uuid) :
    s.configsOf x = ((s.assignedTo x).filterMap s.skills.get?).map (·.toolsConfig) := by
  rw [Store.configsOf, Store.skillsOf, Store.assignedTo, List.filterMap_map]
  rfl

theorem configOf_rewriteAgent (s : Store) (id : Uuid) (u : AgentUpdate) (x : Uuid) :
    (s.rewriteAgent id u).configOf x =
      (s.configOf x).map fun config => if x = id then u.toolsConfig.getD config else config := by
  rw [Store.configOf, Store.rewriteAgent, Table.get?_patch_eq, Store.configOf]
  cases h : s.agents.get? x with
  | none => rfl
  | some a =>
    obtain rfl : a.id = x := Table.key_of_get? h
    simp only [Option.map_some, decide_eq_true_eq, Option.some.injEq]
    split <;> rfl

structure Beside (s s' : Store) : Prop where
  configs : ∀ x, s'.configOf x = s.configOf x
  assignments : s'.assignments = s.assignments
  skills : s'.skills = s.skills

theorem Beside.trans (h : Beside s t) (h' : Beside t s') : Beside s s' :=
  ⟨fun x => (h'.configs x).trans (h.configs x), h'.assignments.trans h.assignments,
    h'.skills.trans h.skills⟩

theorem beside_rewriteAgent (s : Store) (id : Uuid) {u : AgentUpdate} (hu : u.toolsConfig = none) :
    Beside s (s.rewriteAgent id u) := by
  refine ⟨fun x => ?_, rfl, rfl⟩
  rw [configOf_rewriteAgent, hu]
  simp

theorem beside_addPolicy {name description owner : String} {models : List String}
    (h : s.addPolicy name description owner models = .ok (id, s')) : Beside s s' := by
  simp only [Store.addPolicy] at h
  split at h
  · cases h
  · split at h
    · cases h
      exact ⟨fun _ => rfl, rfl, rfl⟩
    · cases h

theorem beside_upsertAutoPolicy {agentId : Uuid} {slug owner : String} {models : List String}
    (h : s.upsertAutoPolicy agentId slug owner models = .ok (id, s')) : Beside s s' := by
  rw [Store.upsertAutoPolicy] at h
  split at h
  · cases h
    exact ⟨fun _ => rfl, rfl, rfl⟩
  · exact beside_addPolicy h

theorem beside_writePolicy {given policyId : Option (Option Uuid)} {write : PolicyWrite}
    (h : s.writePolicy id given write = .ok (policyId, s')) : Beside s s' := by
  cases write with
  | keep =>
    cases h
    exact ⟨fun _ => rfl, rfl, rfl⟩
  | reuse policyId models =>
    cases h
    exact ⟨fun _ => rfl, rfl, rfl⟩
  | upsert slug owner models =>
    obtain ⟨⟨policyId, t⟩, hupsert, heq⟩ := map_eq_ok h
    cases heq
    exact beside_upsertAutoPolicy hupsert

theorem addAgent_eq {new : NewAgent} {agent : Agent} (h : s.addAgent new = .ok (agent, s')) :
    agent.id = s.nextId ∧ agent.toolsConfig = new.toolsConfig ∧ s.configOf s.nextId = none ∧
      s.agents.insert agent = some s'.agents ∧ s'.assignments = s.assignments ∧
      s'.skills = s.skills := by
  simp only [Store.addAgent] at h
  split at h
  · cases h
  · split at h
    · split at h
      · rename_i agents hinsert
        cases h
        have hfresh := Table.fresh_of_insert hinsert
        refine ⟨rfl, rfl, ?_, hinsert, rfl, rfl⟩
        rw [Store.configOf, show s.agents.get? s.nextId = none from hfresh]
        rfl
      · cases h
    · cases h

/-- A new agent has its configuration, the others keep theirs. -/
theorem configOf_addAgent {new : NewAgent} {agent : Agent} (h : s.addAgent new = .ok (agent, s')) :
    s'.configOf x = if x = s.nextId then some new.toolsConfig else s.configOf x := by
  obtain ⟨hid, hconfig, _, hinsert, _, _⟩ := addAgent_eq h
  have hrows := Table.rows_of_insert hinsert
  rw [Store.configOf, Store.configOf, Table.get?, Table.get?, hrows, List.find?_append]
  split
  · rename_i heq
    subst heq
    have hfresh := Table.fresh_of_insert hinsert
    rw [Table.get?, hid] at hfresh
    rw [hfresh, List.find?_singleton, if_pos (by simpa using hid)]
    simp [hconfig]
  · rename_i hne
    rw [List.find?_singleton, if_neg (by simpa [hid] using fun h => hne h.symm), Option.or_none]

theorem addAssignment_eq {a : Assignment} (h : s.addAssignment a = .ok s') :
    (s.configOf a.agentId).isSome = true ∧ (s.skills.get? a.skillId).isSome = true ∧
      s'.agents = s.agents ∧ s'.skills = s.skills ∧ s.assignments.insert a = some s'.assignments := by
  rw [Store.addAssignment] at h
  split at h
  · rename_i hthere
    obtain ⟨hagent, hskill⟩ := Bool.and_eq_true_iff.mp hthere
    split at h
    · rename_i assignments hinsert
      cases h
      exact ⟨by simpa [Store.configOf] using hagent, hskill, rfl, rfl, hinsert⟩
    · cases h
  · cases h

/-- What a loop of INSERTs adds. -/
structure Assigns (s s' : Store) (x : Uuid) (ids : List Uuid) : Prop where
  agents : s'.agents = s.agents
  skills : s'.skills = s.skills
  assigned : s'.assignedTo x = s.assignedTo x ++ ids
  present : ∀ g ∈ ids, (s.skills.get? g).isSome = true
  rows : ∀ r ∈ s'.assignments.rows, r ∈ s.assignments.rows ∨ (s.configOf r.agentId).isSome = true

theorem assigns_addAssignments {assignedBy : String} {skills : List Uuid}
    (h : s.addAssignments x assignedBy skills = .ok s') : Assigns s s' x skills := by
  induction skills generalizing s with
  | nil =>
    cases h
    exact ⟨rfl, rfl, by simp, by simp, fun _ hr => .inl hr⟩
  | cons skillId rest ih =>
    rw [Store.addAssignments] at h
    split at h
    · rename_i t hadd
      obtain ⟨hagent, hskill, hagents, hskills, hinsert⟩ := addAssignment_eq hadd
      have hrest := ih h
      have hconfig : t.configOf = s.configOf := by
        funext y
        rw [Store.configOf, hagents, Store.configOf]
      constructor
      · exact hrest.agents.trans hagents
      · exact hrest.skills.trans hskills
      · have hone : t.assignedTo x = s.assignedTo x ++ [skillId] := by
          rw [Store.assignedTo, Table.rows_of_insert hinsert, List.filter_append, List.map_append]
          simp [Store.assignedTo]
        rw [hrest.assigned, hone, List.append_assoc]
        rfl
      · intro g hg
        obtain rfl | hg := List.mem_cons.mp hg
        · exact hskill
        · rw [← hskills]
          exact hrest.present g hg
      · intro r hr
        obtain hr | hr := hrest.rows r hr
        · obtain hr | rfl := (Table.mem_of_insert hinsert).mp hr
          · exact .inl hr
          · exact .inr hagent
        · rw [hconfig] at hr
          exact .inr hr
    · cases h

theorem beside_givePolicy {agent : Agent} {models : List String} {policyId : Option Uuid}
    (h : s.givePolicy agent models = .ok (policyId, s')) : Beside s s' := by
  rw [Store.givePolicy] at h
  split at h
  · cases h
    exact ⟨fun _ => rfl, rfl, rfl⟩
  · obtain ⟨⟨id, t⟩, hupsert, heq⟩ := map_eq_ok h
    cases heq
    exact (beside_upsertAutoPolicy hupsert).trans (beside_rewriteAgent t _ rfl)

structure Created (s s' : Store) (new : NewAgent) (ids : List Uuid) : Prop where
  fresh : s.configOf s.nextId = none
  configs : ∀ x, s'.configOf x = if x = s.nextId then some new.toolsConfig else s.configOf x
  skills : s'.skills = s.skills
  assigned : s'.assignedTo s.nextId = s.assignedTo s.nextId ++ ids
  present : ∀ g ∈ ids, (s.skills.get? g).isSome = true
  rows : ∀ r ∈ s'.assignments.rows, r ∈ s.assignments.rows ∨ (s'.configOf r.agentId).isSome = true

theorem created_createAgent {new : NewAgent} {models : Option (List String)} {skills : List Uuid}
    {view : AgentView} (h : s.createAgent new models skills = .ok (view, s')) :
    Created s s' new skills := by
  obtain ⟨⟨agent, s₁⟩, hadd, h⟩ := bind_eq_ok h
  obtain ⟨⟨policyId, s₂⟩, hpolicy, h⟩ := bind_eq_ok h
  obtain ⟨s₃, hassign, h⟩ := bind_eq_ok h
  cases h
  obtain ⟨hid, _, hfresh, _, hassigned, hskills⟩ := addAgent_eq hadd
  have hbeside := beside_givePolicy hpolicy
  have hassigns := assigns_addAssignments hassign
  have hconfig : ∀ x, s'.configOf x = s₂.configOf x := by
    intro x
    rw [Store.configOf, hassigns.agents, Store.configOf]
  have hkeys : s₂.skills = s.skills := hbeside.skills.trans hskills
  constructor
  · exact hfresh
  · intro x
    rw [hconfig, hbeside.configs, configOf_addAgent hadd]
  · exact hassigns.skills.trans hkeys
  · rw [← hid, hassigns.assigned, Store.assignedTo, hbeside.assignments, hassigned, Store.assignedTo]
  · intro g hg
    rw [← hkeys]
    exact hassigns.present g hg
  · intro r hr
    obtain hr | hr := hassigns.rows r hr
    · rw [hbeside.assignments, hassigned] at hr
      exact .inl hr
    · rw [← hconfig] at hr
      exact .inr hr

structure Updated (s s' : Store) (id : Uuid) (u : AgentUpdate) (ids : Option (List Uuid)) : Prop where
  configs : ∀ x, s'.configOf x =
    (s.configOf x).map fun config => if x = id then u.toolsConfig.getD config else config
  skills : s'.skills = s.skills
  assigned : ∀ gs, ids = some gs → s'.assignedTo id = gs ∧
    ∀ g ∈ gs, (s.skills.get? g).isSome = true
  rows : ∀ r ∈ s'.assignments.rows, r ∈ s.assignments.rows ∨ (s'.configOf r.agentId).isSome = true

theorem assignedTo_delete (s : Store) (id : Uuid) :
    ({ s with assignments := s.assignments.delete fun a => a.agentId = id } : Store).assignedTo id = [] := by
  rw [Store.assignedTo, List.map_eq_nil_iff, List.filter_eq_nil_iff]
  intro r hr
  simpa using (Table.mem_delete.mp hr).2

theorem updated_updateAgent {u : AgentUpdate} {write : PolicyWrite} {skills : Option (List Uuid)}
    {assignedBy : String} {agent : Agent}
    (h : s.updateAgent id u write skills assignedBy = .ok (agent, s')) : Updated s s' id u skills := by
  obtain ⟨⟨policyId, s₁⟩, hwrite, h⟩ := bind_eq_ok h
  dsimp only at h
  have hbeside := beside_writePolicy hwrite
  have hconfigs : ∀ x, (s₁.rewriteAgent id { u with modelPolicyId := policyId }).configOf x =
      (s.configOf x).map fun config => if x = id then u.toolsConfig.getD config else config := by
    intro x
    rw [configOf_rewriteAgent, hbeside.configs]
  split at h
  · cases h
  · split at h
    · obtain ⟨s₂, hreplace, h⟩ := bind_eq_ok h
      cases h
      cases skills with
      | none =>
        cases hreplace
        refine ⟨hconfigs, hbeside.skills, fun _ h => (nomatch h), fun r hr => .inl ?_⟩
        rw [← hbeside.assignments]
        exact hr
      | some ids =>
        have hassigns := assigns_addAssignments hreplace
        have hconfig : ∀ x, s'.configOf x =
            (s₁.rewriteAgent id { u with modelPolicyId := policyId }).configOf x := by
          intro x
          rw [Store.configOf, hassigns.agents]
          rfl
        constructor
        · exact fun x => (hconfig x).trans (hconfigs x)
        · exact hassigns.skills.trans hbeside.skills
        · rintro _ ⟨⟩
          constructor
          · rw [hassigns.assigned, assignedTo_delete, List.nil_append]
          · intro g hg
            rw [← hbeside.skills]
            exact hassigns.present g hg
        · intro r hr
          obtain hr | hr := hassigns.rows r hr
          · rw [← hbeside.assignments]
            exact .inl (Table.mem_delete.mp hr).1
          · rw [hconfig]
            exact .inr hr
    · cases h

/-- A statement writes the configuration it says, of an agent that is there, or none. -/
theorem configOf_run {c : Unit} {st : Statement} {rows : st.Rows}
    (h : Statement.run s c st = .ok (rows, s')) (x : Uuid) :
    ((∀ config, st.configures s ≠ some (x, config)) ∧ s'.configOf x = s.configOf x) ∨
    ∃ config, st.configures s = some (x, config) ∧
      (s'.configOf x = some config ∨ s.configOf x = none ∧ s'.configOf x = none) := by
  have hrewrite : ∀ (id : Uuid) (u : AgentUpdate), s'.configOf x = (s.configOf x).map (fun config =>
      if x = id then u.toolsConfig.getD config else config) →
      ((∀ config, (u.toolsConfig.map fun config => (id, config)) ≠ some (x, config)) ∧
        s'.configOf x = s.configOf x) ∨
      ∃ config, (u.toolsConfig.map fun config => (id, config)) = some (x, config) ∧
        (s'.configOf x = some config ∨ s.configOf x = none ∧ s'.configOf x = none) := by
    intro id u heq
    by_cases hx : x = id
    · subst hx
      cases hu : u.toolsConfig with
      | none => exact .inl ⟨fun _ h => (by cases h), by rw [heq, hu]; simp⟩
      | some config =>
        refine .inr ⟨config, rfl, ?_⟩
        cases hold : s.configOf x with
        | none => exact .inr ⟨rfl, by rw [heq, hold]; rfl⟩
        | some old => exact .inl (by rw [heq, hold, hu]; simp)
    · refine .inl ⟨fun config h => ?_, by rw [heq]; simp [hx]⟩
      obtain ⟨_, _, h⟩ := Option.map_eq_some_iff.mp h
      cases h
      exact hx rfl
  have hnew : ∀ new : NewAgent, s'.configOf x =
      (if x = s.nextId then some new.toolsConfig else s.configOf x) →
      ((∀ config, some (s.nextId, new.toolsConfig) ≠ some (x, config)) ∧
        s'.configOf x = s.configOf x) ∨
      ∃ config, some (s.nextId, new.toolsConfig) = some (x, config) ∧
        (s'.configOf x = some config ∨ s.configOf x = none ∧ s'.configOf x = none) := by
    intro new heq
    by_cases hx : x = s.nextId
    · rw [if_pos hx] at heq
      exact .inr ⟨_, by rw [hx], .inl heq⟩
    · rw [if_neg hx] at heq
      refine .inl ⟨?_, heq⟩
      rintro config ⟨⟩
      exact hx rfl
  cases st with
  | createAgent new models skills => exact hnew new ((created_createAgent h).configs x)
  | insertAgent new => exact hnew new (configOf_addAgent h)
  | updateAgent id u write skills assignedBy => exact hrewrite id u ((updated_updateAgent h).configs x)
  | setToolsConfig id config =>
    obtain ⟨config, rfl, rfl⟩ := setToolsConfig_eq h
    exact hrewrite id { toolsConfig := some config } (configOf_rewriteAgent s id _ x)
  | insertAssignment a =>
    obtain ⟨t, hadd, heq⟩ := map_eq_ok h
    cases heq
    refine .inl ⟨fun _ h => (by cases h), ?_⟩
    rw [Store.configOf, (addAssignment_eq hadd).2.2.1, Store.configOf]
  | insertPolicy name description owner models =>
    exact .inl ⟨fun _ h => (by cases h), (beside_addPolicy h).configs x⟩
  | setModelPolicy id policyId =>
    simp only [Statement.run] at h
    split at h
    · cases h
      exact .inl ⟨fun _ h => (by cases h), (beside_rewriteAgent s id rfl).configs x⟩
    · cases h
  | insertSkill | updateSkill | deleteSkill =>
    simp only [Statement.run] at h
    repeat' split at h
    all_goals
      cases h
      try exact .inl ⟨fun _ h => (by cases h), rfl⟩
  | _ =>
    cases h
    exact .inl ⟨fun _ h => (by cases h), rfl⟩

theorem present_run {c : Unit} {st : Statement} {rows : st.Rows}
    (h : Statement.run s c st = .ok (rows, s')) {x : Uuid} (hx : (s.configOf x).isSome = true) :
    (s'.configOf x).isSome = true := by
  obtain ⟨_, heq⟩ | ⟨config, _, heq | ⟨hnone, _⟩⟩ := configOf_run h x
  · rwa [heq]
  · rw [heq]
    rfl
  · rw [hnone] at hx
    cases hx

/-- A new assignment has an agent. -/
theorem rooted_run {c : Unit} {st : Statement} {rows : st.Rows}
    (h : Statement.run s c st = .ok (rows, s')) :
    ∀ r ∈ s'.assignments.rows, r ∈ s.assignments.rows ∨ (s'.configOf r.agentId).isSome = true := by
  cases st with
  | createAgent new models skills => exact (created_createAgent h).rows
  | updateAgent id u write skills assignedBy => exact (updated_updateAgent h).rows
  | insertAssignment a =>
    obtain ⟨t, hadd, heq⟩ := map_eq_ok h
    cases heq
    obtain ⟨hagent, _, hagents, _, hinsert⟩ := addAssignment_eq hadd
    intro r hr
    obtain hr | rfl := (Table.mem_of_insert hinsert).mp hr
    · exact .inl hr
    · rw [Store.configOf, hagents]
      exact .inr hagent
  | deleteAssignment agentId skillId =>
    cases h
    exact fun r hr => .inl (Table.mem_delete.mp hr).1
  | insertAgent new =>
    obtain ⟨_, _, _, _, hassigned, _⟩ := addAgent_eq h
    intro r hr
    rw [hassigned] at hr
    exact .inl hr
  | insertPolicy name description owner models =>
    intro r hr
    rw [(beside_addPolicy h).assignments] at hr
    exact .inl hr
  | setToolsConfig id config =>
    obtain ⟨config, rfl, rfl⟩ := setToolsConfig_eq h
    exact fun r hr => .inl hr
  | setModelPolicy | insertSkill | updateSkill | deleteSkill =>
    simp only [Statement.run] at h
    repeat' split at h
    all_goals
      cases h
      try exact fun r hr => .inl hr
  | _ =>
    cases h
    exact fun r hr => .inl hr

theorem whole_run {c : Unit} {st : Statement} {rows : st.Rows} (hs : s.Whole)
    (h : Statement.run s c st = .ok (rows, s')) : s'.Whole := by
  intro r hr
  obtain hr | hr := rooted_run h r hr
  · exact present_run h (hs r hr)
  · exact hr

theorem Store.Whole.assignedTo_eq_nil (hs : s.Whole) (hx : s.configOf x = none) :
    s.assignedTo x = [] := by
  rw [Store.assignedTo, List.map_eq_nil_iff, List.filter_eq_nil_iff]
  intro r hr hagent
  have hthere := hs r hr
  rw [of_decide_eq_true hagent, hx] at hthere
  cases hthere

/-- The rows a request has read still have the configuration they had. -/
def Stands (s : Store) (rows : List Skill) : Prop :=
  ∀ k ∈ rows, k.id < s.nextId ∧ ∀ k' ∈ s.skills.rows, k'.id = k.id → k'.toolsConfig = k.toolsConfig

/-- The skills of these keys merge from what the rows say. -/
theorem perm_of_stands {rows : List Skill} (hrows : Stands s rows) {ids : List Uuid}
    (hids : (rows.map (·.id)).Perm ids) (hthere : ∀ g ∈ ids, (s.skills.get? g).isSome = true) :
    (rows.map (·.toolsConfig)).Perm ((ids.filterMap s.skills.get?).map (·.toolsConfig)) := by
  have hsame : rows.map (·.toolsConfig) =
      ((rows.map (·.id)).filterMap s.skills.get?).map (·.toolsConfig) := by
    have hthere : ∀ k ∈ rows, (s.skills.get? k.id).isSome = true :=
      fun k hk => hthere _ (hids.mem_iff.mp (List.mem_map_of_mem hk))
    clear hids
    induction rows with
    | nil => rfl
    | cons k rest ih =>
      obtain ⟨k', hk'⟩ := Option.isSome_iff_exists.mp (hthere k (by simp))
      have hconfig := (hrows k (by simp)).2 k' (Table.mem_of_get? hk') (Table.key_of_get? hk')
      rw [List.map_cons, List.map_cons, List.filterMap_cons_some hk', List.map_cons, hconfig,
        ih (fun k hk => hrows k (List.mem_cons_of_mem _ hk)) fun k hk => hthere k (List.mem_cons_of_mem _ hk)]
  rw [hsame]
  exact (hids.filterMap _).map _

end Hill90.Skills
