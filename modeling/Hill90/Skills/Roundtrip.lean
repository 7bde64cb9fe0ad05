import Hill90.Agents.Limits
import Hill90.Skills.Locality

/-! # An export that is imported

The import of an export gives an agent like the one that was exported: all its texts and limits, its
profile, its skills and its models.  The tools configuration comes back as the merge of the skills,
where it has any, and an agent without models gets those of the default policy.
-/

namespace Hill90.Skills

open Chat (Uuid Failure)
open Policies (User Policy)
open Program
open Agents.Limits (cpusValidationError memLimitValidationError pidsLimitValidationError validateLimits)

def isSlugEnd (c : Char) : Bool := c.isLower || c.isDigit

/-- `/^[a-z0-9][a-z0-9-]{0,61}[a-z0-9]$/`, or `/^[a-z0-9]$/` -/
def isSlug (s : String) : Bool :=
  match s.toList with
  | [] => false
  | [c] => isSlugEnd c
  | c :: rest => isSlugEnd c && rest.length ≤ 62 && rest.getLast?.all isSlugEnd &&
    rest.dropLast.all fun c => isSlugEnd c || c = '-'

def Agent.limitFields (agent : Agent) : Agents.Limits.Fields where
  cpus := .string agent.cpus
  memLimit := .string agent.memLimit
  pidsLimit := .number agent.pidsLimit

def importError (agent : Agent) : Option String :=
  if agent.agentId = "" ∨ agent.name = "" then none
  else if isSlug agent.agentId then
    match validateLimits agent.limitFields with
    | .error (.invalid error) => some error
    | _ => none
  else some "agent_id must be a lowercase slug (a-z, 0-9, hyphens, 1-63 chars)"

def exportBody (agent : Agent) (models skillNames : List String) : AgentBody where
  agentId := some agent.agentId
  name := some agent.name
  description := some agent.description
  toolsConfig := some agent.toolsConfig
  cpus := some agent.cpus
  memLimit := some agent.memLimit
  pidsLimit := some agent.pidsLimit
  soulMd := some agent.soulMd
  rulesMd := some agent.rulesMd
  modelNames := some models
  skillNames := some skillNames
  containerProfileId := some agent.containerProfileId
  malformed := importError agent

def Request.answer (s : Store) (q : Request) : Except Failure Response × Store :=
  q.handler.against Statement.run (fun _ => .answered ()) s

/-- The skills of an agent, in the order of their rows. -/
def Store.assignedRows (s : Store) (id : Uuid) : List Skill :=
  s.skills.rows.filter (· ∈ s.skillsOf id)

/-- What the import refuses is not in the export: the texts are as a create takes them, the user may
assign the skills and use the models, and the skills can be merged. -/
structure Portable (s : Store) (user : User) (agent : Agent) : Prop where
  name : agent.name ≠ ""
  slug : isSlug agent.agentId = true
  cpus : cpusValidationError (.string agent.cpus) = none
  memLimit : memLimitValidationError (.string agent.memLimit) = none
  pidsLimit : pidsLimitValidationError (.number agent.pidsLimit) = none
  skills : user.admin = true ∨ ∀ k ∈ s.skillsOf agent.id, k.scope.elevated = false
  models : ∀ name ∈ s.modelsOf agent.modelPolicyId,
    (s.models.rows.any fun m => m.usableBy name user.sub) = true
  merges : (mergeStored ((s.assignedRows agent.id).map (·.toolsConfig))).isSome = true

/-- A later store has the skills, the models and the profile still, and the slug is free in it.
Keys are fresh, and the names of skills unique. -/
structure Hosts (s t : Store) (agent : Agent) : Prop where
  skills : t.skills = s.skills
  models : t.models = s.models
  profile : (agent.containerProfileId.all fun id => t.profiles.contains id) = true
  slug : ∀ a ∈ t.agents.rows, a.agentId ≠ agent.agentId
  agents : t.agents.get? t.nextId = none
  policies : t.policies.get? (t.nextId + 1) = none
  assignments : ∀ a ∈ t.assignments.rows, a.agentId ≠ t.nextId
  names : ∀ k ∈ s.skills.rows, ∀ k' ∈ s.skills.rows, k.name = k'.name → k = k'

/-- The agent that is imported to `t`, which leaves `u`, is like the one that was exported. -/
structure Restored (s : Store) (agent : Agent) (t u : Store) (view : AgentView) : Prop where
  stored : u.agents.get? view.agent.id = some view.agent
  texts : view.agent.agentId = agent.agentId ∧ view.agent.name = agent.name ∧
    view.agent.description = agent.description ∧ view.agent.soulMd = agent.soulMd ∧
    view.agent.rulesMd = agent.rulesMd
  limits : view.agent.cpus = agent.cpus ∧ view.agent.memLimit = agent.memLimit ∧
    view.agent.pidsLimit = agent.pidsLimit
  profile : view.agent.containerProfileId = agent.containerProfileId
  toolsConfig : if s.skillsOf agent.id = [] then view.agent.toolsConfig = agent.toolsConfig
    else mergeStored ((s.assignedRows agent.id).map (·.toolsConfig)) = some view.agent.toolsConfig
  skills : ∀ k, k ∈ u.skillsOf view.agent.id ↔ k ∈ s.skillsOf agent.id
  models : u.effectiveModels view.agent.id =
    if s.modelsOf agent.modelPolicyId = [] then t.modelsOf t.defaultPolicy
    else s.modelsOf agent.modelPolicyId

section Checks

variable {s t : Store} {user : User} {agent : Agent}

theorem nonempty_of_slug (h : isSlug agent.agentId = true) : agent.agentId ≠ "" := by
  intro hempty
  rw [hempty] at h
  exact absurd h (by decide)

theorem nonempty_of_cpus {text : String} (h : cpusValidationError (.string text) = none) : text ≠ "" := by
  rintro rfl
  exact absurd h (by decide +kernel)

theorem nonempty_of_memLimit {text : String} (h : memLimitValidationError (.string text) = none) :
    text ≠ "" := by
  rintro rfl
  exact absurd h (by decide +kernel)

theorem ne_zero_of_pidsLimit {n : ℤ} (h : pidsLimitValidationError (.number n) = none) : n ≠ 0 := by
  rintro rfl
  exact absurd h (by decide +kernel)

theorem importError_eq_none (h : Portable s user agent) : importError agent = none := by
  have hlimits : validateLimits agent.limitFields = .ok () := by
    have hchecked : ∀ (validationError : Agents.Limits.Value → Option String) v,
        validationError v = none → Agents.Limits.checked validationError v = .ok () := by
      intro validationError v hnone
      rw [Agents.Limits.checked, hnone]
      split <;> rfl
    simp only [validateLimits, Agent.limitFields, hchecked _ _ h.cpus, hchecked _ _ h.memLimit,
      hchecked _ _ h.pidsLimit]
    rfl
  rw [importError, hlimits]
  simp [nonempty_of_slug h.slug, h.name, h.slug]

theorem row_of_skillsOf {id : Uuid} {k : Skill} (h : k ∈ s.skillsOf id) : k ∈ s.skills.rows := by
  obtain ⟨a, -, hget⟩ := List.mem_filterMap.mp h
  exact Table.mem_of_get? hget

theorem filter_skillsOf_eq_nil (id : Uuid) :
    s.skills.rows.filter (· ∈ s.skillsOf id) = [] ↔ s.skillsOf id = [] := by
  constructor
  · intro h
    apply List.eq_nil_iff_forall_not_mem.mpr
    intro k hk
    have hmem : k ∈ s.skills.rows.filter (· ∈ s.skillsOf id) :=
      List.mem_filter.mpr ⟨row_of_skillsOf hk, decide_eq_true hk⟩
    rw [h] at hmem
    cases hmem
  · intro h
    simp [h]

/-- The skills with the names of an agent's are the agent's. -/
theorem filter_names (hnames : ∀ k ∈ s.skills.rows, ∀ k' ∈ s.skills.rows, k.name = k'.name → k = k')
    (id : Uuid) : (s.skills.rows.filter fun k => ((s.skillsOf id).map (·.name)).contains k.name) =
      s.skills.rows.filter (· ∈ s.skillsOf id) := by
  apply List.filter_congr
  intro k hk
  apply Bool.eq_iff_iff.mpr
  simp only [List.contains_iff_mem, List.mem_map, decide_eq_true_eq]
  constructor
  · rintro ⟨k', hk', heq⟩
    rwa [hnames k hk k' (row_of_skillsOf hk') heq.symm]
  · exact fun hmem => ⟨k, hmem, rfl⟩

end Checks

section Imports

variable {s t u : Store} {user : User} {agent : Agent}

theorem addAssignments_fresh (agentId : Uuid) (assignedBy : String) {ids : List Uuid}
    (hagent : (s.agents.get? agentId).isSome) (hskills : ∀ id ∈ ids, (s.skills.get? id).isSome)
    (hnodup : ids.Nodup) (hfresh : ∀ id ∈ ids, s.assignments.get? (agentId, id) = none) :
    ∃ u, s.addAssignments agentId assignedBy ids = .ok u ∧ u.skills = s.skills ∧
      u.assignments.rows = s.assignments.rows ++ ids.map fun id => ⟨agentId, id, assignedBy⟩ := by
  induction ids generalizing s with
  | nil => exact ⟨s, rfl, rfl, by simp⟩
  | cons id rest ih =>
    obtain ⟨hid, hrest⟩ := List.nodup_cons.mp hnodup
    obtain ⟨assignments, hinsert⟩ := Table.exists_insert (r := (⟨agentId, id, assignedBy⟩ : Assignment))
      (hfresh id (by simp))
    have hadd : s.addAssignment ⟨agentId, id, assignedBy⟩ = .ok { s with assignments } := by
      simp only [Store.addAssignment, hagent, hskills id (by simp), hinsert, Bool.and_self, if_true]
    obtain ⟨u, hu, huskills, hurows⟩ := ih (s := { s with assignments }) hagent
      (fun id' hid' => hskills id' (by simp [hid'])) hrest (by
        intro id' hid'
        change assignments.get? _ = none
        rw [Table.get?_insert hinsert, if_neg]
        · exact hfresh id' (by simp [hid'])
        · rintro heq
          cases heq
          exact hid hid')
    refine ⟨u, by rw [Store.addAssignments, hadd]; exact hu, huskills, ?_⟩
    rw [hurows]
    change assignments.rows ++ _ = _
    rw [Table.rows_of_insert hinsert]
    simp

theorem addAgent_fresh {new : NewAgent} (hslug : ∀ a ∈ s.agents.rows, a.agentId ≠ new.agentId)
    (hprofile : (new.containerProfileId.all fun id => s.profiles.contains id) = true)
    (hpolicy : new.modelPolicyId = none) (hfresh : s.agents.get? s.nextId = none) :
    ∃ u, s.addAgent new = .ok (new.toAgent s.nextId s.defaultPolicy, u) ∧
      u.skills = s.skills ∧ u.assignments = s.assignments := by
  have hagent : (new.modelPolicyId <|> s.defaultPolicy) = s.defaultPolicy := by rw [hpolicy]; rfl
  have htaken : (s.agents.rows.any fun a => a.agentId = new.agentId) = false := by
    simpa using hslug
  have hrefers : s.refers (new.toAgent s.nextId s.defaultPolicy) = true := by
    refine Bool.and_eq_true_iff.mpr ⟨?_, hprofile⟩
    change (s.defaultPolicy.all fun id => (s.policies.get? id).isSome) = true
    cases hdefault : s.defaultPolicy with
    | none => rfl
    | some id =>
      obtain ⟨p, hp, rfl⟩ := Option.map_eq_some_iff.mp hdefault
      simp [Table.mem_iff_get?.mp (List.mem_of_find?_eq_some hp)]
  obtain ⟨agents, hinsert⟩ := Table.exists_insert (t := s.agents)
    (r := new.toAgent s.nextId s.defaultPolicy) hfresh
  refine ⟨{ s with agents, nextId := s.nextId + 1 }, ?_, rfl, rfl⟩
  simp only [Store.addAgent, hagent, htaken, hrefers, hinsert, Bool.false_eq_true, if_false, if_true]

theorem upsertAutoPolicy_fresh (agentId : Uuid) (slug owner : String) (models : List String)
    (hfresh : s.policies.get? s.nextId = none) :
    ∃ row u, s.upsertAutoPolicy agentId slug owner models = .ok (row, u) ∧ u.skills = s.skills ∧
      u.assignments = s.assignments := by
  cases hown : s.ownPolicy (autoPolicyName agentId) owner with
  | some row =>
    exact ⟨row, s.rewritePolicy row (some (autoPolicyDescription slug)) models,
      by rw [Store.upsertAutoPolicy, hown], rfl, rfl⟩
  | none =>
    obtain ⟨policies, hinsert⟩ := Table.exists_insert (t := s.policies) (r :=
      { id := s.nextId, name := autoPolicyName agentId, description := autoPolicyDescription slug
        allowedModels := models, createdBy := some owner }) hfresh
    refine ⟨s.nextId, { s with policies, nextId := s.nextId + 1 }, ?_, rfl, rfl⟩
    simp only [Store.upsertAutoPolicy, hown, Store.addPolicy, Option.isSome_none, Bool.false_eq_true,
      if_false, hinsert]

/-- A new agent with these skills, where its slug and its keys are free. -/
structure Creates (s : Store) (new : NewAgent) (models : Option (List String)) (found : List Skill)
    (view : AgentView) (t : Store) : Prop where
  agent : ∃ policyId, view.agent = new.toAgent s.nextId policyId ∧
    (models.getD [] = [] → policyId = s.defaultPolicy)
  models : ∀ names, models = some names → view.models = names
  stored : t.agents.get? s.nextId = some view.agent
  skills : t.skillsOf s.nextId = found

theorem skillsOf_assigned {found : List Skill} {agentId : Uuid} {assignedBy : String}
    (hrows : t.assignments.rows = s.assignments.rows ++ (found.map (·.id)).map
      fun id => ⟨agentId, id, assignedBy⟩)
    (hfresh : ∀ a ∈ s.assignments.rows, a.agentId ≠ agentId)
    (hfound : ∀ k ∈ found, t.skills.get? k.id = some k) : t.skillsOf agentId = found := by
  have hold : s.assignments.rows.filter (fun a => a.agentId = agentId) = [] := by
    apply List.filter_eq_nil_iff.mpr
    intro a ha
    simpa using hfresh a ha
  rw [Store.skillsOf, hrows, List.filter_append, hold, List.nil_append]
  clear hrows
  induction found with
  | nil => rfl
  | cons k found ih =>
    have hk := hfound k (by simp)
    simp only [List.map_cons, List.filter_cons, decide_true, if_true, List.filterMap_cons, hk]
    rw [ih fun k' hk' => hfound k' (by simp [hk'])]

theorem creates_fresh (new : NewAgent) (models : Option (List String)) (p : Skill → Bool)
    (hslug : ∀ a ∈ s.agents.rows, a.agentId ≠ new.agentId)
    (hprofile : (new.containerProfileId.all fun id => s.profiles.contains id) = true)
    (hpolicy : new.modelPolicyId = none) (hagents : s.agents.get? s.nextId = none)
    (hpolicies : s.policies.get? (s.nextId + 1) = none)
    (hassignments : ∀ a ∈ s.assignments.rows, a.agentId ≠ s.nextId) :
    ∃ view t, s.createAgent new models ((s.skills.rows.filter p).map (·.id)) = .ok (view, t) ∧
      Creates s new models (s.skills.rows.filter p) view t := by
  obtain ⟨u, hadd, huskills, huassignments⟩ := addAgent_fresh hslug hprofile hpolicy hagents
  have hadded := added_of_addAgent hadd
  -- what the policy step leaves: the agent with its policy, and the rest as before
  obtain ⟨policyId, v, hgive, hget, hvskills, hvassignments, hnone⟩ : ∃ policyId v,
      u.givePolicy (new.toAgent s.nextId s.defaultPolicy) (models.getD []) = .ok (policyId, v) ∧
      v.agents.get? s.nextId = some (new.toAgent s.nextId policyId) ∧ v.skills = s.skills ∧
      v.assignments = s.assignments ∧ (models.getD [] = [] → policyId = s.defaultPolicy) := by
    by_cases hempty : models.getD [] = []
    · exact ⟨s.defaultPolicy, u, by rw [Store.givePolicy, if_pos hempty]; rfl, hadded.get?, huskills,
        huassignments, fun _ => rfl⟩
    · obtain ⟨row, w, hupsert, hwskills, hwassignments⟩ := upsertAutoPolicy_fresh (s := u)
        s.nextId new.agentId new.createdBy (models.getD [])
        (by rw [hadded.policies, hadded.nextId]; exact hpolicies)
      obtain ⟨-, hkept, -⟩ := writesModels_upsertAutoPolicy s.nextId hupsert
      have hupsert' : u.upsertAutoPolicy (new.toAgent s.nextId s.defaultPolicy).id
          (new.toAgent s.nextId s.defaultPolicy).agentId (new.toAgent s.nextId s.defaultPolicy).createdBy
          (models.getD []) = .ok (row, w) := hupsert
      refine ⟨some row, w.rewriteAgent s.nextId { modelPolicyId := some (some row) }, ?_, ?_,
        hwskills.trans huskills, hwassignments.trans huassignments, fun h => (hempty h).elim⟩
      · rw [Store.givePolicy, if_neg hempty, hupsert']
        rfl
      · rw [get?_rewriteAgent, hkept, hadded.get?]
        simp only [Option.map_some, NewAgent.toAgent, if_true]
        rfl
  have hrow : ∀ k ∈ s.skills.rows.filter p, s.skills.get? k.id = some k := fun k hk =>
    Table.mem_iff_get?.mp (List.mem_of_mem_filter hk)
  obtain ⟨t, hassign, htskills, htrows⟩ := addAssignments_fresh (s := v) s.nextId
    new.createdBy
    (by rw [hget]; rfl)
    (by
      intro id hid
      obtain ⟨k, hk, rfl⟩ := List.mem_map.mp hid
      rw [hvskills, hrow k hk]
      rfl)
    (s.skills.keys.sublist (List.filter_sublist.map Skill.id))
    (by
      intro id _
      rw [hvassignments, Table.get?_eq_none_iff]
      intro a ha hkey
      exact hassignments a ha (congrArg Prod.fst hkey))
  obtain ⟨htagents, -, -⟩ := same_of_addAssignments hassign
  refine ⟨⟨new.toAgent s.nextId policyId, models.getD (t.modelsOf policyId), t.skillsOf s.nextId⟩, t,
    ?_, ⟨policyId, rfl, hnone⟩, ?_, ?_, ?_⟩
  · rw [Store.createAgent, hadd]
    change (u.givePolicy _ _ >>= _) = _
    rw [hgive]
    change (v.addAssignments _ _ _ >>= _) = _
    have hassign' : v.addAssignments (new.toAgent s.nextId s.defaultPolicy).id new.createdBy
      ((s.skills.rows.filter p).map (·.id)) = .ok t := hassign
    rw [hassign']
    rfl
  · rintro names rfl
    rfl
  · rw [htagents, hget]
  · rw [hvassignments] at htrows
    refine skillsOf_assigned htrows hassignments fun k hk => ?_
    rw [htskills, hvskills]
    exact hrow k hk

end Imports

section Routes

variable {s t : Store} {user : User} {agent : Agent}

theorem against_done {α β : Type} {p : Handler α} {f : α → Handler β} {a : α} {u : Store}
    (h : p.against Statement.run (fun _ => .answered ()) s = (.ok a, u)) :
    (p >>= f).against Statement.run (fun _ => .answered ()) s =
      (f a).against Statement.run (fun _ => .answered ()) u := by
  rw [against_bind, h]

/-- The answer to a statement that comes back, and what follows it. -/
theorem against_ask {β : Type} {st : Statement} {f : st.Rows → Handler β} {rows : st.Rows} {u : Store}
    (h : st.run s () = .ok (rows, u)) :
    (ask st >>= f).against Statement.run (fun _ => .answered ()) s =
      (f rows).against Statement.run (fun _ => .answered ()) u :=
  against_ask_ok (by simp only [Outcome.settle, h])

theorem answer_exportAgent (hget : s.agents.get? agent.id = some agent)
    (hscope : inScope user.owner agent.createdBy = true) :
    Request.answer s (.exportAgent user agent.id) = (.ok (.exported agent
      (s.modelsOf agent.modelPolicyId) ((s.skillsOf agent.id).map (·.name))), s) := by
  have hdetail : Statement.run s () (.selectDetail agent.id user.owner) =
      .ok (some (agent, s.modelsOf agent.modelPolicyId), s) := by
    simp [Statement.run, hget, Option.filter, hscope]
  change (orFailed _ _).against _ _ _ = _
  rw [orFailed, against_tryCatch, against_ask hdetail]
  rfl

theorem against_validateModelNames (user : User) {names : List String}
    (h : ∀ name ∈ names, (s.models.rows.any fun m => m.usableBy name user.sub) = true) :
    (validateModelNames user.sub names).against Statement.run (fun _ => .answered ()) s =
      (.ok none, s) := by
  induction names with
  | nil => rfl
  | cons name rest ih =>
    have hfound : Statement.run s () (.selectModel name user.sub) = .ok (true, s) := by
      simp only [Statement.run, h name (by simp)]
    rw [validateModelNames, against_ask hfound]
    exact ih fun name' hname' => h name' (by simp [hname'])

theorem against_importSkills (names : List String) (h : user.admin = true ∨
    ∀ k ∈ s.skills.rows.filter (fun k => names.contains k.name), k.scope.elevated = false) :
    (importSkills user names).against Statement.run (fun _ => .answered ()) s =
      (.ok (.ok (s.skills.rows.filter fun k => names.contains k.name)), s) := by
  rw [importSkills]
  split
  · rename_i hempty
    rw [hempty]
    simp
  · have hallowed : ((s.skills.rows.filter fun k => names.contains k.name).any (fun k => k.scope.elevated) &&
        !user.admin) = false := by
      rcases h with hadmin | hplain
      · simp [hadmin]
      · rw [Bool.and_eq_false_iff]
        left
        rw [List.any_eq_false]
        intro k hk
        simp [hplain k hk]
    have hfound : Statement.run s () (.selectSkillsNamed names) =
        .ok (s.skills.rows.filter fun k => names.contains k.name, s) := rfl
    rw [against_ask hfound]
    simp only [hallowed, Bool.false_eq_true, if_false]
    rfl

theorem against_resolvedToolsConfig (given : StoredConfig) {skills : List Skill}
    (h : (mergeStored (skills.map (·.toolsConfig))).isSome = true) :
    ∃ config, (resolvedToolsConfig (some given) skills).against Statement.run
        (fun _ => .answered ()) s = (.ok config, s) ∧
      if skills = [] then config = given
      else mergeStored (skills.map (·.toolsConfig)) = some config := by
  unfold resolvedToolsConfig
  split
  · exact ⟨given, rfl, rfl⟩
  · obtain ⟨config, hconfig⟩ := Option.isSome_iff_exists.mp h
    refine ⟨config, ?_, hconfig⟩
    rw [mergeSkills, hconfig]
    rfl

theorem against_importProfile {profileId : Option Uuid}
    (h : (profileId.all fun id => s.profiles.contains id) = true) :
    (importProfile profileId).against Statement.run (fun _ => .answered ()) s = (.ok profileId, s) := by
  cases profileId with
  | none => rfl
  | some id =>
    have hfound : Statement.run s () (.selectProfile id) = .ok (true, s) := by
      simp only [Statement.run]
      rw [show s.profiles.contains id = true from h]
    rw [importProfile, against_ask hfound]
    rfl

/-- The body of an export is imported as it is. -/
theorem importAgent_eq (h : Portable s user agent) (models names : List String) :
    importAgent user (exportBody agent models names) =
      orConflict "An agent with this agent_id already exists" "Failed to import agent"
        (importNamed user (exportBody agent models names) agent.agentId agent.name) := by
  simp [importAgent, exportBody, importError_eq_none h, Option.filter, nonempty_of_slug h.slug, h.name]

theorem newAgent_eq (h : Portable s user agent) (models names : List String)
    (toolsConfig : StoredConfig) :
    (exportBody agent models names).newAgent user agent.agentId agent.name toolsConfig none
      agent.containerProfileId =
      { agentId := agent.agentId, name := agent.name, description := agent.description, toolsConfig
        cpus := agent.cpus, memLimit := agent.memLimit, pidsLimit := agent.pidsLimit
        soulMd := agent.soulMd, rulesMd := agent.rulesMd, modelPolicyId := none
        containerProfileId := agent.containerProfileId, createdBy := user.sub } := by
  simp [AgentBody.newAgent, exportBody, orDefault, Option.filter, nonempty_of_cpus h.cpus,
    nonempty_of_memLimit h.memLimit, ne_zero_of_pidsLimit h.pidsLimit]

end Routes

/-- What is exported of an agent is taken back: the new agent is like it. -/
theorem export_restored (s t : Store) (user : User) (agent : Agent)
    (hget : s.agents.get? agent.id = some agent) (hscope : inScope user.owner agent.createdBy = true)
    (hportable : Portable s user agent) (hhosts : Hosts s t agent) :
    ∃ models names, Request.answer s (.exportAgent user agent.id) =
        (.ok (.exported agent models names), s) ∧
      ∃ view u, Request.answer t (.importAgent user (exportBody agent models names)) =
        (.ok (.agent 201 view), u) ∧ Restored s agent t u view := by
  refine ⟨_, _, answer_exportAgent hget hscope, ?_⟩
  have hfound : (t.skills.rows.filter fun k =>
      ((s.skillsOf agent.id).map (·.name)).contains k.name) =
      s.assignedRows agent.id := by
    rw [hhosts.skills]
    exact filter_names hhosts.names agent.id
  have hskills := against_importSkills (s := t)
    ((s.skillsOf agent.id).map (·.name)) (by
      rw [hfound]
      refine hportable.skills.imp_right fun hplain k hk => hplain k ?_
      exact of_decide_eq_true (List.mem_filter.mp hk).2)
  have hmodels := against_validateModelNames (s := t) user (by
    rw [hhosts.models]
    exact hportable.models)
  have hprofile := against_importProfile hhosts.profile
  have hmerges : (mergeStored ((t.skills.rows.filter fun k =>
      ((s.skillsOf agent.id).map (·.name)).contains k.name).map (·.toolsConfig))).isSome = true := by
    rw [hfound]
    exact hportable.merges
  obtain ⟨config, hresolved, hconfig⟩ := against_resolvedToolsConfig (s := t) agent.toolsConfig hmerges
  obtain ⟨view, u, hcreate, hcreates⟩ := creates_fresh (s := t)
    { agentId := agent.agentId, name := agent.name, description := agent.description
      toolsConfig := config
      cpus := agent.cpus, memLimit := agent.memLimit, pidsLimit := agent.pidsLimit
      soulMd := agent.soulMd, rulesMd := agent.rulesMd, modelPolicyId := none
      containerProfileId := agent.containerProfileId, createdBy := user.sub }
    ((some (s.modelsOf agent.modelPolicyId)).filter (· ≠ []))
    (fun k => ((s.skillsOf agent.id).map (·.name)).contains k.name)
    hhosts.slug hhosts.profile rfl hhosts.agents hhosts.policies hhosts.assignments
  have hanswers := answers_createAgent (fun _ => rfl) hcreate
  refine ⟨view, u, ?_, ?_⟩
  · have himport : (importNamed user (exportBody agent (s.modelsOf agent.modelPolicyId)
        ((s.skillsOf agent.id).map (·.name))) agent.agentId agent.name).against Statement.run
          (fun _ => .answered ()) t = (.ok (.agent 201 view), u) := by
      refine (against_done hskills).trans ?_
      refine (against_done hresolved).trans ?_
      refine (against_done hmodels).trans ?_
      refine (against_done hprofile).trans ?_
      rw [newAgent_eq hportable]
      exact against_ask hcreate
    change (importAgent user _).against _ _ _ = _
    rw [importAgent_eq hportable, orConflict, against_tryCatch, himport]
  · obtain ⟨policyId, hagent, hdefault⟩ := hcreates.agent
    have hnone : (t.skills.rows.filter fun k => ((s.skillsOf agent.id).map (·.name)).contains k.name) = [] ↔
        s.skillsOf agent.id = [] := by
      rw [hfound]
      exact filter_skillsOf_eq_nil agent.id
    have hid : view.agent.id = t.nextId := by rw [hagent]; rfl
    constructor
    · rw [hid]
      exact hcreates.stored
    · rw [hagent]
      exact ⟨rfl, rfl, rfl, rfl, rfl⟩
    · rw [hagent]
      exact ⟨rfl, rfl, rfl⟩
    · rw [hagent]
      rfl
    · have htools : view.agent.toolsConfig = config := by rw [hagent]; rfl
      rw [hfound] at hconfig hnone
      rw [htools]
      simpa only [hnone] using hconfig
    · intro k
      rw [hid, hcreates.skills, hfound, Store.assignedRows, List.mem_filter, decide_eq_true_eq]
      exact ⟨fun h => h.2, fun h => ⟨row_of_skillsOf h, h⟩⟩
    · rw [hid]
      split
      · rename_i hempty
        rw [hempty] at hdefault
        rw [Store.effectiveModels, hcreates.stored, hagent, Option.bind_some]
        change u.modelsOf policyId = _
        rw [hdefault rfl, hanswers.writes.models, hempty]
        rfl
      · rename_i hsome
        have hnames : (some (s.modelsOf agent.modelPolicyId)).filter (· ≠ []) =
            some (s.modelsOf agent.modelPolicyId) := by simp [Option.filter, hsome]
        refine (hanswers.models.mpr ?_).symm.trans (hcreates.models _ hnames)
        rintro ⟨hempty, -⟩
        rw [hnames] at hempty
        exact hsome (Option.some.inj hempty)

theorem scribe_restored :
    ∃ models names, Request.answer (Request.answer stocked (.create ⟨"eve", false⟩ scribe)).2
        (.exportAgent ⟨"eve", false⟩ 3) = (.ok (.exported (scribeView ["opus"]).agent models names),
          (Request.answer stocked (.create ⟨"eve", false⟩ scribe)).2) ∧
      ∃ view u, Request.answer stocked (.importAgent ⟨"eve", false⟩
          (exportBody (scribeView ["opus"]).agent models names)) = (.ok (.agent 201 view), u) ∧
        Restored (Request.answer stocked (.create ⟨"eve", false⟩ scribe)).2 (scribeView ["opus"]).agent
          stocked u view := by
  refine export_restored _ stocked ⟨"eve", false⟩ (scribeView ["opus"]).agent (by decide +kernel)
    (by decide +kernel) ?_ ?_
  · constructor
    · decide
    · decide +kernel
    · decide +kernel
    · decide +kernel
    · decide +kernel
    · exact .inr (by decide +kernel)
    · decide +kernel
    · decide +kernel
  · constructor
    · rfl
    · rfl
    · rfl
    · exact fun a ha => nomatch ha
    · rfl
    · rfl
    · exact fun a ha => nomatch ha
    · exact fun k hk => nomatch hk

/-- An admin has given eve's agent an elevated skill. -/
def guarded : Store where
  skills := (Table.empty.insert { id := 1, name := "docker", scope := .hostDocker }).getD Table.empty
  agents := (Table.empty.insert
    { id := 2, agentId := "warden", name := "Warden", createdBy := "eve" }).getD Table.empty
  assignments := (Table.empty.insert ⟨2, 1, "root"⟩).getD Table.empty
  nextId := 3

/-- Eve may not import what she may export: the skill takes an admin. -/
theorem export_refused :
    ¬ ∀ (s t : Store) (user : User) (agent : Agent), s.agents.get? agent.id = some agent →
      inScope user.owner agent.createdBy = true → Hosts s t agent →
      ∃ models names, Request.answer s (.exportAgent user agent.id) =
          (.ok (.exported agent models names), s) ∧
        ∃ view u, Request.answer t (.importAgent user (exportBody agent models names)) =
          (.ok (.agent 201 view), u) := by
  intro h
  obtain ⟨models, names, hexport, view, u, himport⟩ := h guarded
    { guarded with agents := Table.empty, assignments := Table.empty } ⟨"eve", false⟩
    { id := 2, agentId := "warden", name := "Warden", createdBy := "eve" } (by decide +kernel)
    (by decide +kernel) (by
      constructor
      · rfl
      · rfl
      · rfl
      · exact fun a ha => nomatch ha
      · rfl
      · rfl
      · exact fun a ha => nomatch ha
      · decide +kernel)
  have hanswer : (Request.answer guarded (.exportAgent ⟨"eve", false⟩ 2)).1 =
      .ok (.exported { id := 2, agentId := "warden", name := "Warden", createdBy := "eve" } []
        ["docker"]) := by decide +kernel
  have hsame := hanswer.symm.trans (congrArg Prod.fst hexport)
  cases hsame
  have hrefused : (Request.answer { guarded with agents := Table.empty, assignments := Table.empty }
      (.importAgent ⟨"eve", false⟩ (exportBody
        { id := 2, agentId := "warden", name := "Warden", createdBy := "eve" } [] ["docker"]))).1 =
      .ok (.error 403 "Importing agents with elevated-scope skills requires admin role") := by
    decide +kernel
  exact nomatch hrefused.symm.trans (congrArg Prod.fst himport)

end Hill90.Skills
