import Hill90.Skills.Atomic

/-! # The models of other agents

A request that assigns models writes one row of the policies.  It is local, in that no other agent
can use other models than before and the answer names the models of the stored policy, exactly if
no other agent is on that row with other models, and the default does not take the place of models
that were given as none.
-/

namespace Hill90.Skills

open Chat (Uuid Failure)
open Policies (User Policy)
open Program Service

namespace Store

variable (s : Store)

def effectiveModels (id : Uuid) : List String := s.modelsOf ((s.agents.get? id).bind (·.modelPolicyId))

/-- The row of an agent's own policy, made with the key `next` if it is not there. -/
def autoRow (agentId : Uuid) (owner : String) (next : Uuid) : Uuid :=
  (s.ownPolicy (autoPolicyName agentId) owner).getD next

def newWrite (owner : String) (models : List String) : Option (Uuid × List String) :=
  if models = [] then none else some (s.autoRow s.nextId owner (s.nextId + 1), models)

def modelsAfter (write : Option (Uuid × List String)) (policyId : Option Uuid) : List String :=
  match write with
  | some (row, models) => if policyId = some row then models else s.modelsOf policyId
  | none => s.modelsOf policyId

def isAuto (policyId : Uuid) : Bool :=
  (s.policies.get? policyId).any fun p => p.description.startsWith "[auto-agent-models]"

/-- The row a PUT writes models to: the assigned one where it was made for an agent. -/
def updateRow (existing : Agent) : Uuid :=
  match existing.modelPolicyId.filter s.isAuto with
  | some policyId => policyId
  | none => s.autoRow existing.id existing.createdBy s.nextId

/-- The policy of the source is copied as it is to a clone of this user's. -/
def isCopied (user : User) (policyId : Option Uuid) : Bool :=
  (policyId.bind s.policies.get?).any fun p => !p.description.startsWith "[auto-agent-models]" &&
    (p.createdBy = none || p.createdBy = some user.sub)

end Store

def Request.target (s : Store) : Request → Uuid
  | update _ id _ => id
  | _ => s.nextId

/-- The policy row that an accepted request writes, and the models it writes there. -/
def Request.policyWrite (s : Store) : Request → Option (Uuid × List String)
  | create user b => s.newWrite user.sub (normalizedNames (b.modelNames.getD []))
  | importAgent user b => s.newWrite user.sub (b.modelNames.getD [])
  | update _ id b =>
    let models := normalizedNames (b.modelNames.getD [])
    if models = [] then none else (s.agents.get? id).map fun a => (s.updateRow a, models)
  | clone user id _ => (s.agents.get? id).bind fun src =>
    if s.isCopied user src.modelPolicyId then none
    else s.newWrite user.sub (s.modelsOf src.modelPolicyId)
  | _ => none

/-- Another agent is on the row that is written, and not with the models that it is given. -/
def Spills (s : Store) (q : Request) : Prop :=
  ∃ row models, q.policyWrite s = some (row, models) ∧ ∃ a ∈ s.agents.rows, a.id ≠ q.target s ∧
    a.modelPolicyId = some row ∧ s.modelsOf (some row) ≠ models

/-- Models are given, but none, and the new agent gets those of the default policy. -/
def Misreports (s : Store) : Request → Prop
  | .create _ b => b.modelNames.map normalizedNames = some [] ∧ s.modelsOf s.defaultPolicy ≠ []
  | _ => False

structure Local (s t : Store) (view : AgentView) : Prop where
  others : ∀ id, id ≠ view.agent.id → t.effectiveModels id = s.effectiveModels id
  models : view.models = t.effectiveModels view.agent.id

inductive AssignsModels : Request → Prop where
  | create (user : User) (b : AgentBody) : AssignsModels (.create user b)
  | importAgent (user : User) (b : AgentBody) : AssignsModels (.importAgent user b)
  | update (user : User) (id : Uuid) (b : AgentBody) : AssignsModels (.update user id b)
  | clone (user : User) (id : Uuid) (name : Option String) : AssignsModels (.clone user id name)

section Stores

variable {s s' t u : Store} {target : Uuid} {write : Option (Uuid × List String)}

structure WritesModels (s t : Store) (target : Uuid) (write : Option (Uuid × List String)) : Prop where
  others : ∀ id, id ≠ target →
    (t.agents.get? id).bind (·.modelPolicyId) = (s.agents.get? id).bind (·.modelPolicyId)
  models : ∀ policyId, t.modelsOf policyId = s.modelsAfter write policyId

theorem writesModels_same (hagents : t.agents = s.agents) (hpolicies : t.policies = s.policies) :
    WritesModels s t target none where
  others _ _ := by rw [hagents]
  models _ := by simp only [Store.modelsAfter, Store.modelsOf, hpolicies]

theorem WritesModels.before (h : WritesModels s t target none) (h' : WritesModels t u target write) :
    WritesModels s u target write where
  others id hid := (h'.others id hid).trans (h.others id hid)
  models policyId := by
    have hsame : ∀ policyId, t.modelsOf policyId = s.modelsOf policyId := h.models
    rw [h'.models policyId]
    simp only [Store.modelsAfter, hsame]

theorem WritesModels.after (h : WritesModels s t target write) (h' : WritesModels t u target none) :
    WritesModels s u target write where
  others id hid := (h'.others id hid).trans (h.others id hid)
  models policyId := (h'.models policyId).trans (h.models policyId)

/-- What another agent can use after the write. -/
theorem WritesModels.effectiveModels (h : WritesModels s t target write) {id : Uuid}
    (hid : id ≠ target) : t.effectiveModels id =
      s.modelsAfter write ((s.agents.get? id).bind (·.modelPolicyId)) := by
  rw [Store.effectiveModels, h.others id hid, h.models]

theorem modelsOf_rewritePolicy {row : Uuid} (hrow : (s.policies.get? row).isSome)
    (description : Option String) (models : List String) (policyId : Option Uuid) :
    (s.rewritePolicy row description models).modelsOf policyId =
      if policyId = some row then models else s.modelsOf policyId := by
  cases policyId with
  | none => simp [Store.modelsOf]
  | some id =>
    simp only [Store.modelsOf, Store.rewritePolicy, Option.bind_some, Table.get?_patch_eq]
    cases hget : s.policies.get? id with
    | none =>
      have hne : id ≠ row := by
        rintro rfl
        rw [hget] at hrow
        cases hrow
      simp [hne]
    | some p =>
      have hkey : p.id = id := Table.key_of_get? hget
      by_cases heq : id = row <;> simp [hkey, heq]

theorem writesModels_rewritePolicy {row : Uuid} (hrow : (s.policies.get? row).isSome)
    (description : Option String) (models : List String) :
    WritesModels s (s.rewritePolicy row description models) target (some (row, models)) where
  others _ _ := rfl
  models policyId := modelsOf_rewritePolicy hrow description models policyId

theorem writesModels_addPolicy (target : Uuid) {name description owner : String} {models : List String} {id : Uuid}
    (h : s.addPolicy name description owner models = .ok (id, s')) :
    id = s.nextId ∧ s'.agents = s.agents ∧ WritesModels s s' target (some (id, models)) := by
  simp only [Store.addPolicy] at h
  split at h
  · cases h
  · split at h
    · rename_i policies hinsert
      cases h
      refine ⟨rfl, rfl, fun _ _ => rfl, fun policyId => ?_⟩
      cases policyId with
      | none => simp [Store.modelsOf, Store.modelsAfter]
      | some id =>
        simp only [Store.modelsOf, Store.modelsAfter, Option.bind_some, Table.get?_insert hinsert,
          Option.some.injEq]
        split <;> rfl
    · cases h

theorem isSome_ownPolicy {name owner : String} {id : Uuid} (h : s.ownPolicy name owner = some id) :
    (s.policies.get? id).isSome := by
  obtain ⟨p, hp, rfl⟩ := Option.map_eq_some_iff.mp h
  rw [Table.mem_iff_get?.mp (List.mem_of_find?_eq_some hp)]
  rfl

theorem writesModels_upsertAutoPolicy (target : Uuid) {agentId : Uuid} {slug owner : String}
    {models : List String} {id : Uuid} (h : s.upsertAutoPolicy agentId slug owner models = .ok (id, s')) :
    id = s.autoRow agentId owner s.nextId ∧ s'.agents = s.agents ∧
      WritesModels s s' target (some (id, models)) := by
  rw [Store.upsertAutoPolicy] at h
  split at h
  · rename_i row hown
    cases h
    refine ⟨by rw [Store.autoRow, hown]; rfl, rfl, writesModels_rewritePolicy (isSome_ownPolicy hown) _ _⟩
  · rename_i hown
    obtain ⟨hid, hrest⟩ := writesModels_addPolicy target h
    exact ⟨by rw [Store.autoRow, hown]; exact hid, hrest⟩

theorem get?_rewriteAgent (s : Store) (target : Uuid) (u : AgentUpdate) (id : Uuid) :
    (s.rewriteAgent target u).agents.get? id =
      (s.agents.get? id).map fun a => if a.id = target then u.apply a else a := by
  simp only [Store.rewriteAgent, Table.get?_patch_eq, decide_eq_true_eq]

theorem writesModels_rewriteAgent (s : Store) (target : Uuid) (u : AgentUpdate) :
    WritesModels s (s.rewriteAgent target u) target none where
  others id hid := by
    rw [get?_rewriteAgent]
    cases hget : s.agents.get? id with
    | none => rfl
    | some a =>
      have hkey : a.id = id := Table.key_of_get? hget
      simp [hkey, hid]
  models _ := rfl

/-- A new agent gets the next key, and the default policy if it is given none. -/
structure Added (s s' : Store) (new : NewAgent) (agent : Agent) : Prop where
  id : agent.id = s.nextId
  agentId : agent.agentId = new.agentId
  createdBy : agent.createdBy = new.createdBy
  modelPolicyId : agent.modelPolicyId = (new.modelPolicyId <|> s.defaultPolicy)
  get? : s'.agents.get? s.nextId = some agent
  nextId : s'.nextId = s.nextId + 1
  policies : s'.policies = s.policies
  writes : WritesModels s s' s.nextId none

theorem added_of_addAgent {new : NewAgent} {agent : Agent} (h : s.addAgent new = .ok (agent, s')) :
    Added s s' new agent := by
  simp only [Store.addAgent] at h
  split at h
  · cases h
  · split at h
    · split at h
      · rename_i agents hinsert
        cases h
        have hget := Table.get?_insert hinsert
        refine ⟨rfl, rfl, rfl, rfl, (hget _).trans (if_pos rfl), rfl, rfl, fun id hid => ?_, fun _ => rfl⟩
        have hother : agents.get? id = s.agents.get? id := (hget id).trans (if_neg hid)
        exact congrArg (fun a => a.bind (·.modelPolicyId)) hother
      · cases h
    · cases h

/-- Assignments leave the agents and the policies alone. -/
theorem same_of_addAssignment {a : Assignment} (h : s.addAssignment a = .ok s') :
    s'.agents = s.agents ∧ s'.policies = s.policies ∧ s'.nextId = s.nextId := by
  rw [Store.addAssignment] at h
  split at h
  · split at h
    · cases h
      exact ⟨rfl, rfl, rfl⟩
    · cases h
  · cases h

theorem same_of_addAssignments {agentId : Uuid} {assignedBy : String} {skills : List Uuid}
    (h : s.addAssignments agentId assignedBy skills = .ok s') :
    s'.agents = s.agents ∧ s'.policies = s.policies ∧ s'.nextId = s.nextId := by
  induction skills generalizing s with
  | nil =>
    cases h
    exact ⟨rfl, rfl, rfl⟩
  | cons skillId rest ih =>
    rw [Store.addAssignments] at h
    split at h
    · rename_i t hadd
      obtain ⟨hagents, hpolicies, hnext⟩ := same_of_addAssignment hadd
      obtain ⟨hagents', hpolicies', hnext'⟩ := ih h
      exact ⟨hagents'.trans hagents, hpolicies'.trans hpolicies, hnext'.trans hnext⟩
    · cases h

/-- What an accepted request has done: one write, and an answer that is right or not. -/
structure Answers (s t : Store) (view : AgentView) (target : Uuid)
    (write : Option (Uuid × List String)) (misreports : Prop) : Prop where
  id : view.agent.id = target
  writes : WritesModels s t target write
  models : view.models = t.effectiveModels target ↔ ¬misreports

/-- A policy row that is written holds what is written. -/
theorem WritesModels.row {row : Uuid} {models : List String}
    (h : WritesModels s t target (some (row, models))) : t.modelsOf (some row) = models := by
  rw [h.models, Store.modelsAfter, if_pos rfl]

theorem effectiveModels_rewriteAgent {agent : Agent} {u : AgentUpdate} {row : Uuid}
    (hget : s.agents.get? target = some agent) (hu : u.modelPolicyId = some (some row)) :
    (s.rewriteAgent target u).effectiveModels target = s.modelsOf (some row) := by
  have hkey : agent.id = target := Table.key_of_get? hget
  rw [Store.effectiveModels, get?_rewriteAgent, hget]
  simp only [Option.map_some, hkey, if_true, Option.bind_some, AgentUpdate.apply, hu,
    Option.getD_some]
  rfl

theorem effectiveModels_congr (hagents : t.agents = s.agents) (hpolicies : t.policies = s.policies)
    (id : Uuid) : t.effectiveModels id = s.effectiveModels id := by
  simp only [Store.effectiveModels, Store.modelsOf, hagents, hpolicies]

theorem answers_createAgent {new : NewAgent} {models : Option (List String)} {skills : List Uuid}
    {view : AgentView} (hnew : models.isSome = true → new.modelPolicyId = none)
    (h : s.createAgent new models skills = .ok (view, t)) :
    Answers s t view s.nextId (s.newWrite new.createdBy (models.getD []))
      (models = some [] ∧ s.modelsOf s.defaultPolicy ≠ []) := by
  obtain ⟨⟨agent, s₁⟩, hadd, h⟩ := bind_eq_ok h
  obtain ⟨⟨policyId, s₂⟩, hpolicy, h⟩ := bind_eq_ok h
  obtain ⟨s₃, hassign, h⟩ := bind_eq_ok h
  cases h
  have hadded := added_of_addAgent hadd
  obtain ⟨hagents, hpolicies, -⟩ := same_of_addAssignments hassign
  have hquiet : WritesModels s₂ t s.nextId none := writesModels_same hagents hpolicies
  have heffective : t.effectiveModels s.nextId = s₂.effectiveModels s.nextId :=
    effectiveModels_congr hagents hpolicies _
  rw [Store.givePolicy] at hpolicy
  split at hpolicy
  · rename_i hnone
    cases hpolicy
    have hstored : t.effectiveModels s.nextId = s.modelsOf agent.modelPolicyId := by
      rw [heffective, Store.effectiveModels, hadded.get?]
      simp only [Store.modelsOf, Option.bind_some, hadded.policies]
    refine ⟨hadded.id, ?_, ?_⟩
    · rw [Store.newWrite, if_pos hnone]
      exact hadded.writes.after hquiet
    · rw [hstored]
      cases models with
      | none => simp [Store.modelsOf, hpolicies, hadded.policies]
      | some names =>
        obtain rfl : names = [] := hnone
        rw [hadded.modelPolicyId, hnew rfl]
        exact ⟨fun h hwrong => hwrong.2 h.symm, fun h => (not_not.mp fun hne => h ⟨rfl, hne⟩).symm⟩
  · rename_i hsome
    obtain ⟨⟨row, s₄⟩, hupsert, heq⟩ := map_eq_ok hpolicy
    cases heq
    obtain ⟨hrow, hkept, hwrites⟩ := writesModels_upsertAutoPolicy s.nextId hupsert
    have hauto : row = s.autoRow s.nextId new.createdBy (s.nextId + 1) := by
      rw [hrow, hadded.id, hadded.createdBy, hadded.nextId]
      simp only [Store.autoRow, Store.ownPolicy, hadded.policies]
    have hrewrite : WritesModels s₄ (s₄.rewriteAgent agent.id { modelPolicyId := some (some row) })
        s.nextId none := by
      rw [hadded.id]
      exact writesModels_rewriteAgent _ _ _
    have hnames : ∃ names, models = some names := by
      cases models with
      | none => exact (hsome rfl).elim
      | some names => exact ⟨names, rfl⟩
    obtain ⟨names, rfl⟩ := hnames
    have hstored : t.effectiveModels s.nextId = names := by
      rw [heffective, hadded.id, effectiveModels_rewriteAgent (by rw [hkept]; exact hadded.get?) rfl]
      exact hwrites.row
    refine ⟨hadded.id, ?_, ?_⟩
    · rw [Store.newWrite, if_neg hsome, ← hauto]
      exact ((hadded.writes.before hwrites).after hrewrite).after hquiet
    · rw [hstored]
      refine iff_of_true rfl ?_
      rintro ⟨hempty, -⟩
      cases hempty
      exact hsome rfl

theorem updated_of_updateAgent {update : AgentUpdate} {write : PolicyWrite}
    {skills : Option (List Uuid)} {assignedBy : String} {agent : Agent}
    {row : Option (Uuid × List String)}
    (hwrite : ∀ given policyId s', s.writePolicy target given write = .ok (policyId, s') →
      WritesModels s s' target row)
    (h : s.updateAgent target update write skills assignedBy = .ok (agent, t)) :
    t.agents.get? target = some agent ∧ WritesModels s t target row := by
  obtain ⟨⟨policyId, s₁⟩, hpolicy, h⟩ := bind_eq_ok h
  dsimp only at h
  split at h
  · cases h
  · rename_i agent' hget
    split at h
    · obtain ⟨s₂, hreplace, h⟩ := bind_eq_ok h
      cases h
      have hsame : t.agents = (s₁.rewriteAgent target { update with modelPolicyId := policyId }).agents ∧
          t.policies = s₁.policies := by
        cases skills with
        | none =>
          cases hreplace
          exact ⟨rfl, rfl⟩
        | some skills =>
          obtain ⟨hagents, hpolicies, -⟩ := same_of_addAssignments hreplace
          exact ⟨hagents, hpolicies⟩
      refine ⟨by rw [hsame.1]; exact hget, ?_⟩
      exact ((hwrite _ _ _ hpolicy).after (writesModels_rewriteAgent _ _ _)).after
        (writesModels_same hsame.1 hsame.2)
    · cases h

/-- The answer is local exactly if the row is shared by nobody with other models, and right. -/
theorem Answers.local_iff {view : AgentView} {misreports : Prop}
    (h : Answers s t view target write misreports) :
    Local s t view ↔ ¬(∃ row models, write = some (row, models) ∧ ∃ a ∈ s.agents.rows,
      a.id ≠ target ∧ a.modelPolicyId = some row ∧ s.modelsOf (some row) ≠ models) ∧ ¬misreports := by
  constructor
  · rintro ⟨hothers, hmodels⟩
    rw [h.id] at hothers hmodels
    refine ⟨?_, h.models.mp hmodels⟩
    rintro ⟨row, models, rfl, a, ha, hid, hpolicy, hne⟩
    have hget : s.agents.get? a.id = some a := Table.mem_iff_get?.mp ha
    have hkept := hothers a.id hid
    rw [h.writes.effectiveModels hid, Store.effectiveModels, hget, Option.bind_some, hpolicy,
      Store.modelsAfter, if_pos rfl] at hkept
    exact hne hkept.symm
  · rintro ⟨hspill, hright⟩
    refine ⟨fun id hid => ?_, by rw [h.id]; exact h.models.mpr hright⟩
    rw [h.id] at hid
    rw [h.writes.effectiveModels hid]
    cases write with
    | none => rfl
    | some write =>
      simp only [Store.modelsAfter]
      split
      · rename_i hpolicy
        obtain ⟨a, hget, hrow⟩ := Option.bind_eq_some_iff.mp hpolicy
        have hkey : a.id = id := Table.key_of_get? hget
        by_contra hne
        refine hspill ⟨write.1, write.2, rfl, a, Table.mem_of_get? hget, by rwa [hkey], hrow, ?_⟩
        intro hsame
        rw [Store.effectiveModels, hget, Option.bind_some, hrow] at hne
        exact hne hsame.symm
      · rfl

end Stores

section Handlers

variable {s : Store} {t : Attempt Store} {user : User} {α β : Type}

/-- However its statements come back, the program replies as `P` says, if it replies. -/
abbrev Leads (s : Store) (p : Handler α) (P : α → Store → Prop) (t : Attempt Store) : Prop :=
  Ensures (Attempts s) p (fun a u => P a u.store) (fun _ _ => True) t

theorem leads_ask {st : Statement} {P : st.Rows → Store → Prop}
    (h : ∀ rows u, st.run t.store () = .ok (rows, u) → P rows u) : Leads s (ask st) P t := by
  refine ⟨fun rows u hu => ?_, fun _ _ _ => trivial⟩
  obtain ⟨o, -, ho⟩ := hu.1
  obtain ⟨⟨⟩, -, hrun⟩ := Outcome.settle_ok ho
  exact h rows u.store hrun

/-- A statement that reads comes back with what is there. -/
theorem leads_found {st : Statement} {rows : st.Rows} {u : Store} (ht : t.store = u)
    (hrun : st.run u () = .ok (rows, u)) : Leads s (ask st) (fun found v => v = u ∧ found = rows) t := by
  refine leads_ask fun found v hfound => ?_
  rw [ht, hrun] at hfound
  cases hfound
  exact ⟨rfl, rfl⟩

theorem leads_then {p : Handler α} {f : α → Handler β} {P : α → Store → Prop} {P' : β → Store → Prop}
    (hp : Leads s p P t) (hf : ∀ a u, P a u.store → Leads s (f a) P' u) : Leads s (p >>= f) P' t :=
  ensures_then (fun a u => P a u.store) hp hf

theorem leads_reads {p : Handler α} (h : p.Only Statement.Reads) :
    Leads s p (fun _ u => u = t.store) t := by
  have hstay : ∀ u st answer v, u.store = t.store → Statement.Reads st →
      Attempts s u st answer v → v.store = t.store := by
    rintro u st answer v hu hst ⟨⟨o, -, ho⟩, -⟩
    have hsame := settle_reads (s := u.store) hst o
    rw [ho] at hsame
    exact hsame.trans hu
  exact (Only.ensures (P := fun u => u.store = t.store) h hstay rfl).mono (fun _ _ h => h)
    fun _ _ _ => trivial

abbrev Accepts (s : Store) (p : Handler Response) (Q : AgentView → Store → Prop)
    (t : Attempt Store) : Prop :=
  Leads s p (fun r u => ∀ code view, r = .agent code view → Q view u) t

variable {Q : AgentView → Store → Prop}

theorem accepts_error {r : Response} (hr : r.isError = true) : Accepts s (pure r) Q t := by
  rintro code view rfl
  cases hr

theorem accepts_orFailed {text : String} {p : Handler Response} (h : Accepts s p Q t) :
    Accepts s (orFailed text p) Q t :=
  (ensures_tryCatch _ _).mpr (h.mono (fun _ _ h => h) fun _ _ _ => accepts_error rfl)

theorem accepts_orConflict {conflict text : String} {p : Handler Response} (h : Accepts s p Q t) :
    Accepts s (orConflict conflict text p) Q t := by
  refine (ensures_tryCatch _ _).mpr (h.mono (fun _ _ h => h) fun e _ _ => ?_)
  cases e <;> exact accepts_error rfl

structure Checks (check : Handler (Option Response)) : Prop where
  reads : check.Only Statement.Reads
  refuses : check.Yields (fun _ _ => True) fun answer => ∀ r ∈ answer, r.isError = true

structure Resolves (lookup : Handler (Except Response α)) : Prop where
  reads : lookup.Only Statement.Reads
  refuses : lookup.Yields (fun _ _ => True) fun found => ∀ r, found = .error r → r.isError = true

theorem accepts_unlessAnswered {check : Handler (Option Response)} {rest : Handler Response}
    (hcheck : Checks check) (ht : t.store = s)
    (hrest : ∀ u : Attempt Store, u.store = s → Accepts s rest Q u) :
    Accepts s (unlessAnswered check rest) Q t := by
  refine ensures_then _ ((leads_reads hcheck.reads).and hcheck.refuses.ensures |>.mono
    (fun _ _ h => h) fun _ _ _ => trivial) ?_
  rintro answer u ⟨hu, hrefuses⟩
  cases answer with
  | some r => exact accepts_error (hrefuses r rfl)
  | none => exact hrest u (hu.trans ht)

theorem accepts_resolved {lookup : Handler (Except Response α)}
    {f : Except Response α → Handler Response} (hlookup : Resolves lookup) (ht : t.store = s)
    (herror : ∀ r, f (.error r) = pure r)
    (hok : ∀ a (u : Attempt Store), u.store = s → Accepts s (f (.ok a)) Q u) :
    Accepts s (lookup >>= f) Q t := by
  refine ensures_then _ ((leads_reads hlookup.reads).and hlookup.refuses.ensures |>.mono
    (fun _ _ h => h) fun _ _ _ => trivial) ?_
  rintro found u ⟨hu, hrefuses⟩
  cases found with
  | error r =>
    rw [herror]
    exact accepts_error (hrefuses r rfl)
  | ok a => exact hok a u (hu.trans ht)

theorem checks_validateModelNames (owner : String) (names : List String) :
    Checks (validateModelNames owner names) := by
  refine ⟨reads_of_library (library_validateModelNames _ _), ?_⟩
  induction names with
  | nil => exact fun _ hr => nomatch hr
  | cons name rest ih =>
    refine yields_ask fun found _ => ?_
    split
    · exact ih
    · rintro r ⟨⟩
      rfl

theorem checks_checkPolicy (policyId : Option Uuid) (owner : String) :
    Checks (checkPolicy policyId user owner) := by
  refine ⟨reads_of_library (library_checkPolicy _ _), ?_⟩
  cases policyId with
  | none => exact fun _ hr => nomatch hr
  | some id =>
    refine yields_ask fun policy _ => ?_
    cases policy with
    | none =>
      rintro r ⟨⟩
      rfl
    | some policy =>
      dsimp only
      split
      · rintro r ⟨⟩
        rfl
      · refine yields_ask fun policy _ => ?_
        cases policy with
        | none => exact fun _ hr => nomatch hr
        | some policy =>
          refine yields_then (yields_any _) fun missing _ => ?_
          intro r hr
          split at hr
          · cases hr
          · cases hr
            rfl

theorem checks_checkProfile (profileId : Option Uuid) : Checks (checkProfile profileId) := by
  refine ⟨reads_of_library (library_checkProfile _), ?_⟩
  cases profileId with
  | none => exact fun _ hr => nomatch hr
  | some id =>
    refine yields_ask fun found _ r hr => ?_
    split at hr
    · cases hr
    · cases hr
      rfl

theorem resolves_resolveSkills (ids : List Uuid) : Resolves (resolveSkills user ids) := by
  refine ⟨reads_resolveSkills ids, ?_⟩
  unfold resolveSkills
  split
  · exact fun _ hr => by cases hr
  · refine yields_ask fun skills _ => ?_
    split
    · rintro r ⟨⟩
      rfl
    · rename_i hdenied
      split
      · rename_i response hscope
        rintro r ⟨⟩
        rw [deniedScope] at hscope
        split at hscope
        · cases hscope
        · obtain ⟨k, -, rfl⟩ := Option.map_eq_some_iff.mp hscope
          rfl
      · exact fun _ hr => by cases hr

theorem resolves_importSkills (names : List String) : Resolves (importSkills user names) := by
  refine ⟨reads_importSkills names, ?_⟩
  unfold importSkills
  split
  · exact fun _ hr => nomatch hr
  · refine yields_ask fun skills _ => ?_
    split
    · rintro r ⟨⟩
      rfl
    · exact fun _ hr => nomatch hr

theorem resolves_updateSkills (id : Uuid) (given : Option StoredConfig) (ids : Option (List Uuid)) :
    Resolves (updateSkills user id given ids) := by
  refine ⟨reads_updateSkills id given ids, ?_⟩
  cases ids with
  | none => exact fun _ hr => nomatch hr
  | some ids =>
    refine yields_then (resolves_resolveSkills ids).refuses fun resolved hresolved => ?_
    cases resolved with
    | error response =>
      rintro r ⟨⟩
      exact hresolved response rfl
    | ok skills =>
      have hremoved : (checkRemoved user id ids).Yields (fun _ _ => True)
          fun answer => ∀ r ∈ answer, r.isError = true := by
        unfold checkRemoved
        split
        · exact fun _ hr => nomatch hr
        · refine yields_ask fun current _ r hr => ?_
          obtain ⟨k, -, rfl⟩ := Option.map_eq_some_iff.mp hr
          rfl
      refine yields_then (yields_any _) fun _ _ => yields_then hremoved fun removed hremoved => ?_
      cases removed with
      | some response =>
        rintro r ⟨⟩
        exact hremoved response rfl
      | none => exact fun _ hr => nomatch hr

end Handlers

section Routes

variable {s : Store} {t : Attempt Store} {user : User}

/-- The request has been answered with an agent, and done what it does. -/
abbrev Fulfils (s : Store) (q : Request) (view : AgentView) (u : Store) : Prop :=
  Answers s u view (q.target s) (q.policyWrite s) (Misreports s q)

theorem fulfils_create (b : AgentBody) (ht : t.store = s) :
    Accepts s (create user b) (Fulfils s (.create user b)) t := by
  apply accepts_orConflict
  split
  · exact accepts_error rfl
  · rename_i agentId name _ _ _
    rw [createNamed]
    refine ensures_ite (fun _ => accepts_error rfl) fun hboth => ?_
    refine accepts_unlessAnswered (checks_checkPolicy _ _) ht fun t ht => ?_
    refine accepts_unlessAnswered (checks_validateModelNames _ _) ht fun t ht => ?_
    refine accepts_unlessAnswered (checks_checkProfile _) ht fun t ht => ?_
    refine accepts_resolved (resolves_resolveSkills _) ht (fun _ => rfl) fun skills t ht => ?_
    refine leads_then (leads_reads (only_resolvedToolsConfig _ skills)) fun config t hconfig => ?_
    have ht := hconfig.trans ht
    refine leads_then (leads_ask (P := fun view u => Fulfils s (.create user b) view u) ?_) ?_
    · intro view u hrun
      rw [ht] at hrun
      have hnew : (b.modelNames.map normalizedNames).isSome = true →
          (b.newAgent user agentId name config b.modelPolicyId.join
            b.containerProfileId.join).modelPolicyId = none := by
        intro hnames
        cases hpolicy : b.modelPolicyId with
        | none => rfl
        | some policyId =>
          refine (hboth ?_).elim
          rw [hpolicy]
          simpa using hnames
      have hanswers := answers_createAgent hnew hrun
      have hnames : (b.modelNames.map normalizedNames).getD [] =
          normalizedNames (b.modelNames.getD []) := by
        cases b.modelNames <;> rfl
      rw [hnames] at hanswers
      exact hanswers
    · rintro view u hview code view' ⟨⟩
      exact hview
  · exact accepts_error rfl

theorem fulfils_importAgent (b : AgentBody) (ht : t.store = s) :
    Accepts s (importAgent user b) (Fulfils s (.importAgent user b)) t := by
  apply accepts_orConflict
  split
  · exact accepts_error rfl
  · rename_i agentId name _ _ _
    rw [importNamed]
    refine accepts_resolved (resolves_importSkills _) ht (fun _ => rfl) fun skills t ht => ?_
    refine leads_then (leads_reads (only_resolvedToolsConfig _ skills)) fun config t hconfig => ?_
    have ht := hconfig.trans ht
    refine accepts_unlessAnswered (checks_validateModelNames _ _) ht fun t ht => ?_
    refine leads_then (leads_reads (reads_of_library (library_importProfile _))) fun profileId u hu => ?_
    refine leads_then (leads_ask (P := fun view u => Fulfils s (.importAgent user b) view u) ?_) ?_
    · intro view v hrun
      rw [hu, ht] at hrun
      have hanswers := answers_createAgent (fun _ => rfl) hrun
      have hnames : (b.modelNames.filter (· ≠ [])).getD [] = b.modelNames.getD [] := by
        cases b.modelNames with
        | none => rfl
        | some names => cases names <;> rfl
      have hright : ¬(b.modelNames.filter (· ≠ []) = some [] ∧ s.modelsOf s.defaultPolicy ≠ []) := by
        rintro ⟨hempty, -⟩
        have := (Option.filter_eq_some_iff.mp hempty).2
        simp at this
      rw [hnames] at hanswers
      exact ⟨hanswers.id, hanswers.writes, hanswers.models.trans (iff_of_true hright id)⟩
    · rintro view u hview code view' ⟨⟩
      exact hview
  · exact accepts_error rfl

/-- What a PUT plans to write is the row it is said to write. -/
theorem leads_planPolicy {existing : Agent} (names : Option (List String)) (ht : t.store = s) :
    Leads s (planPolicy existing names) (fun write u => u = s ∧
      ∀ given policyId s', s.writePolicy existing.id given write = .ok (policyId, s') →
        WritesModels s s' existing.id (if names.getD [] = [] then none
          else some (s.updateRow existing, names.getD []))) t := by
  have hupsert : ∀ models, s.updateRow existing = s.autoRow existing.id existing.createdBy s.nextId →
      ∀ given policyId s', s.writePolicy existing.id given
        (.upsert existing.agentId existing.createdBy models) = .ok (policyId, s') →
      WritesModels s s' existing.id (some (s.updateRow existing, models)) := by
    intro models hrow given policyId s' h
    obtain ⟨⟨row, u⟩, hupsert, heq⟩ := map_eq_ok h
    cases heq
    obtain ⟨hid, -, hwrites⟩ := writesModels_upsertAutoPolicy existing.id hupsert
    rw [hrow, ← hid]
    exact hwrites
  have hkeep : ∀ given policyId s', s.writePolicy existing.id given .keep = .ok (policyId, s') →
      WritesModels s s' existing.id none := by
    intro given policyId s' h
    cases h
    exact writesModels_same rfl rfl
  obtain _ | _ | ⟨name, rest⟩ := names
  · exact ⟨ht, hkeep⟩
  · exact ⟨ht, hkeep⟩
  · have hplan : planPolicy existing (some (name :: rest)) = _ :=
      planPolicy.eq_3 _ _ fun h => by cases h
    rw [hplan]
    split
    · rename_i hpolicy
      refine ⟨ht, ?_⟩
      simp only [Option.getD_some, reduceCtorEq, if_false]
      exact hupsert _ (by simp [Store.updateRow, hpolicy])
    · rename_i policyId hpolicy
      refine leads_then (leads_found ht rfl) ?_
      rintro _ u ⟨hu, rfl⟩
      split
      · rename_i hauto
        refine ⟨hu, ?_⟩
        simp only [Option.getD_some, reduceCtorEq, if_false]
        intro given policyId' s' h
        cases h
        have hrow : s.updateRow existing = policyId := by
          have hisAuto : s.isAuto policyId = true := hauto
          simp [Store.updateRow, hpolicy, Option.filter, hisAuto]
        rw [hrow]
        refine writesModels_rewritePolicy ?_ none _
        cases hget : s.policies.get? policyId with
        | none =>
          rw [hget] at hauto
          cases hauto
        | some p => rfl
      · rename_i hauto
        refine ⟨hu, ?_⟩
        simp only [Option.getD_some, reduceCtorEq, if_false]
        refine hupsert _ ?_
        have hisAuto : s.isAuto policyId = false := by simpa [Store.isAuto] using hauto
        simp [Store.updateRow, hpolicy, Option.filter, hisAuto]

theorem leads_resolveAgentModels (policyId : Option Uuid) :
    Leads s (resolveAgentModels policyId) (fun models u => u = t.store ∧
      models = t.store.modelsOf policyId) t := by
  cases policyId with
  | none => exact ⟨rfl, rfl⟩
  | some id =>
    refine leads_then (leads_found rfl rfl) ?_
    rintro _ u ⟨hu, rfl⟩
    exact ⟨hu, rfl⟩

theorem fulfils_update (id : Uuid) (b : AgentBody) (ht : t.store = s) :
    Accepts s (update user id b) (Fulfils s (.update user id b)) t := by
  apply accepts_orFailed
  refine leads_then (leads_found ht rfl) ?_
  rintro found t ⟨ht, hfound⟩
  cases found with
  | none => exact accepts_error rfl
  | some existing =>
    have hget : s.agents.get? id = some existing := (Option.filter_eq_some_iff.mp hfound.symm).1
    obtain rfl : existing.id = id := Table.key_of_get? hget
    change Accepts s (updateExisting user existing.id b existing) _ t
    rw [updateExisting]
    refine ensures_ite (fun _ => accepts_error rfl) fun _ => ?_
    split
    · exact accepts_error rfl
    · refine ensures_ite (fun _ => accepts_error rfl) fun _ => ?_
      refine accepts_unlessAnswered (checks_checkPolicy _ _) ht fun t ht => ?_
      refine accepts_unlessAnswered (checks_checkProfile _) ht fun t ht => ?_
      refine accepts_unlessAnswered (checks_validateModelNames _ _) ht fun t ht => ?_
      refine leads_then (leads_planPolicy _ ht) ?_
      rintro write t ⟨ht, hwrite⟩
      refine accepts_resolved (resolves_updateSkills _ _ _) ht (fun _ => rfl)
        fun toolsConfig t ht => ?_
      have hnames : (b.modelNames.map normalizedNames).getD [] =
          normalizedNames (b.modelNames.getD []) := by
        cases b.modelNames <;> rfl
      have hrow : Request.policyWrite s (.update user existing.id b) =
          if (b.modelNames.map normalizedNames).getD [] = [] then none
          else some (s.updateRow existing, (b.modelNames.map normalizedNames).getD []) := by
        simp only [Request.policyWrite, hget, hnames, Option.map_some]
      rw [← hrow] at hwrite
      refine leads_then (leads_ask (P := fun agent u => u.agents.get? existing.id = some agent ∧
        WritesModels s u existing.id (Request.policyWrite s (.update user existing.id b))) ?_) ?_
      · intro agent u hrun
        rw [ht] at hrun
        exact updated_of_updateAgent hwrite hrun
      · rintro agent t ⟨hagent, hwrites⟩
        refine leads_then (leads_reads (only_query (by trivial))) fun skills u hu => ?_
        refine leads_then (leads_resolveAgentModels _) ?_
        rintro models v ⟨hv, hmodels⟩ code view ⟨⟩
        rw [hv, hu]
        refine ⟨Table.key_of_get? hagent, hwrites, ?_⟩
        refine iff_of_true ?_ id
        rw [hmodels, hu, Request.target, Store.effectiveModels, hagent]
        rfl

theorem leads_clonedPolicy (policyId : Option Uuid) (ht : t.store = s) :
    Leads s (clonedPolicy user policyId) (fun copied u => u = s ∧
      copied = if s.isCopied user policyId then policyId else none) t := by
  cases policyId with
  | none => exact ⟨ht, rfl⟩
  | some id =>
    refine leads_then (leads_found ht rfl) ?_
    rintro _ u ⟨hu, rfl⟩
    exact ⟨hu, rfl⟩

theorem leads_copyAssignments (id : Uuid) (skills : List Uuid) :
    Leads s (copyAssignments user id skills) (fun _ u => u.agents = t.store.agents ∧
      u.policies = t.store.policies ∧ u.nextId = t.store.nextId) t := by
  unfold copyAssignments
  induction skills generalizing t with
  | nil => exact ⟨rfl, rfl, rfl⟩
  | cons skillId rest ih =>
    refine leads_then (P := fun _ u => u.agents = t.store.agents ∧ u.policies = t.store.policies ∧
      u.nextId = t.store.nextId) (leads_ask ?_) ?_
    · intro _ u hrun
      obtain ⟨v, hadd, heq⟩ := map_eq_ok hrun
      cases heq
      exact same_of_addAssignment hadd
    · rintro _ u ⟨hagents, hpolicies, hnext⟩
      refine Ensures.mono ih ?_ fun _ _ _ => trivial
      rintro _ v ⟨hagents', hpolicies', hnext'⟩
      exact ⟨hagents'.trans hagents, hpolicies'.trans hpolicies, hnext'.trans hnext⟩

theorem leads_upsertAutoPolicy (target : Uuid) {agentId : Uuid} {slug owner : String} {models : List String} :
    Leads s (upsertAutoPolicy agentId slug owner models) (fun row u =>
      row = t.store.autoRow agentId owner t.store.nextId ∧ u.agents = t.store.agents ∧
        WritesModels t.store u target (some (row, models))) t := by
  refine leads_then (leads_found rfl rfl) ?_
  rintro existing u ⟨hu, hexisting⟩
  cases existing with
  | some row =>
    refine leads_then (leads_ask (P := fun _ v =>
      v = t.store.rewritePolicy row (some (autoPolicyDescription slug)) models) ?_) ?_
    · intro _ v hrun
      rw [hu] at hrun
      cases hrun
      rfl
    · intro _ v hv
      refine ⟨by rw [Store.autoRow, ← hexisting]; rfl, by rw [hv]; rfl, ?_⟩
      rw [hv]
      exact writesModels_rewritePolicy (isSome_ownPolicy hexisting.symm) _ _
  | none =>
    refine leads_ask fun row v hrun => ?_
    rw [hu] at hrun
    obtain ⟨hrow, hrest⟩ := writesModels_addPolicy target hrun
    exact ⟨by rw [Store.autoRow, ← hexisting]; exact hrow, hrest⟩

/-- The clone gets what the source has: by the policy that was copied, or by one of its own. -/
theorem leads_cloneModels {src cloned : Agent} {new : NewAgent} {u : Store} {policyId : Option Uuid}
    (hadded : Added s u new cloned)
    (hcopied : policyId = if s.isCopied user src.modelPolicyId then src.modelPolicyId else none)
    (hsame : t.store.agents = u.agents ∧ t.store.policies = u.policies ∧ t.store.nextId = u.nextId) :
    Leads s (cloneModels user src cloned policyId) (fun found v => found.1.id = s.nextId ∧
      WritesModels s v s.nextId (if s.isCopied user src.modelPolicyId then none
        else s.newWrite user.sub (s.modelsOf src.modelPolicyId)) ∧
      found.2 = v.effectiveModels s.nextId) t := by
  obtain ⟨hagents, hpolicies, hnext⟩ := hsame
  have hstays : WritesModels s t.store s.nextId none :=
    hadded.writes.after (writesModels_same hagents hpolicies)
  have hmodelsOf : ∀ policyId, t.store.modelsOf policyId = s.modelsOf policyId := by
    intro policyId
    simp only [Store.modelsOf, hpolicies, hadded.policies]
  have huncopied : Leads s (uncopiedModels src policyId) (fun models v => v = t.store ∧
      models = if s.isCopied user src.modelPolicyId then [] else s.modelsOf src.modelPolicyId) t := by
    rw [uncopiedModels, hcopied]
    cases hcopy : s.isCopied user src.modelPolicyId with
    | true =>
      have hsome : src.modelPolicyId ≠ none := by
        intro hnone
        rw [hnone] at hcopy
        cases hcopy
      rw [if_neg (by simpa using hsome)]
      exact ⟨rfl, rfl⟩
    | false =>
      simp only [Bool.false_eq_true, if_false, if_true]
      refine (leads_resolveAgentModels src.modelPolicyId).mono ?_ fun _ _ _ => trivial
      rintro models v ⟨hv, hmodels⟩
      exact ⟨hv, hmodels.trans (hmodelsOf _)⟩
  refine leads_then huncopied ?_
  rintro models v ⟨hv, hmodels⟩
  have hwrite : (if s.isCopied user src.modelPolicyId then none
      else s.newWrite user.sub (s.modelsOf src.modelPolicyId)) = s.newWrite user.sub models := by
    rw [hmodels]
    split <;> rfl
  rw [hwrite]
  refine ensures_ite (fun hempty => ?_) fun hsome => ?_
  · refine ensures_then _ (leads_resolveAgentModels cloned.modelPolicyId) ?_
    rintro models' w ⟨hw, hmodels'⟩
    rw [Store.newWrite, if_pos hempty]
    have hstore : w.store = t.store := hw.trans hv
    refine ⟨hadded.id, by rw [hstore]; exact hstays, ?_⟩
    change models' = _
    rw [hmodels', hstore, hv, Store.effectiveModels, hagents, hadded.get?]
    rfl
  · refine ensures_then _ (leads_upsertAutoPolicy s.nextId) ?_
    rintro row w ⟨hrow, hkept, hwrites⟩
    rw [hv] at hrow hkept hwrites
    have hauto : row = s.autoRow s.nextId user.sub (s.nextId + 1) := by
      rw [hrow, hadded.id, hnext, hadded.nextId]
      simp only [Store.autoRow, Store.ownPolicy, hpolicies, hadded.policies]
    refine ensures_then (fun _ x => x.store =
      w.store.rewriteAgent cloned.id { modelPolicyId := some (some row) }) (leads_ask (P := fun _ x =>
        x = w.store.rewriteAgent cloned.id { modelPolicyId := some (some row) }) ?_) ?_
    · intro _ x hrun
      simp only [Statement.run] at hrun
      split at hrun
      · cases hrun
        rfl
      · cases hrun
    · intro _ x hx
      rw [Store.newWrite, if_neg hsome, ← hauto]
      change _ ∧ WritesModels s x.store _ _ ∧ models = x.store.effectiveModels _
      rw [hx, hadded.id]
      refine ⟨rfl, (hstays.before hwrites).after (writesModels_rewriteAgent _ _ _), ?_⟩
      rw [effectiveModels_rewriteAgent (by rw [hkept, hagents]; exact hadded.get?) rfl]
      exact hwrites.row.symm

theorem fulfils_clone (id : Uuid) (name : Option String) (ht : t.store = s) :
    Accepts s (clone user id name) (Fulfils s (.clone user id name)) t := by
  apply accepts_orConflict
  have hfind : Statement.run s () (.selectAgent id none) = .ok (s.agents.get? id, s) := by
    simp only [Statement.run]
    cases s.agents.get? id <;> rfl
  refine leads_then (leads_found ht hfind) ?_
  rintro found t ⟨ht, hfound⟩
  cases found with
  | none => exact accepts_error rfl
  | some src =>
    change Accepts s (cloneSource user id name src) _ t
    refine leads_then (leads_reads (only_query (by trivial))) fun taken t' ht' => ?_
    refine leads_then (leads_clonedPolicy _ (ht'.trans ht)) ?_
    rintro policyId u ⟨hu, hcopied⟩
    refine leads_then (leads_ask (P := fun cloned v => Added s v (src.cloneOf user
      (cloneSlug src.agentId taken) (orDefault name (src.name ++ " (Clone)")) policyId) cloned) ?_) ?_
    · intro cloned v hrun
      rw [hu] at hrun
      exact added_of_addAgent hrun
    · intro cloned v hadded
      refine leads_then (leads_reads (only_query (by trivial))) fun assigned w hw => ?_
      refine leads_then (leads_copyAssignments _ _) fun _ x hx => ?_
      rw [hw] at hx
      refine leads_then (leads_cloneModels hadded hcopied hx) ?_
      rintro ⟨agent, models⟩ y ⟨hid, hwrites, hmodels⟩
      refine leads_then (leads_reads (only_query (by trivial))) ?_
      rintro skills z hz code view ⟨⟩
      rw [hz]
      refine ⟨hid, ?_, iff_of_true hmodels fun h => h⟩
      rw [Request.policyWrite, ← hfound]
      exact hwrites

end Routes

/-- An accepted assignment of models is local exactly if it spills on no other agent and the default
does not take the place of no models. -/
theorem modelsLocal_iff (s : Store) (q : Request) (pattern : List (Outcome Unit Failure)) (code : ℕ)
    (view : AgentView) (hq : AssignsModels q)
    (h : (service.serve () s q pattern).2 = .ok (.agent code view)) :
    Local s (service.serve () s q pattern).1.store view ↔ ¬Spills s q ∧ ¬Misreports s q := by
  have hfulfils : Accepts s q.handler (Fulfils s q) ⟨s, False⟩ := by
    cases hq with
    | create user b => exact fulfils_create b rfl
    | importAgent user b => exact fulfils_importAgent b rfl
    | update user id b => exact fulfils_update id b rfl
    | clone user id name => exact fulfils_clone id name rfl
  have hleft := Ensures.left () (t := (⟨[], s⟩ : Log Statement Statement.Rows Store))
    (H := False) hfulfils trivial pattern fun _ _ => trivial
  change Left _ _ _ (service.serve () s q pattern) at hleft
  cases hserve : service.serve () s q pattern with
  | mk log result =>
    rw [hserve] at hleft h
    obtain rfl : result = .ok (.agent code view) := h
    exact (hleft code view rfl).local_iff

/-- Two models that everyone can use. -/
def stocked : Store where
  models := ((Table.empty.insert { id := 1, name := "opus", createdBy := none }).bind
    (·.insert { id := 2, name := "haiku", createdBy := none })).getD Table.empty
  nextId := 3

def scribe : AgentBody where
  agentId := some "scribe"
  name := some "Scribe"
  modelNames := some ["opus"]

def scribeView (models : List String) : AgentView where
  agent := { id := 3, agentId := "scribe", name := "Scribe", modelPolicyId := some 4, createdBy := "eve" }
  models
  skills := []

theorem scribe_local :
    Local stocked (service.serve () stocked (.create ⟨"eve", false⟩ scribe) []).1.store
      (scribeView ["opus"]) := by
  refine (modelsLocal_iff stocked (.create ⟨"eve", false⟩ scribe) [] 201 (scribeView ["opus"])
    (.create _ _) (by decide +kernel)).mpr ⟨?_, ?_⟩
  · rintro ⟨row, models, -, a, ha, -⟩
    cases ha
  · rintro ⟨hempty, -⟩
    exact absurd hempty (by decide +kernel)

/-- The critic is put on the scribe's policy, whose models a PUT of the scribe then rewrites. -/
def sharing : Store :=
  [Request.create ⟨"eve", false⟩ scribe,
    .create ⟨"eve", false⟩ { agentId := some "critic", name := some "Critic" },
    .update ⟨"eve", false⟩ 5 { modelPolicyId := some (some 4) }].foldl
      (fun s q => (service.serve () s q []).1.store) stocked

theorem update_not_local :
    ¬ ∀ (s : Store) (q : Request) (pattern : List (Outcome Unit Failure)) (code : ℕ)
      (view : AgentView), AssignsModels q →
      (service.serve () s q pattern).2 = .ok (.agent code view) →
      Local s (service.serve () s q pattern).1.store view := by
  intro h
  have hlocal := h sharing (.update ⟨"eve", false⟩ 3 { modelNames := some ["haiku"] }) [] 200
    (scribeView ["haiku"]) (.update _ _ _) (by decide +kernel)
  have hkept := hlocal.others 5 (by decide)
  exact absurd hkept (by decide +kernel)

end Hill90.Skills
