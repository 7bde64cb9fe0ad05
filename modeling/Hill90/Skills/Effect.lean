import Hill90.Skills.Gate

/-! # What a statement does to the skills and their assignments -/

namespace Hill90.Skills

open Chat (Uuid Failure)

variable {s s' t u : Store}

structure Frame (s s' : Store) (assigned : List Uuid) : Prop where
  skills : s'.skills = s.skills
  nextId : s.nextId ≤ s'.nextId
  assignments : ∀ x ∈ s'.assignments.rows, x ∈ s.assignments.rows ∨
    (x.skillId ∈ assigned ∧ ∃ k ∈ s.skills.rows, k.id = x.skillId)

theorem Frame.refl (s : Store) (assigned : List Uuid) : Frame s s assigned :=
  ⟨rfl, Nat.le_refl _, fun _ hx => .inl hx⟩

theorem Frame.trans {assigned : List Uuid} (h : Frame s t assigned) (h' : Frame t u assigned) :
    Frame s u assigned := by
  constructor
  · exact h'.skills.trans h.skills
  · exact Nat.le_trans h.nextId h'.nextId
  · intro x hx
    obtain hx | ⟨hx, k, hk, hid⟩ := h'.assignments x hx
    · exact h.assignments x hx
    · rw [h.skills] at hk
      exact .inr ⟨hx, k, hk, hid⟩

theorem Frame.mono {assigned assigned' : List Uuid} (h : Frame s t assigned)
    (hsub : ∀ g ∈ assigned, g ∈ assigned') : Frame s t assigned' := by
  refine ⟨h.skills, h.nextId, fun x hx => ?_⟩
  obtain hx | hx := h.assignments x hx
  · exact .inl hx
  · exact .inr ⟨hsub _ hx.1, hx.2⟩

theorem bind_eq_ok {α β : Type} {x : Except Failure α} {f : α → Except Failure β} {b : β}
    (h : (x >>= f) = .ok b) : ∃ a, x = .ok a ∧ f a = .ok b := by
  cases x with
  | error e => cases h
  | ok a => exact ⟨a, rfl, h⟩

theorem map_eq_ok {α β : Type} {x : Except Failure α} {f : α → β} {b : β} (h : x.map f = .ok b) :
    ∃ a, x = .ok a ∧ f a = b := by
  cases x with
  | error e => cases h
  | ok a =>
    cases h
    exact ⟨a, rfl, rfl⟩

variable {assigned : List Uuid}

theorem frame_rewriteAgent (s : Store) (id : Uuid) (u : AgentUpdate) :
    Frame s (s.rewriteAgent id u) assigned := ⟨rfl, Nat.le_refl _, fun _ hx => .inl hx⟩

theorem frame_rewritePolicy (s : Store) (id : Uuid) (d : Option String) (models : List String) :
    Frame s (s.rewritePolicy id d models) assigned := ⟨rfl, Nat.le_refl _, fun _ hx => .inl hx⟩

theorem frame_addAgent {new : NewAgent} {agent : Agent} (h : s.addAgent new = .ok (agent, s')) :
    Frame s s' assigned := by
  simp only [Store.addAgent] at h
  split at h
  · cases h
  · split at h
    · split at h
      · cases h
        exact ⟨rfl, Nat.le_succ _, fun _ hx => .inl hx⟩
      · cases h
    · cases h

theorem frame_addPolicy {name description owner : String} {models : List String} {id : Uuid}
    (h : s.addPolicy name description owner models = .ok (id, s')) : Frame s s' assigned := by
  simp only [Store.addPolicy] at h
  split at h
  · cases h
  · split at h
    · cases h
      exact ⟨rfl, Nat.le_succ _, fun _ hx => .inl hx⟩
    · cases h

theorem frame_upsertAutoPolicy {agentId id : Uuid} {slug owner : String} {models : List String}
    (h : s.upsertAutoPolicy agentId slug owner models = .ok (id, s')) : Frame s s' assigned := by
  rw [Store.upsertAutoPolicy] at h
  split at h
  · cases h
    exact frame_rewritePolicy s _ _ _
  · exact frame_addPolicy h

theorem frame_addAssignment {a : Assignment} (h : s.addAssignment a = .ok s') :
    Frame s s' [a.skillId] := by
  rw [Store.addAssignment] at h
  split at h
  · rename_i hthere
    obtain ⟨k, hk⟩ := Option.isSome_iff_exists.mp (Bool.and_eq_true_iff.mp hthere).2
    split at h
    · rename_i assignments hinsert
      cases h
      refine ⟨rfl, Nat.le_refl _, fun x hx => ?_⟩
      obtain hx | rfl := (Table.mem_of_insert hinsert).mp hx
      · exact .inl hx
      · exact .inr ⟨List.mem_singleton_self _, k, Table.mem_of_get? hk, Table.key_of_get? hk⟩
    · cases h
  · cases h

theorem frame_addAssignments {agentId : Uuid} {assignedBy : String} {skills : List Uuid}
    (h : s.addAssignments agentId assignedBy skills = .ok s') : Frame s s' skills := by
  induction skills generalizing s with
  | nil =>
    cases h
    exact .refl _ _
  | cons skillId rest ih =>
    rw [Store.addAssignments] at h
    split at h
    · rename_i t hadd
      have hone : Frame s t (skillId :: rest) :=
        (frame_addAssignment hadd).mono fun g hg => List.mem_cons.mpr (.inl (List.mem_singleton.mp hg))
      exact hone.trans ((ih h).mono fun g hg => List.mem_cons_of_mem _ hg)
    · cases h

theorem frame_givePolicy {agent : Agent} {models : List String} {policyId : Option Uuid}
    (h : s.givePolicy agent models = .ok (policyId, s')) : Frame s s' assigned := by
  rw [Store.givePolicy] at h
  split at h
  · cases h
    exact .refl s _
  · obtain ⟨⟨id, t⟩, hupsert, heq⟩ := map_eq_ok h
    cases heq
    exact (frame_upsertAutoPolicy hupsert).trans (frame_rewriteAgent t _ _)

theorem frame_createAgent {new : NewAgent} {models : Option (List String)} {skills : List Uuid}
    {view : AgentView} (h : s.createAgent new models skills = .ok (view, s')) : Frame s s' skills := by
  obtain ⟨⟨agent, s₁⟩, hadd, h⟩ := bind_eq_ok h
  obtain ⟨⟨policyId, s₂⟩, hpolicy, h⟩ := bind_eq_ok h
  obtain ⟨s₃, hassign, h⟩ := bind_eq_ok h
  cases h
  exact ((frame_addAgent hadd).trans (frame_givePolicy hpolicy)).trans (frame_addAssignments hassign)

theorem frame_writePolicy {id : Uuid} {given policyId : Option (Option Uuid)} {write : PolicyWrite}
    (h : s.writePolicy id given write = .ok (policyId, s')) : Frame s s' assigned := by
  cases write with
  | keep =>
    cases h
    exact .refl s _
  | reuse policyId models =>
    cases h
    exact frame_rewritePolicy s _ _ _
  | upsert slug owner models =>
    obtain ⟨⟨policyId, t⟩, hupsert, heq⟩ := map_eq_ok h
    cases heq
    exact frame_upsertAutoPolicy hupsert

theorem frame_replaceAssignments {id : Uuid} {assignedBy : String} {skills : Option (List Uuid)}
    (h : s.replaceAssignments id assignedBy skills = .ok s') : Frame s s' (skills.getD []) := by
  cases skills with
  | none =>
    cases h
    exact .refl s _
  | some skills =>
    have hframe := frame_addAssignments h
    refine ⟨hframe.skills, hframe.nextId, fun x hx => ?_⟩
    obtain hx | hx := hframe.assignments x hx
    · exact .inl (Table.mem_delete.mp hx).1
    · exact .inr hx

theorem frame_updateAgent {id : Uuid} {u : AgentUpdate} {write : PolicyWrite}
    {skills : Option (List Uuid)} {assignedBy : String} {agent : Agent}
    (h : s.updateAgent id u write skills assignedBy = .ok (agent, s')) :
    Frame s s' (skills.getD []) := by
  obtain ⟨⟨policyId, s₁⟩, hwrite, h⟩ := bind_eq_ok h
  dsimp only at h
  split at h
  · cases h
  · split at h
    · obtain ⟨s₂, hreplace, h⟩ := bind_eq_ok h
      cases h
      exact ((frame_writePolicy hwrite).trans (frame_rewriteAgent s₁ _ _)).trans
        (frame_replaceAssignments hreplace)
    · cases h

theorem setToolsConfig_eq {c : Unit} {id : Uuid} {config : Option StoredConfig} {rows : Unit}
    (h : Statement.run s c (.setToolsConfig id config) = .ok (rows, s')) :
    ∃ config', config = some config' ∧ s' = s.rewriteAgent id { toolsConfig := some config' } := by
  simp only [Statement.run] at h
  split at h
  · rename_i config'
    cases h
    exact ⟨config', rfl, rfl⟩
  · cases h

theorem skills_run {c : Unit} {st : Statement} {rows : st.Rows}
    (h : Statement.run s c st = .ok (rows, s')) :
    Frame s s' st.assigns ∨
    (s.nextId < s'.nextId ∧ s'.assignments = s.assignments ∧
      ∀ k ∈ s'.skills.rows, k ∈ s.skills.rows ∨ k.id = s.nextId) ∨
    (∃ id u, st = .updateSkill id u ∧ s'.nextId = s.nextId ∧ s'.assignments = s.assignments ∧
      ∀ k' ∈ s'.skills.rows, ∃ k ∈ s.skills.rows, (k.id ≠ id ∧ k' = k) ∨ (k.id = id ∧ k' = u.apply k)) ∨
    (s'.nextId = s.nextId ∧ s'.assignments = s.assignments ∧ ∀ k ∈ s'.skills.rows, k ∈ s.skills.rows) := by
  cases st with
  | createAgent agent models skills => exact .inl (frame_createAgent h)
  | updateAgent id u write skills assignedBy => exact .inl (frame_updateAgent h)
  | insertAssignment a =>
    obtain ⟨t, hadd, heq⟩ := map_eq_ok h
    cases heq
    exact .inl (frame_addAssignment hadd)
  | deleteAssignment agentId skillId =>
    cases h
    exact .inl ⟨rfl, Nat.le_refl _, fun x hx => .inl (Table.mem_delete.mp hx).1⟩
  | insertAgent agent => exact .inl (frame_addAgent h)
  | insertPolicy name description owner models => exact .inl (frame_addPolicy h)
  | setModelPolicy id policyId =>
    simp only [Statement.run] at h
    split at h
    · cases h
      exact .inl (frame_rewriteAgent s _ _)
    · cases h
  | insertSkill name scope toolsConfig =>
    simp only [Statement.run] at h
    split at h
    · cases h
    · split at h
      · rename_i skills hinsert
        cases h
        refine .inr (.inl ⟨Nat.lt_succ_self _, rfl, fun k hk => ?_⟩)
        obtain hk | rfl := (Table.mem_of_insert hinsert).mp hk
        · exact .inl hk
        · exact .inr rfl
      · cases h
  | updateSkill id u =>
    simp only [Statement.run] at h
    split at h
    · cases h
    · cases h
      refine .inr (.inr (.inl ⟨id, u, rfl, rfl, rfl, fun k' hk' => ?_⟩))
      obtain ⟨k, hk, ⟨hne, rfl⟩ | ⟨heq, i, _, _, rfl⟩⟩ := Table.mem_patchRows hk'
      · exact ⟨k', hk, .inl ⟨of_decide_eq_false hne, rfl⟩⟩
      · exact ⟨k, hk, .inr ⟨of_decide_eq_true heq, rfl⟩⟩
  | deleteSkill id =>
    simp only [Statement.run] at h
    split at h
    · cases h
    · cases h
      exact .inr (.inr (.inr ⟨rfl, rfl, fun k hk => (Table.mem_delete.mp hk).1⟩))
  | rewritePolicy id description models =>
    cases h
    exact .inl (frame_rewritePolicy s _ _ _)
  | setToolsConfig id config =>
    obtain ⟨config, rfl, rfl⟩ := setToolsConfig_eq h
    exact .inl (frame_rewriteAgent s _ _)
  | _ =>
    cases h
    exact .inl (.refl s _)

end Hill90.Skills
