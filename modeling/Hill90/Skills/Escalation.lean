import Hill90.Skills.Effect

/-! # No elevated skill is assigned

In every run of users who are no admins, where no clone's source is assigned an elevated skill and
no skill is made elevated while a request may still assign it.
-/

namespace Hill90.Skills

open Chat (Uuid Failure)
open Policies (User)
open Program Service

variable {s s' : Store} {S : State} {a : SkillMove}

def ByUsers (_ : State) (a : SkillMove) : Prop :=
  ∀ q user, a = .arrive q → q.caller = some user → user.admin = false

/-- Clones have plain sources, and no skill is escalated under a request that has looked at it. -/
structure KeepsScopes (S : State) (a : SkillMove) : Prop where
  callers : ByUsers S a
  cloned : ∀ id c, S.taking a = some (.selectAssigned id, c) →
    ∀ x ∈ S.store.assignments.rows, x.agentId = id → ¬S.store.Elevated x.skillId
  escalated : ∀ id u c, S.taking a = some (.updateSkill id u, c) → u.scope.any Scope.elevated = true →
    ∀ i q p, S.requests i = some (q, p) → ¬MayAssign id p

theorem unassigning_of_aloof {α : Type} {p : Handler α} (h : p.Only Statement.Aloof) :
    p.Only Statement.Unassigning := by
  apply h.mono
  intro st hst
  cases st <;> first | rfl | cases hst

theorem aloof_checkAgent {user : User} (id : Uuid) : (checkAgent user id).Only Statement.Aloof := by
  apply only_bind (only_query (by trivial))
  intro agent
  cases agent <;> exact only_pure _

theorem aloof_checkScopeChange (id : Uuid) (oldScope newScope : Scope) :
    (checkScopeChange id oldScope newScope).Only Statement.Aloof := by
  apply only_ite
  · intro _
    apply only_bind (only_query (by trivial))
    intro running
    apply only_ite fun _ => only_pure _
    intro _
    apply only_ite
    · exact fun _ => only_bind (only_query (by trivial)) fun _ => only_pure _
    · exact fun _ => only_pure _
  · exact fun _ => only_pure _

theorem aloof_orFailed {text : String} {p : Handler Response}
    (h : p.Only Statement.Aloof) : (orFailed text p).Only Statement.Aloof :=
  only_tryCatch h fun _ => only_pure _

theorem aloof_orConflict {conflict text : String} {p : Handler Response}
    (h : p.Only Statement.Aloof) :
    (orConflict conflict text p).Only Statement.Aloof := by
  apply only_tryCatch h
  intro e
  split <;> exact only_pure _

theorem aloof_skill (q : Request) (hq : q.caller = none) :
    q.handler.Only Statement.Aloof := by
  cases q with
  | createSkill b =>
    apply aloof_orConflict
    split
    · exact only_pure _
    · exact only_bind (only_query (by trivial)) fun _ => only_pure _
  | updateSkill id b =>
    apply aloof_orConflict
    apply only_bind (only_query (by trivial))
    intro existing
    cases existing with
    | none => exact only_pure _
    | some existing =>
      apply only_bind (aloof_checkScopeChange id _ _)
      intro answer
      cases answer with
      | some response => exact only_pure _
      | none => exact only_bind (only_query (by trivial)) fun _ => only_pure _
  | deleteSkill id =>
    apply aloof_orFailed
    apply only_bind (only_query (by trivial))
    intro existing
    cases existing with
    | none => exact only_pure _
    | some existing =>
      apply only_ite fun _ => only_pure _
      intro _
      apply only_bind (only_query (by trivial))
      intro count
      apply only_ite fun _ => only_pure _
      exact fun _ => only_bind (only_query (by trivial)) fun _ => only_pure _
  | _ => cases hq

theorem aloof_detail (user : User) (id : Uuid) :
    (detail user id).Only Statement.Aloof := by
  apply aloof_orFailed
  apply only_bind (only_query (by trivial))
  intro found
  cases found with
  | none => exact only_pure _
  | some found => exact only_bind (only_query (by trivial)) fun _ => only_pure _

theorem aloof_exportAgent (user : User) (id : Uuid) :
    (exportAgent user id).Only Statement.Aloof := by
  apply aloof_orFailed
  apply only_bind (only_query (by trivial))
  intro found
  cases found with
  | none => exact only_pure _
  | some found => exact only_bind (only_query (by trivial)) fun _ => only_pure _

def Statement.Unassigns : Statement → Prop
  | deleteAssignment .. | setToolsConfig .. => True
  | st => st.Aloof

theorem unassigns_of_aloof {α : Type} {p : Handler α} (h : p.Only Statement.Aloof) :
    p.Only Statement.Unassigns := by
  apply h.mono
  intro st hst
  cases st <;> trivial

theorem unassigns_remove (user : User) (id skillId : Uuid) :
    (remove user id skillId).Only Statement.Unassigns := by
  refine only_tryCatch ?_ fun _ => only_pure _
  apply only_bind (unassigns_of_aloof (aloof_checkAgent id))
  intro answer
  cases answer with
  | some response => exact only_pure _
  | none =>
    apply only_bind (only_query (by trivial))
    intro skill
    cases skill with
    | none => exact only_pure _
    | some skill =>
      apply only_ite fun _ => only_pure _
      intro _
      apply only_bind (only_query (by trivial))
      intro count
      apply only_ite fun _ => only_pure _
      intro _
      apply only_bind (only_query (by trivial))
      exact fun _ => only_bind (only_query (by trivial)) fun _ => only_pure _

theorem unassigning_remove (user : User) (id skillId : Uuid) :
    (remove user id skillId).Only Statement.Unassigning := by
  apply (unassigns_remove user id skillId).mono
  intro st hst
  cases st <;> first | rfl | cases hst

theorem meets_gating (q : Request) (hq : ∀ user, q.caller = some user → user.admin = false) :
    q.handler.Meets gating (fun _ _ => True) (fun _ _ => True) ∅ := by
  cases q with
  | create user b => exact meets_create (hq user rfl) b
  | importAgent user b => exact meets_importAgent (hq user rfl) b
  | detail user id => exact Only.meets_gating (unassigning_of_aloof (aloof_detail user id))
  | exportAgent user id => exact Only.meets_gating (unassigning_of_aloof (aloof_exportAgent user id))
  | update user id b => exact meets_update (hq user rfl) id b
  | assign user id skillId => exact meets_assign (hq user rfl) id skillId
  | remove user id skillId => exact Only.meets_gating (unassigning_remove user id skillId)
  | clone user id name => exact meets_clone id name
  | createSkill | updateSkill | deleteSkill => exact Only.meets_gating (unassigning_of_aloof (aloof_skill _ rfl))

theorem fresh_run {c : Unit} {st : Statement} {rows : st.Rows} (hs : s.Fresh)
    (h : Statement.run s c st = .ok (rows, s')) : s'.Fresh := by
  obtain hframe | ⟨hnext, hassigned, hskills⟩ | ⟨id, u, rfl, hnext, hassigned, hskills⟩ |
    ⟨hnext, hassigned, hskills⟩ := skills_run h
  · constructor
    · intro k hk
      rw [hframe.skills] at hk
      exact Nat.lt_of_lt_of_le (hs.1 k hk) hframe.nextId
    · intro x hx
      apply Nat.lt_of_lt_of_le _ hframe.nextId
      obtain hx | ⟨_, k, hk, hid⟩ := hframe.assignments x hx
      · exact hs.2 x hx
      · rw [← hid]
        exact hs.1 k hk
  · constructor
    · intro k hk
      obtain hk | hid := hskills k hk
      · exact Nat.lt_trans (hs.1 k hk) hnext
      · rw [hid]
        exact hnext
    · intro x hx
      rw [hassigned] at hx
      exact Nat.lt_trans (hs.2 x hx) hnext
  · constructor
    · intro k' hk'
      rw [hnext]
      obtain ⟨k, hk, ⟨_, rfl⟩ | ⟨_, rfl⟩⟩ := hskills k' hk'
      · exact hs.1 _ hk
      · exact hs.1 k hk
    · rw [hassigned, hnext]
      exact hs.2
  · constructor
    · intro k hk
      rw [hnext]
      exact hs.1 k (hskills k hk)
    · rw [hassigned, hnext]
      exact hs.2

theorem fresh_of_reachable {ok : State → SkillMove → Prop} (h : service.machine.ReachableIf ok S) :
    S.store.Fresh := by
  apply Service.store_invariant h
  · exact fun s hs => hs
  · exact fun s c st rows s' hs hrun => fresh_run (c := c) hs hrun
  · intro s x s' hs hx
    cases x with
    | status id value =>
      cases hx
      exact hs
    | deleted id =>
      cases hx
      exact ⟨hs.1, fun x hx => hs.2 x (Table.mem_delete.mp hx).1⟩
    | library policies models profiles =>
      cases hx
      exact hs

def Plain (s : Store) (g : Uuid) : Prop := g < s.nextId ∧ ¬s.Elevated g

theorem plain_of_rows (hs : s.Fresh) {rows : List Skill} (hsub : ∀ k ∈ rows, k ∈ s.skills.rows)
    {g : Uuid} (hg : g ∈ plain rows) : Plain s g := by
  obtain ⟨k, hk, rfl, hplain⟩ := hg
  refine ⟨hs.1 k (hsub k hk), ?_⟩
  rintro ⟨k', hk', hid, helevated⟩
  rw [Table.eq_of_key_eq hk' (hsub k hk) hid, hplain] at helevated
  cases helevated

theorem plain_run {c : Unit} {st : Statement} {rows : st.Rows} {g : Uuid} (hg : Plain s g)
    (h : Statement.run s c st = .ok (rows, s'))
    (hkept : ∀ u, st = .updateSkill g u → u.scope.any Scope.elevated = false) : Plain s' g := by
  obtain hframe | ⟨hnext, _, hskills⟩ | ⟨id, u, rfl, hnext, _, hskills⟩ | ⟨hnext, _, hskills⟩ :=
    skills_run h
  · refine ⟨Nat.lt_of_lt_of_le hg.1 hframe.nextId, ?_⟩
    rw [Store.Elevated, hframe.skills]
    exact hg.2
  · refine ⟨Nat.lt_trans hg.1 hnext, ?_⟩
    rintro ⟨k, hk, hid, helevated⟩
    obtain hk | hnew := hskills k hk
    · exact hg.2 ⟨k, hk, hid, helevated⟩
    · exact absurd (hnew.symm.trans hid) (Nat.ne_of_gt hg.1)
  · refine ⟨by rw [hnext]; exact hg.1, ?_⟩
    rintro ⟨k', hk', hid, helevated⟩
    obtain ⟨k, hk, ⟨_, rfl⟩ | ⟨hkey, rfl⟩⟩ := hskills k' hk'
    · exact hg.2 ⟨_, hk, hid, helevated⟩
    · change k.id = g at hid
      obtain rfl : id = g := hkey.symm.trans hid
      have hscope := hkept u rfl
      change (u.scope.getD k.scope).elevated = true at helevated
      cases hu : u.scope with
      | none =>
        rw [hu] at helevated
        exact hg.2 ⟨k, hk, hid, helevated⟩
      | some scope =>
        rw [hu] at helevated hscope
        exact absurd (helevated.symm.trans hscope) (by decide)
  · refine ⟨by rw [hnext]; exact hg.1, ?_⟩
    rintro ⟨k, hk, hid, helevated⟩
    exact hg.2 ⟨k, hskills k hk, hid, helevated⟩

/-- The rows of a list of skills have its keys, each once. -/
theorem returns_run {c : Unit} {st : Statement} {rows : st.Rows}
    (h : Statement.run s c st = .ok (rows, s')) : gating.returns st rows := by
  cases st with
  | selectSkills ids =>
    cases h
    constructor
    · exact s.skills.keys.sublist (List.filter_sublist.map _)
    · intro k hk
      simpa using (List.mem_filter.mp hk).2
  | selectSkill id =>
    cases h
    exact fun k hk => Table.key_of_get? hk
  | _ => trivial

theorem rechecks_gating : service.Rechecks (fun _ => gating) KeepsScopes
    (fun _ st => st.looksUp = true) (fun g st => g ∈ st.assigns) (fun found g => g ∈ found)
    (fun g _ s => Plain s g) where
  handler _ q hok := ⟨∅, meets_gating q fun user hq => hok.callers q user rfl hq, fun _ => id⟩
  acts _ _ _ g hmay hact := hmay g hact
  returned _ found st rows g hlook hknows := by
    rwa [returned_of_not_looksUp (by simpa using hlook)] at hknows
  rejected _ found st e g hknows := by
    by_cases hlook : st.looksUp = true
    · rw [rejected_of_looksUp hlook] at hknows
      exact hknows.elim
    · rw [rejected_of_not_looksUp (by simpa using hlook)] at hknows
      exact ⟨hlook, hknows⟩
  credible _ c _ _ _ _ _ hrun := returns_run (c := c) hrun
  looked S a c _ found st rows s' g hreach hok htaking _ hrun hlook hknows := by
    have hs := fresh_of_reachable hreach
    cases st with
    | selectSkills ids =>
      cases hrun
      exact plain_of_rows hs (fun k hk => (List.mem_filter.mp hk).1) hknows
    | selectSkillsNamed names =>
      cases hrun
      exact plain_of_rows hs (fun k hk => (List.mem_filter.mp hk).1) hknows
    | selectSkill id =>
      cases hrun
      apply plain_of_rows hs _ hknows
      intro k hk
      exact Table.mem_of_get? (Option.mem_toList.mp hk)
    | selectAssigned agentId =>
      cases hrun
      obtain ⟨x, hx, rfl⟩ := List.mem_map.mp hknows
      obtain ⟨hx, hagent⟩ := List.mem_filter.mp hx
      exact ⟨hs.2 x hx, hok.cloned agentId c htaking x hx (of_decide_eq_true hagent)⟩
    | _ => cases hlook
  kept S a st c rows s' hok htaking hrun i q p g hi hrelies hplain := by
    apply plain_run (c := c) hplain hrun
    rintro u rfl
    by_contra helevated
    exact hok.escalated g u c htaking (by simpa using helevated) i q p hi hrelies
  around S x s' _ hx i q p g _ _ hplain := by
    cases x with
    | status | deleted | library =>
      cases hx
      exact hplain

/-- In every run that keeps the scopes, no statement assigns an elevated skill, and what comes to
be assigned is what statements assign. -/
theorem assigned_plain (S : State) (hS : service.machine.ReachableIf KeepsScopes S) (a : SkillMove)
    (st : Statement) (c : Unit) (rows : st.Rows) (s' : Store) (htaking : S.taking a = some (st, c))
    (hrun : Statement.run S.store c st = .ok (rows, s')) :
    (∀ g ∈ st.assigns, ¬S.store.Elevated g ∧ ¬s'.Elevated g) ∧
      ∀ x ∈ s'.assignments.rows, x ∈ S.store.assignments.rows ∨ x.skillId ∈ st.assigns := by
  obtain ⟨i, q, p, found, _, _, _, hplain⟩ := rechecks_gating.taken hS htaking
  constructor
  · intro g hg
    refine ⟨(hplain g hg).2, ?_⟩
    refine (plain_run (c := c) (hplain g hg) hrun ?_).2
    rintro u rfl
    cases hg
  · intro x hx
    obtain hframe | ⟨_, hassigned, _⟩ | ⟨id, u, _, _, hassigned, _⟩ | ⟨_, hassigned, _⟩ := skills_run hrun
    · obtain hx | hx := hframe.assignments x hx
      · exact .inl hx
      · exact .inr hx.1
    all_goals
      rw [hassigned] at hx
      exact .inl hx

/-- A user's agent, one skill for everyone and one for admins, and another user's agent with it. -/
def desk : Store where
  agents := ⟨[{ id := 1, agentId := "scout", name := "Scout", createdBy := "eve" },
    { id := 2, agentId := "ops", name := "Ops", createdBy := "bob" }], by decide⟩
  skills := ⟨[{ id := 3, name := "search" }, { id := 4, name := "docker", scope := .hostDocker }], by decide⟩
  assignments := ⟨[⟨2, 4, "root"⟩], by decide⟩
  nextId := 5

def atDesk : State := ⟨desk, fun _ => none, 0⟩

theorem initial_atDesk : service.machine.initial atDesk := by
  refine ⟨⟨?_, ?_⟩, rfl, rfl⟩
  · decide
  · decide

def assignSearch : List SkillMove := [.arrive (.assign ⟨"eve", false⟩ 1 3), .resume 0 (), .resume 0 ()]

def cloneOps : List SkillMove :=
  [.arrive (.clone ⟨"eve", false⟩ 2 none), .resume 0 (), .resume 0 (), .resume 0 (), .resume 0 ()]

def byUsersNow (_ : State) : SkillMove → Bool
  | .arrive q => q.caller.all fun user => !user.admin
  | _ => true

theorem byUsers_of_byUsersNow (h : byUsersNow S a = true) : ByUsers S a := by
  rintro q user rfl hq
  simpa [byUsersNow, hq] using h

def keepsNow (S : State) (a : SkillMove) : Bool :=
  byUsersNow S a &&
    match S.taking a with
    | some (.selectAssigned _, _) | some (.updateSkill .., _) => false
    | _ => true

theorem keepsScopes_of_keepsNow (h : keepsNow S a = true) : KeepsScopes S a := by
  obtain ⟨hcaller, htaken⟩ := Bool.and_eq_true_iff.mp h
  constructor
  · exact byUsers_of_byUsersNow hcaller
  · intro id c htaking
    simp [htaking] at htaken
  · intro id u c htaking
    simp [htaking] at htaken

theorem assigned_plain_search :
    ∃ s', Statement.run (service.machine.after atDesk assignSearch).store ()
        (.insertAssignment ⟨1, 3, "eve"⟩) = .ok ((), s') ∧ ¬s'.Elevated 3 := by
  have hreach : service.machine.ReachableIf KeepsScopes (service.machine.after atDesk assignSearch) :=
    Machine.reachableIf_of_accepts (C := keepsNow) (fun _ _ _ => keepsScopes_of_keepsNow)
      initial_atDesk (by decide +kernel)
  have htaking : (service.machine.after atDesk assignSearch).taking (.resume 0 () : SkillMove) =
      some (.insertAssignment ⟨1, 3, "eve"⟩, ()) := by decide +kernel
  have hinserted : (Statement.run (service.machine.after atDesk assignSearch).store ()
      (.insertAssignment ⟨1, 3, "eve"⟩)).toBool = true := by decide +kernel
  cases hrun : Statement.run (service.machine.after atDesk assignSearch).store ()
      (.insertAssignment ⟨1, 3, "eve"⟩) with
  | error e =>
    rw [hrun] at hinserted
    cases hinserted
  | ok result =>
    obtain ⟨⟨⟩, s'⟩ := result
    have hplain := (assigned_plain _ hreach _ _ _ _ _ htaking hrun).1
    exact ⟨s', rfl, (hplain 3 (by decide)).2⟩

/-- A clone of an agent with an elevated skill has that skill. -/
theorem clone_takes_elevated :
    ¬∀ (S : State) (a : SkillMove) (st : Statement) (c : Unit) (rows : st.Rows) (s' : Store),
      service.machine.ReachableIf ByUsers S → ByUsers S a → S.taking a = some (st, c) →
      Statement.run S.store c st = .ok (rows, s') → ∀ g ∈ st.assigns, ¬S.store.Elevated g := by
  intro h
  have hreach : service.machine.ReachableIf ByUsers (service.machine.after atDesk cloneOps) :=
    Machine.reachableIf_of_accepts (C := byUsersNow) (fun _ _ _ => byUsers_of_byUsersNow)
      initial_atDesk (by decide +kernel)
  have htaking : (service.machine.after atDesk cloneOps).taking (.resume 0 () : SkillMove) =
      some (.insertAssignment ⟨5, 4, "eve"⟩, ()) := by decide +kernel
  have hinserted : (Statement.run (service.machine.after atDesk cloneOps).store ()
      (.insertAssignment ⟨5, 4, "eve"⟩)).toBool = true := by decide +kernel
  cases hrun : Statement.run (service.machine.after atDesk cloneOps).store ()
      (.insertAssignment ⟨5, 4, "eve"⟩) with
  | error e =>
    rw [hrun] at hinserted
    cases hinserted
  | ok result =>
    have huser : ByUsers (service.machine.after atDesk cloneOps) (.resume 0 ()) := by
      rintro q user ⟨⟩
    have hplain := h _ _ _ _ result.1 result.2 hreach huser htaking hrun 4 (by decide)
    apply hplain
    have helevated : ∃ k ∈ (service.machine.after atDesk cloneOps).store.skills.rows,
        k.id = 4 ∧ k.scope.elevated = true := by decide +kernel
    exact helevated

end Hill90.Skills
