import Hill90.Foundation.Aftermath
import Hill90.Foundation.Serial
import Hill90.Skills.Reading

/-! # What a failed request leaves

A request on an agent that is answered with an error has left the agents, their assignments and
the policies alone exactly if none of its statements came back with an error after a change.
-/

namespace Hill90.Skills

open Chat (Uuid Failure)
open Policies (User)
open Program Service

def Response.isError : Response → Bool
  | .error .. => true
  | _ => false

def Changed (s t : Store) : Prop :=
  ¬(t.agents = s.agents ∧ t.assignments = s.assignments ∧ t.policies = s.policies)

/-- An error is answered only where the tables are as before. -/
structure Atomic (s : Store) (q : Request) (pattern : List (Outcome Unit Failure)) : Prop where
  answered : ∀ r, (service.serve () s q pattern).2 = .ok r → r.isError = true →
    ¬Changed s (service.serve () s q pattern).1.store
  raised : ∀ e, (service.serve () s q pattern).2 = .error e →
    ¬Changed s (service.serve () s q pattern).1.store

/-- A statement comes back with an error when the tables have been changed, by itself or before. -/
def Harmed (s : Store) (q : Request) (pattern : List (Outcome Unit Failure)) : Prop :=
  Hurt Statement.run () (failing (Changed s)) q.handler s pattern

def Statement.Reads : Statement → Prop
  | createAgent .. | updateAgent .. | insertAssignment _ | deleteAssignment .. | setToolsConfig ..
  | insertAgent _ | rewritePolicy .. | insertPolicy .. | setModelPolicy .. | insertSkill ..
  | updateSkill .. | deleteSkill _ => False
  | _ => True

section Attempts

variable {s : Store} {α β : Type} {t : Attempt Store} {user : User}

abbrev Attempts (s : Store) :
    Attempt Store → (st : Statement) → Except Failure st.Rows → Attempt Store → Prop :=
  Tries Statement.run (fun _ => True) (failing (Changed s))

structure Unharmed (s : Store) (t : Attempt Store) : Prop where
  store : t.store = s
  hurt : ¬t.hurt

/-- The request ends with this answer: with an error it was hurt exactly if there is a change. -/
structure Accounted (s : Store) (r : Response) (t : Attempt Store) : Prop where
  error : r.isError = true → (t.hurt ↔ Changed s t.store)
  ok : r.isError = false → ¬t.hurt

/-- The handler ends settled, or with an error that was a hurt exactly if there is a change. -/
abbrev Settles (s : Store) (p : Handler Response) (t : Attempt Store) : Prop :=
  Ensures (Attempts s) p (Accounted s) (fun _ u => u.hurt ↔ Changed s u.store) t

theorem not_changed (s : Store) : ¬Changed s s := fun h => h ⟨rfl, rfl, rfl⟩

theorem Unharmed.iff (h : Unharmed s t) : t.hurt ↔ Changed s t.store := by
  rw [h.store]
  exact iff_of_false h.hurt (not_changed s)

theorem settle_reads {st : Statement} (h : st.Reads) (o : Outcome Unit Failure) :
    (o.settle Statement.run s st).2 = s := by
  cases o <;> cases st <;> first | rfl | cases h

theorem Only.unharmed {p : Handler α} (h : p.Only Statement.Reads) (ht : Unharmed s t) :
    Ensures (Attempts s) p (fun _ => Unharmed s) (fun _ => Unharmed s) t := by
  apply Only.ensures h _ ht
  rintro t st answer u ht hst ⟨⟨o, -, ho⟩, hhurt⟩
  have hstore : u.store = s := by
    have hsame := settle_reads (s := t.store) hst o
    rw [ho] at hsame
    exact hsame.trans ht.store
  refine ⟨hstore, ?_⟩
  rw [hhurt, hstore]
  rintro (hhurt | ⟨_, hchanged⟩)
  · exact ht.hurt hhurt
  · exact not_changed s hchanged

theorem settles_after {p : Handler α} {f : α → Handler Response} (hp : p.Only Statement.Reads)
    (ht : Unharmed s t) (hf : ∀ a t, Unharmed s t → Settles s (f a) t) : Settles s (p >>= f) t :=
  ensures_then (fun _ => Unharmed s)
    ((Only.unharmed hp ht).mono (fun _ _ h => h) fun _ _ h => h.iff) hf

theorem settles_pure {r : Response} (ht : Unharmed s t) :
    Settles s (pure r : Handler Response) t := ⟨fun _ => ht.iff, fun _ => ht.hurt⟩

theorem settles_unlessAnswered {check : Handler (Option Response)} {rest : Handler Response}
    (hcheck : check.Only Statement.Reads) (ht : Unharmed s t)
    (hrest : ∀ t, Unharmed s t → Settles s rest t) : Settles s (unlessAnswered check rest) t := by
  refine settles_after hcheck ht fun answer t ht => ?_
  cases answer with
  | some response => exact settles_pure ht
  | none => exact hrest t ht

/-- What catches nothing and answers without an error. -/
theorem settles_bare {p : Handler Response} (hbare : p.Bare)
    (hyields : p.Yields (fun _ _ => True) fun r => r.isError = false) (ht : ¬t.hurt) :
    Settles s p t :=
  ((Bare.ensures hbare ht).and hyields.ensures).mono
    (fun _ _ h => ⟨fun herror => (nomatch h.2.symm.trans herror), fun _ => h.1⟩)
    fun _ _ h => h.1

theorem settles_orFailed {text : String} {p : Handler Response} (h : Settles s p t) :
    Ensures (Attempts s) (orFailed text p) (Accounted s) (fun _ _ => False) t :=
  (ensures_tryCatch _ _).mpr (h.mono (fun _ _ h => h) fun _ _ h =>
    ⟨fun _ => h, fun herror => nomatch herror⟩)

theorem settles_orConflict {conflict text : String} {p : Handler Response} (h : Settles s p t) :
    Ensures (Attempts s) (orConflict conflict text p) (Accounted s) (fun _ _ => False) t := by
  refine (ensures_tryCatch _ _).mpr (h.mono (fun _ _ h => h) fun e _ h => ?_)
  cases e <;> exact ⟨fun _ => h, fun herror => nomatch herror⟩

end Attempts

section Reads

variable {user : User} {α : Type}

theorem reads_of_library {p : Handler α} (h : p.Only Statement.Library) : p.Only Statement.Reads := by
  apply h.mono
  intro st hst
  cases st <;> trivial

theorem reads_resolveSkills (ids : List Uuid) : (resolveSkills user ids).Only Statement.Reads := by
  apply only_ite fun _ => only_pure _
  intro _
  apply only_bind (only_query (by trivial))
  intro skills
  apply only_ite fun _ => only_pure _
  intro _
  split <;> exact only_pure _

theorem reads_checkRemoved (id : Uuid) (ids : List Uuid) :
    (checkRemoved user id ids).Only Statement.Reads :=
  only_ite (fun _ => only_pure _) fun _ => only_bind (only_query (by trivial)) fun _ => only_pure _

theorem reads_updateSkills (id : Uuid) (given : Option StoredConfig) (ids : Option (List Uuid)) :
    (updateSkills user id given ids).Only Statement.Reads := by
  cases ids with
  | none => exact only_pure _
  | some ids =>
    apply only_bind (reads_resolveSkills ids)
    intro resolved
    cases resolved with
    | error response => exact only_pure _
    | ok skills =>
      apply only_bind (only_updatedConfig given skills)
      exact fun _ => only_bind (reads_checkRemoved id ids) fun _ => only_pure _

theorem reads_importSkills (names : List String) : (importSkills user names).Only Statement.Reads := by
  apply only_ite fun _ => only_pure _
  intro _
  apply only_bind (only_query (by trivial))
  exact fun _ => only_ite (fun _ => only_pure _) fun _ => only_pure _

theorem reads_checkAgent (id : Uuid) : (checkAgent user id).Only Statement.Reads := by
  apply only_bind (only_query (by trivial))
  intro agent
  cases agent <;> exact only_pure _

theorem reads_checkScopeChange (id : Uuid) (oldScope newScope : Scope) :
    (checkScopeChange id oldScope newScope).Only Statement.Reads := by
  apply only_ite _ fun _ => only_pure _
  intro _
  apply only_bind (only_query (by trivial))
  intro running
  apply only_ite fun _ => only_pure _
  intro _
  exact only_ite (fun _ => only_bind (only_query (by trivial)) fun _ => only_pure _)
    fun _ => only_pure _

end Reads

section Routes

variable {s : Store} {t : Attempt Store} {user : User}

theorem bare_resolveAgentModels (policyId : Option Uuid) : (resolveAgentModels policyId).Bare := by
  cases policyId with
  | none => exact bare_pure _
  | some id => exact bare_bind (bare_query _) fun _ => bare_pure _

theorem yields_any {α : Type} (p : Handler α) : p.Yields (fun _ _ => True) fun _ => True := by
  induction p with
  | reply a => trivial
  | raise e => trivial
  | await s k r ihk ihr => exact ⟨fun rows _ => ihk rows, ihr⟩

theorem yields_last {α : Type} {p : Handler α} {f : α → Response} (hf : ∀ a, (f a).isError = false) :
    (p >>= fun a => pure (f a)).Yields (fun _ _ => True) fun r : Response => r.isError = false :=
  yields_then (yields_any p) fun a _ => hf a

theorem settles_create (b : AgentBody) (ht : Unharmed s t) :
    Ensures (Attempts s) (create user b) (Accounted s) (fun _ _ => False) t := by
  apply settles_orConflict
  split
  · exact settles_pure ht
  · rename_i agentId name _ _ _
    rw [createNamed]
    refine ensures_ite (fun _ => settles_pure ht) fun _ => ?_
    refine settles_unlessAnswered (reads_of_library (library_checkPolicy _ _)) ht fun t ht => ?_
    refine settles_unlessAnswered (reads_of_library (library_validateModelNames _ _)) ht fun t ht => ?_
    refine settles_unlessAnswered (reads_of_library (library_checkProfile _)) ht fun t ht => ?_
    refine settles_after (reads_resolveSkills _) ht fun resolved t ht => ?_
    cases resolved with
    | error response => exact settles_pure ht
    | ok skills =>
      refine settles_after (only_resolvedToolsConfig _ _) ht fun config t ht => ?_
      exact settles_bare (bare_bind (bare_query _) fun _ => bare_pure _)
        (yields_last fun _ => rfl) ht.hurt
  · exact settles_pure ht

theorem settles_importAgent (b : AgentBody) (ht : Unharmed s t) :
    Ensures (Attempts s) (importAgent user b) (Accounted s) (fun _ _ => False) t := by
  apply settles_orConflict
  split
  · exact settles_pure ht
  · rw [importNamed]
    refine settles_after (reads_importSkills _) ht fun resolved t ht => ?_
    cases resolved with
    | error response => exact settles_pure ht
    | ok skills =>
      refine settles_after (only_resolvedToolsConfig _ _) ht fun config t ht => ?_
      refine settles_unlessAnswered (reads_of_library (library_validateModelNames _ _)) ht
        fun t ht => ?_
      refine settles_after (reads_of_library (library_importProfile _)) ht fun profileId t ht => ?_
      exact settles_bare (bare_bind (bare_query _) fun _ => bare_pure _)
        (yields_last fun _ => rfl) ht.hurt
  · exact settles_pure ht

theorem settles_detail (id : Uuid) (ht : Unharmed s t) :
    Ensures (Attempts s) (detail user id) (Accounted s) (fun _ _ => False) t := by
  apply settles_orFailed
  refine settles_after (only_query (by trivial)) ht fun found t ht => ?_
  cases found with
  | none => exact settles_pure ht
  | some found =>
    exact settles_after (only_query (by trivial)) ht fun skills t ht => settles_pure ht

theorem settles_exportAgent (id : Uuid) (ht : Unharmed s t) :
    Ensures (Attempts s) (exportAgent user id) (Accounted s) (fun _ _ => False) t := by
  apply settles_orFailed
  refine settles_after (only_query (by trivial)) ht fun found t ht => ?_
  cases found with
  | none => exact settles_pure ht
  | some found =>
    exact settles_after (only_query (by trivial)) ht fun skills t ht => settles_pure ht

theorem settles_update (id : Uuid) (b : AgentBody) (ht : Unharmed s t) :
    Ensures (Attempts s) (update user id b) (Accounted s) (fun _ _ => False) t := by
  apply settles_orFailed
  refine settles_after (only_query (by trivial)) ht fun existing t ht => ?_
  cases existing with
  | none => exact settles_pure ht
  | some existing =>
    change Settles s (updateExisting user id b existing) t
    rw [updateExisting]
    refine ensures_ite (fun _ => settles_pure ht) fun _ => ?_
    split
    · exact settles_pure ht
    · refine ensures_ite (fun _ => settles_pure ht) fun _ => ?_
      refine settles_unlessAnswered (reads_of_library (library_checkPolicy _ _)) ht fun t ht => ?_
      refine settles_unlessAnswered (reads_of_library (library_checkProfile _)) ht fun t ht => ?_
      refine settles_unlessAnswered (reads_of_library (library_validateModelNames _ _)) ht
        fun t ht => ?_
      refine settles_after (reads_of_library (library_planPolicy _ _)) ht fun write t ht => ?_
      refine settles_after (reads_updateSkills _ _ _) ht fun resolved t ht => ?_
      cases resolved with
      | error response => exact settles_pure ht
      | ok toolsConfig =>
        refine settles_bare (bare_bind (bare_query _) fun agent => bare_bind (bare_query _) fun _ =>
          bare_bind (bare_resolveAgentModels _) fun _ => bare_pure _) ?_ ht.hurt
        exact yields_then (yields_any _) fun agent _ => yields_then (yields_any _) fun _ _ =>
          yields_last fun _ => rfl

/-- A change of one assignment, and what follows it. -/
theorem settles_merge {id : Uuid} {code : ℕ} (ht : ¬t.hurt) :
    Settles s (do
      let skills : List Skill ← ask (.selectAgentSkills id)
      ask (.setToolsConfig id (mergeStored (skills.map (·.toolsConfig))))
      pure (.done code)) t :=
  settles_bare
    (bare_bind (bare_query _) fun _ => bare_bind (bare_query _) fun _ => bare_pure _)
    (yields_then (yields_any _) fun _ _ => yields_last fun _ => rfl) ht

theorem settles_assign (id skillId : Uuid) (ht : Unharmed s t) :
    Ensures (Attempts s) (assign user id skillId) (Accounted s) (fun _ _ => False) t := by
  apply settles_orFailed
  refine settles_unlessAnswered (reads_checkAgent id) ht fun t ht => ?_
  refine settles_after (only_query (by trivial)) ht fun skill t ht => ?_
  cases skill with
  | none => exact settles_pure ht
  | some skill =>
    refine ensures_ite (fun _ => settles_pure ht) fun _ => ?_
    refine ensures_then (fun answer t => answer.elim (¬t.hurt) fun r => Accounted s r t) ?_ ?_
    · -- the INSERT: its conflict is answered here, any other error goes on
      refine (ensures_tryCatch _ _).mpr (ensures_ask ?_ ?_)
      · rintro _ u ⟨-, hhurt⟩
        change ¬u.hurt
        rw [hhurt]
        simp [ht.hurt, failing]
      · rintro e u ⟨-, hhurt⟩
        have hu : u.hurt ↔ Changed s u.store := by
          rw [hhurt]
          simp [ht.hurt, failing]
        cases e with
        | uniqueViolation _ => exact ⟨fun _ => hu, fun herror => by cases herror⟩
        | _ => exact hu
    · intro answer t ht
      cases answer with
      | none => exact settles_merge ht
      | some r => exact ht

/-- A statement that deletes no assignment changes nothing. -/
theorem settle_deleteAssignment {agentId skillId : Uuid} {o : Outcome Unit Failure} {u : Store}
    (h : o.settle Statement.run s (.deleteAssignment agentId skillId) = (.ok 0, u)) : u = s := by
  cases o with
  | failed e => cases h
  | lost c e => cases h
  | answered c =>
    have hcount : s.assignments.count (fun a => a.key = (agentId, skillId)) = 0 :=
      Except.ok.inj (congrArg Prod.fst h)
    have hstore : { s with assignments := s.assignments.delete fun a => a.key = (agentId, skillId) } = u :=
      congrArg Prod.snd h
    rw [Table.delete_eq_self hcount] at hstore
    exact hstore.symm

theorem settles_remove (id skillId : Uuid) (ht : Unharmed s t) :
    Ensures (Attempts s) (remove user id skillId) (Accounted s) (fun _ _ => False) t := by
  apply settles_orFailed
  refine settles_unlessAnswered (reads_checkAgent id) ht fun t ht => ?_
  refine settles_after (only_query (by trivial)) ht fun skill t ht => ?_
  cases skill with
  | none => exact settles_pure ht
  | some skill =>
    refine ensures_ite (fun _ => settles_pure ht) fun _ => ?_
    refine ensures_ask ?_ ?_
    · rintro count u ⟨⟨o, -, ho⟩, hhurt⟩
      have hu : ¬u.hurt := by
        rw [hhurt]
        simp [ht.hurt, failing]
      refine ensures_ite (fun hzero => ?_) fun _ => settles_merge hu
      rw [hzero, ht.store] at ho
      exact settles_pure ⟨settle_deleteAssignment ho, hu⟩
    · rintro e u ⟨-, hhurt⟩
      rw [hhurt]
      simp [ht.hurt, failing]

theorem bare_cloneModels (src cloned : Agent) (policyId : Option Uuid) :
    (cloneModels user src cloned policyId).Bare := by
  apply bare_bind (bare_ite (fun _ => bare_resolveAgentModels _) fun _ => bare_pure _)
  intro models
  apply bare_ite fun _ => bare_bind (bare_resolveAgentModels _) fun _ => bare_pure _
  intro _
  apply bare_bind
  · apply bare_bind (bare_query _)
    intro existing
    cases existing with
    | none => exact bare_query _
    | some id => exact bare_bind (bare_query _) fun _ => bare_pure _
  · exact fun _ => bare_bind (bare_query _) fun _ => bare_pure _

theorem settles_clone (id : Uuid) (name : Option String) (ht : Unharmed s t) :
    Ensures (Attempts s) (clone user id name) (Accounted s) (fun _ _ => False) t := by
  apply settles_orConflict
  refine settles_after (only_query (by trivial)) ht fun src t ht => ?_
  cases src with
  | none => exact settles_pure ht
  | some src =>
    change Settles s (cloneSource user id name src) t
    rw [cloneSource]
    refine settles_after (only_query (by trivial)) ht fun taken t ht => ?_
    refine settles_after (reads_of_library (library_clonedPolicy _)) ht fun policyId t ht => ?_
    refine settles_bare (bare_bind (bare_query _) fun cloned => bare_bind (bare_query _) fun assigned =>
      bare_bind (bare_forM fun _ _ => bare_query _) fun _ =>
        bare_bind (bare_cloneModels _ _ _) fun _ => bare_bind (bare_query _) fun _ => bare_pure _) ?_
      ht.hurt
    exact yields_then (yields_any _) fun _ _ => yields_then (yields_any _) fun _ _ =>
      yields_then (yields_any _) fun _ _ => yields_then (yields_any _) fun _ _ =>
        yields_last fun _ => rfl

theorem settles_createSkill (b : SkillBody) (ht : Unharmed s t) :
    Ensures (Attempts s) (createSkill b) (Accounted s) (fun _ _ => False) t := by
  apply settles_orConflict
  split
  · exact settles_pure ht
  · exact settles_bare (bare_bind (bare_query _) fun _ => bare_pure _) (yields_last fun _ => rfl)
      ht.hurt

theorem settles_updateSkill (id : Uuid) (b : SkillBody) (ht : Unharmed s t) :
    Ensures (Attempts s) (updateSkill id b) (Accounted s) (fun _ _ => False) t := by
  apply settles_orConflict
  refine settles_after (only_query (by trivial)) ht fun existing t ht => ?_
  cases existing with
  | none => exact settles_pure ht
  | some existing =>
    refine settles_unlessAnswered (reads_checkScopeChange _ _ _) ht fun t ht => ?_
    exact settles_bare (bare_bind (bare_query _) fun _ => bare_pure _) (yields_last fun _ => rfl)
      ht.hurt

theorem settles_deleteSkill (id : Uuid) (ht : Unharmed s t) :
    Ensures (Attempts s) (deleteSkill id) (Accounted s) (fun _ _ => False) t := by
  apply settles_orFailed
  refine settles_after (only_query (by trivial)) ht fun existing t ht => ?_
  cases existing with
  | none => exact settles_pure ht
  | some existing =>
    refine ensures_ite (fun _ => settles_pure ht) fun _ => ?_
    refine settles_after (only_query (by trivial)) ht fun count t ht => ?_
    refine ensures_ite (fun _ => settles_pure ht) fun _ => ?_
    exact settles_bare (bare_bind (bare_query _) fun _ => bare_pure _) (yields_last fun _ => rfl)
      ht.hurt

theorem settles_handler (q : Request) (ht : Unharmed s t) :
    Ensures (Attempts s) q.handler (Accounted s) (fun _ _ => False) t := by
  cases q with
  | create user b => exact settles_create b ht
  | importAgent user b => exact settles_importAgent b ht
  | detail user id => exact settles_detail id ht
  | exportAgent user id => exact settles_exportAgent id ht
  | update user id b => exact settles_update id b ht
  | assign user id skillId => exact settles_assign id skillId ht
  | remove user id skillId => exact settles_remove id skillId ht
  | clone user id name => exact settles_clone id name ht
  | createSkill b => exact settles_createSkill b ht
  | updateSkill id b => exact settles_updateSkill id b ht
  | deleteSkill id => exact settles_deleteSkill id ht

end Routes

/-- A request is atomic exactly if no statement comes back with an error after a change. -/
theorem atomic_iff (s : Store) (q : Request) (pattern : List (Outcome Unit Failure)) :
    Atomic s q pattern ↔ ¬Harmed s q pattern := by
  have hleft := Ensures.left () (t := (⟨[], s⟩ : Log Statement Statement.Rows Store))
    (H := False) (settles_handler q ⟨rfl, id⟩) trivial pattern fun _ _ => trivial
  rw [false_or] at hleft
  change Left _ _ (Harmed s q pattern) (service.serve () s q pattern) at hleft
  cases hserve : service.serve () s q pattern with
  | mk log result =>
    rw [hserve] at hleft
    cases result with
    | error e => exact hleft.elim
    | ok r =>
      have hsettled : Accounted s r ⟨log.store, Harmed s q pattern⟩ := hleft
      cases herror : r.isError with
      | true =>
        have hiff : Harmed s q pattern ↔ Changed s log.store := hsettled.error herror
        rw [hiff]
        constructor
        · intro h
          have hsame := h.answered r (by rw [hserve]) herror
          rwa [hserve] at hsame
        · intro h
          refine ⟨fun _ _ _ => ?_, fun _ _ => ?_⟩
          · rw [hserve]
            exact h
          · rw [hserve]
            exact h
      | false =>
        refine iff_of_true ⟨fun r' hr' herror' => ?_, fun e he => ?_⟩ (hsettled.ok herror)
        · rw [hserve] at hr'
          cases hr'
          exact nomatch herror.symm.trans herror'
        · rw [hserve] at he
          cases he

/-- One agent, without skills and models. -/
def lone : Store where
  agents := (Table.empty.insert
    { id := 1, agentId := "scribe", name := "Scribe", createdBy := "eve" }).getD Table.empty
  nextId := 2

/-- The connection goes after the INSERT of a clone. -/
def afterInsert : List (Outcome Unit Failure) :=
  [.answered (), .answered (), .answered (), .failed (.error "Connection terminated")]

theorem clone_not_atomic :
    ¬ ∀ (s : Store) (q : Request) (pattern : List (Outcome Unit Failure)), Atomic s q pattern := by
  intro h
  have hsame := (h lone (.clone ⟨"eve", false⟩ 1 none) afterInsert).answered
    (.error 500 "Failed to clone agent") (by decide +kernel) rfl
  refine hsame fun heq => ?_
  have hlength := congrArg (fun agents : Table Agent.id => agents.rows.length) heq.1
  exact absurd hlength (by decide +kernel)

end Hill90.Skills
