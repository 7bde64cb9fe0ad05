import Hill90.Skills.Reading

/-! # What a change of assignments owes

An assignment changes a row first and writes the merge of what it then reads.  In between it owes
the agent its configuration.
-/

namespace Hill90.Skills

open Chat (Uuid Failure)
open Policies (User)
open Program Service

variable {x : Uuid}

/-- The rest of a request reads the skills of an agent and writes their merge, or has read them. -/
inductive Owes (x : Uuid) : Handler Response → Prop where
  | read {k : List Skill → Handler Response} {r : Failure → Handler Response}
      (next : ∀ rows, ∃ k' r', k rows =
        .await (.setToolsConfig x (mergeStored (rows.map (·.toolsConfig)))) k' r') :
      Owes x (.await (.selectAgentSkills x) k r)
  | write {config : Option StoredConfig} {k : Unit → Handler Response} {r : Failure → Handler Response} :
      Owes x (.await (.setToolsConfig x config) k r)

def Statement.changed : (st : Statement) → st.Rows → Option Uuid
  | insertAssignment a, _ => some a.agentId
  | deleteAssignment agentId _, count => if count = (0 : ℕ) then none else some agentId
  | _, _ => none

/-- Answers where no source of a clone has skills. -/
def Expected : (st : Statement) → st.Rows → Prop
  | .selectAssigned _, rows => rows = ([] : List Uuid)
  | st, rows => gating.returns st rows

/-- A request that changes a row owes the configuration from then on, and no other does. -/
def Duly : Handler Response → Prop
  | .reply _ => True
  | .raise _ => True
  | .await st k r =>
    (∀ rows, Expected st rows →
      (∀ x, st.changed rows = some x → Owes x (k rows)) ∧
      (∀ x, Owes x (k rows) →
        (st.changed rows = some x ∧ ∃ k' r', k rows = .await (.selectAgentSkills x) k' r') ∨
        st = .selectAgentSkills x ∧ Owes x (.await st k r)) ∧
      Duly (k rows)) ∧
    ∀ e, (∀ x, ¬Owes x (r e)) ∧ Duly (r e)

def Begins (p : Handler Response) : Prop := Duly p ∧ ∀ x, ¬Owes x p

theorem begins_reply (response : Response) : Begins (.reply response) := ⟨trivial, fun _ h => nomatch h⟩

theorem begins_raise (e : Failure) : Begins (.raise e) := ⟨trivial, fun _ h => nomatch h⟩

theorem returns_of_expected {st : Statement} {rows : st.Rows} (h : Expected st rows) :
    gating.returns st rows := by
  cases st <;> first | exact h | trivial

theorem begins_await {st : Statement} {k : st.Rows → Handler Response}
    {r : Failure → Handler Response} (hst : ∀ rows, st.changed rows = none)
    (hset : ∀ x config, st ≠ .setToolsConfig x config)
    (hk : ∀ rows, Expected st rows → Begins (k rows)) (hr : ∀ e, Begins (r e)) :
    Begins (.await st k r) := by
  constructor
  · refine ⟨fun rows hrows => ⟨?_, ?_, (hk rows hrows).1⟩, fun e => ⟨(hr e).2, (hr e).1⟩⟩
    · intro x hx
      rw [hst] at hx
      cases hx
    · exact fun x hx => absurd hx ((hk rows hrows).2 x)
  · intro x hx
    cases hx with
    | read next =>
      obtain ⟨k', r', heq⟩ := next []
      apply (hk [] trivial).2 x
      rw [heq]
      exact .write
    | write => exact hset x _ rfl

/-- What neither assigns nor unassigns row by row owes nothing. -/
theorem begins_of_meets {q : Request} (hq : q.direct = false) {p : Handler Response} {found : Set Merge}
    {Q : Response → Set Merge → Prop} {E : Failure → Set Merge → Prop}
    (h : p.Meets (reading q) Q E found) : Begins p := by
  induction p generalizing found with
  | reply response => exact begins_reply response
  | raise e => exact begins_raise e
  | await st k r ihk ihr =>
    obtain ⟨hmay, hrows, herr⟩ := h
    apply begins_await
    · intro rows
      cases st <;> first | rfl | exact absurd (hmay.symm.trans hq) (by decide)
    · rintro x config rfl
      exact absurd (hmay.symm.trans hq) (by decide)
    · exact fun rows hexpected => ihk rows (hrows rows (returns_of_expected hexpected))
    · exact fun e => ihr e (herr e)

theorem begins_then {α : Type} {p : Handler α} {f : α → Handler Response} (hp : p.Only Statement.Aloof)
    (hf : ∀ a, Begins (f a)) : Begins (p >>= f) := by
  induction p with
  | reply a => exact hf a
  | raise e => exact begins_raise e
  | await st k r ihk ihr =>
    obtain ⟨hst, hk, hr⟩ := hp
    change Begins (.await st (fun rows => k rows >>= f) fun e => r e >>= f)
    apply begins_await
    · intro rows
      cases st <;> first | rfl | cases hst
    · rintro x config rfl
      cases hst
    · exact fun rows _ => ihk rows (hk rows)
    · exact fun e => ihr e (hr e)

section Caught

variable {h : Failure → Handler Response}
variable (hh : ∀ e, ∃ response, h e = .reply response)

theorem owes_tryCatch {p : Handler Response} (hp : Owes x p) : Owes x (p.tryCatch h) := by
  cases hp with
  | read next =>
    apply Owes.read
    intro rows
    obtain ⟨k', r', heq⟩ := next rows
    rw [heq]
    exact ⟨_, _, rfl⟩
  | write => exact .write

include hh

theorem await_of_tryCatch {p : Handler Response} {st : Statement} {k : st.Rows → Handler Response}
    {r : Failure → Handler Response} (heq : p.tryCatch h = .await st k r) :
    ∃ k' r', p = .await st k' r' ∧ k = fun rows => (k' rows).tryCatch h := by
  cases p with
  | reply response => cases heq
  | raise e =>
    obtain ⟨response, hreply⟩ := hh e
    change h e = _ at heq
    rw [hreply] at heq
    cases heq
  | await st' k' r' =>
    cases heq
    exact ⟨k', r', rfl, rfl⟩

theorem owes_of_tryCatch {p : Handler Response} (hp : Owes x (p.tryCatch h)) : Owes x p := by
  generalize heq : p.tryCatch h = p' at hp
  cases hp with
  | read next =>
    obtain ⟨k, r, rfl, rfl⟩ := await_of_tryCatch hh heq
    apply Owes.read
    intro rows
    obtain ⟨k', r', hnext⟩ := next rows
    obtain ⟨k'', r'', hk, _⟩ := await_of_tryCatch hh hnext
    exact ⟨k'', r'', hk⟩
  | write =>
    obtain ⟨k, r, rfl, _⟩ := await_of_tryCatch hh heq
    exact .write

theorem duly_tryCatch {p : Handler Response} (hp : Duly p) : Duly (p.tryCatch h) := by
  induction p with
  | reply response => trivial
  | raise e =>
    obtain ⟨response, hreply⟩ := hh e
    change Duly (h e)
    rw [hreply]
    trivial
  | await st k r ihk ihr =>
    obtain ⟨hk, hr⟩ := hp
    refine ⟨fun rows hrows => ?_, fun e => ⟨fun x hx => (hr e).1 x (owes_of_tryCatch hh hx), ihr e (hr e).2⟩⟩
    obtain ⟨hchanged, howes, hduly⟩ := hk rows hrows
    refine ⟨fun x hx => owes_tryCatch (hchanged x hx), fun x hx => ?_, ihk rows hduly⟩
    obtain ⟨hx, k', r', heq⟩ | ⟨hst, hread⟩ := howes x (owes_of_tryCatch hh hx)
    · refine .inl ⟨hx, ?_⟩
      change ∃ k' r', (k rows).tryCatch h = _
      rw [heq]
      exact ⟨_, _, rfl⟩
    · exact .inr ⟨hst, owes_tryCatch hread⟩

theorem begins_tryCatch {p : Handler Response} (hp : Begins p) : Begins (tryCatch p h) :=
  ⟨duly_tryCatch hh hp.1, fun x hx => hp.2 x (owes_of_tryCatch hh hx)⟩

end Caught

theorem begins_orFailed {text : String} {p : Handler Response} (hp : Begins p) :
    Begins (orFailed text p) := begins_tryCatch (fun _ => ⟨_, rfl⟩) hp

theorem begins_orConflict {conflict text : String} {p : Handler Response} (hp : Begins p) :
    Begins (orConflict conflict text p) := by
  apply begins_tryCatch _ hp
  intro e
  split <;> exact ⟨_, rfl⟩

theorem begins_unlessAnswered {check : Handler (Option Response)} {rest : Handler Response}
    (hcheck : check.Only Statement.Aloof) (hrest : Begins rest) : Begins (unlessAnswered check rest) := by
  apply begins_then hcheck
  intro answer
  cases answer with
  | some response => exact begins_reply response
  | none => exact hrest

/-- The last two statements of an assignment. -/
def settle (id : Uuid) (response : Response) : Handler Response := do
  let skills : List Skill ← ask (.selectAgentSkills id)
  ask (.setToolsConfig id (mergeStored (skills.map (·.toolsConfig))))
  pure response

theorem owes_settle (id : Uuid) (response : Response) : Owes id (settle id response) :=
  .read fun _ => ⟨_, _, rfl⟩

theorem owes_settle_iff {id : Uuid} {response : Response} : Owes x (settle id response) ↔ x = id := by
  constructor
  · intro h
    cases h
    rfl
  · rintro rfl
    exact owes_settle _ response

theorem duly_settle (id : Uuid) (response : Response) : Duly (settle id response) := by
  refine ⟨fun rows _ => ⟨fun x hx => (nomatch hx), fun x hx => ?_, ?_⟩, fun e => ⟨fun x h => (nomatch h), trivial⟩⟩
  · right
    cases hx
    exact ⟨rfl, owes_settle _ _⟩
  · refine ⟨fun rows _ => ⟨fun x hx => (nomatch hx), fun x hx => (nomatch hx), trivial⟩, ?_⟩
    exact fun e => ⟨fun x h => (nomatch h), trivial⟩

theorem begins_assign (user : User) (id skillId : Uuid) : Begins (assign user id skillId) := by
  apply begins_orFailed
  apply begins_unlessAnswered (aloof_checkAgent id)
  apply begins_then (only_query (by trivial))
  intro skill
  cases skill with
  | none => exact begins_reply _
  | some skill =>
    dsimp only
    split
    · exact begins_reply _
    · constructor
      · refine ⟨fun rows _ => ⟨?_, ?_, duly_settle id _⟩, fun e => ?_⟩
        · rintro x ⟨⟩
          exact owes_settle id _
        · intro x hx
          obtain rfl := owes_settle_iff.mp hx
          exact .inl ⟨rfl, _, _, rfl⟩
        · cases e <;> exact ⟨fun x h => (nomatch h), trivial⟩
      · exact fun x h => nomatch h

theorem begins_remove (user : User) (id skillId : Uuid) : Begins (remove user id skillId) := by
  apply begins_orFailed
  apply begins_unlessAnswered (aloof_checkAgent id)
  apply begins_then (only_query (by trivial))
  intro skill
  cases skill with
  | none => exact begins_reply _
  | some skill =>
    dsimp only
    split
    · exact begins_reply _
    · change Begins (.await (.deleteAssignment id skillId) (fun count => if count = (0 : ℕ) then
        .reply (.error 404 "Skill assignment not found") else settle id (.done 200)) .raise)
      constructor
      · refine ⟨fun count _ => ?_, fun e => ⟨fun x h => (nomatch h), trivial⟩⟩
        by_cases hcount : count = (0 : ℕ)
        · subst hcount
          exact ⟨fun x hx => (nomatch hx), fun x hx => (nomatch hx), trivial⟩
        · have hchanged : (Statement.deleteAssignment id skillId).changed count = some id := if_neg hcount
          beta_reduce
          rw [if_neg hcount]
          refine ⟨fun x hx => ?_, fun x hx => ?_, duly_settle id _⟩
          · obtain rfl := Option.some.inj (hchanged.symm.trans hx)
            exact owes_settle _ _
          · obtain rfl := owes_settle_iff.mp hx
            exact .inl ⟨hchanged, _, _, rfl⟩
      · exact fun x h => nomatch h

theorem aloof_cloneModels {user : User} (src cloned : Agent) (policyId : Option Uuid) :
    (cloneModels user src cloned policyId).Only Statement.Aloof := by
  apply only_bind
  · exact only_ite (fun _ => aloof_of_library (library_resolveAgentModels _)) fun _ => only_pure _
  intro models
  apply only_ite
  · exact fun _ => only_bind (aloof_of_library (library_resolveAgentModels _)) fun _ => only_pure _
  · intro _
    apply only_bind
    · apply only_bind (only_query (by trivial))
      intro existing
      cases existing with
      | none => exact only_query (by trivial)
      | some id => exact only_bind (only_query (by trivial)) fun _ => only_pure _
    · exact fun _ => only_bind (only_query (by trivial)) fun _ => only_pure _

theorem begins_clone (user : User) (id : Uuid) (name : Option String) : Begins (clone user id name) := by
  apply begins_orConflict
  apply begins_then (only_query (by trivial))
  intro src
  cases src with
  | none => exact begins_reply _
  | some src =>
    apply begins_then (only_query (by trivial))
    intro taken
    apply begins_then (aloof_of_library (library_clonedPolicy _))
    intro policyId
    apply begins_then (only_query (by trivial))
    intro cloned
    change Begins (.await (.selectAssigned id) _ _)
    apply begins_await
    · exact fun _ => rfl
    · exact fun _ _ h => nomatch h
    · rintro _ rfl
      apply begins_then (aloof_cloneModels src cloned policyId)
      intro result
      exact begins_then (only_query (by trivial)) fun _ => begins_reply _
    · exact fun e => begins_raise e

/-- The statement writes no configuration together with assignments. -/
def Statement.Rowwise : Statement → Prop
  | createAgent .. | updateAgent .. | selectSkills _ | selectSkillsNamed _ => False
  | _ => True

theorem rowwise_of_aloof {α : Type} {p : Handler α} (h : p.Only Statement.Aloof) :
    p.Only Statement.Rowwise := by
  apply h.mono
  intro st hst
  cases st <;> trivial

theorem rowwise_assign (user : User) (id skillId : Uuid) :
    (assign user id skillId).Only Statement.Rowwise := by
  refine only_tryCatch ?_ fun _ => only_pure _
  apply only_bind (rowwise_of_aloof (aloof_checkAgent id))
  intro answer
  cases answer with
  | some response => exact only_pure _
  | none =>
    apply only_bind (only_query (by trivial))
    intro skill
    cases skill with
    | none => exact only_pure _
    | some skill =>
      apply only_ite fun _ => only_pure _
      intro _
      apply only_bind
      · refine only_tryCatch (only_bind (only_query (by trivial)) fun _ => only_pure _) fun e => ?_
        split
        · exact only_pure _
        · exact only_throw _
      · intro answer
        cases answer with
        | some response => exact only_pure _
        | none =>
          apply only_bind (only_query (by trivial))
          exact fun _ => only_bind (only_query (by trivial)) fun _ => only_pure _

theorem rowwise_remove (user : User) (id skillId : Uuid) :
    (remove user id skillId).Only Statement.Rowwise := by
  apply (unassigns_remove user id skillId).mono
  intro st hst
  cases st <;> trivial

theorem rowwise_clone (user : User) (id : Uuid) (name : Option String) :
    (clone user id name).Only Statement.Rowwise := by
  apply only_tryCatch
  · apply only_bind (only_query (by trivial))
    intro src
    cases src with
    | none => exact only_pure _
    | some src =>
      apply only_bind (only_query (by trivial))
      intro taken
      apply only_bind (rowwise_of_aloof (aloof_of_library (library_clonedPolicy _)))
      intro policyId
      apply only_bind (only_query (by trivial))
      intro cloned
      apply only_bind (only_query (by trivial))
      intro assigned
      apply only_bind (only_forM fun _ _ => only_query (by trivial))
      intro _
      apply only_bind (rowwise_of_aloof (aloof_cloneModels src cloned policyId))
      intro result
      exact only_bind (only_query (by trivial)) fun _ => only_pure _
  · intro e
    split <;> exact only_pure _

theorem Only.meets_rowwise {q : Request} (hq : q.direct = true) {p : Handler Response}
    {found : Set Merge} (h : p.Only Statement.Rowwise) :
    p.Meets (reading q) (fun _ _ => True) (fun _ _ => True) found := by
  apply h.meets_of_stable (P := fun _ => True)
  · intro m st _ hst
    refine ⟨?_, fun _ => trivial, fun _ => trivial⟩
    cases st <;> first | exact hq | trivial
  · trivial

/-- A PUT says what the tools are or which skills it wants, not both. -/
def Request.Merged : Request → Prop
  | update _ _ b => b.Merged
  | _ => True

theorem meets_reading (q : Request) (hq : q.Merged) :
    q.handler.Meets (reading q) (fun _ _ => True) (fun _ _ => True) ∅ := by
  cases q with
  | create user b => exact reading_create b
  | importAgent user b => exact reading_importAgent b
  | update user id b => exact reading_update id hq
  | detail user id => exact Only.meets_reading (aloof_detail user id)
  | exportAgent user id => exact Only.meets_reading (aloof_exportAgent user id)
  | assign user id skillId => exact Only.meets_rowwise rfl (rowwise_assign user id skillId)
  | remove user id skillId => exact Only.meets_rowwise rfl (rowwise_remove user id skillId)
  | clone user id name => exact Only.meets_rowwise rfl (rowwise_clone user id name)
  | createSkill | updateSkill | deleteSkill => exact Only.meets_reading (aloof_skill _ rfl)

theorem begins_handler (q : Request) (hq : q.Merged) : Begins q.handler := by
  cases q with
  | assign user id skillId => exact begins_assign user id skillId
  | remove user id skillId => exact begins_remove user id skillId
  | clone user id name => exact begins_clone user id name
  | _ => exact begins_of_meets rfl (meets_reading _ hq)

end Hill90.Skills
