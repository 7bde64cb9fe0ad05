import Mathlib.Data.List.Perm.Subperm
import Hill90.Foundation.Recheck
import Hill90.Skills.Routes

/-! # The gate on elevated skills

A request of a user who is no admin assigns skills that it has looked up and found not to be
elevated, but for a clone, which copies what its source is assigned.
-/

namespace Hill90.Skills

open Chat (Uuid Failure)
open Policies (User)
open Program Service

abbrev State := System Statement Statement.Rows Failure Request Response Store

abbrev SkillMove := Move Failure Request Unit Surroundings

def Statement.assigns : Statement → List Uuid
  | createAgent _ _ skills => skills
  | updateAgent _ _ _ skills _ => skills.getD []
  | insertAssignment a => [a.skillId]
  | _ => []

def Statement.looksUp : Statement → Bool
  | selectSkills _ | selectSkillsNamed _ | selectSkill _ | selectAssigned _ => true
  | _ => false

abbrev Statement.Unassigning (st : Statement) : Prop := st.assigns = []

def Statement.Quiet (st : Statement) : Prop := st.Unassigning ∧ st.looksUp = false

def Statement.Aloof : Statement → Prop
  | createAgent .. | updateAgent .. | insertAssignment _ | deleteAssignment .. | setToolsConfig ..
  | selectSkills _ | selectSkillsNamed _ => False
  | _ => True

def Statement.Library : Statement → Prop
  | selectPolicy _ | selectModel .. | selectProfile _ => True
  | _ => False

def plain (skills : List Skill) : Set Uuid := {g | ∃ k ∈ skills, k.id = g ∧ k.scope.elevated = false}

/-- The skills a request may assign: those its last lookup found not to be elevated, and all that
a clone's source is assigned. -/
def gating : Discipline Statement Statement.Rows Failure (Set Uuid) where
  may found st := ∀ g ∈ st.assigns, g ∈ found
  returns
    | .selectSkills ids, rows => (rows.map (·.id)).Nodup ∧ ∀ k ∈ rows, k.id ∈ ids
    | .selectSkill id, row => ∀ k, row = some k → k.id = id
    | _, _ => True
  returned found
    | .selectSkills _, rows | .selectSkillsNamed _, rows => plain rows
    | .selectSkill _, row => plain row.toList
    | .selectAssigned _, rows => {g | g ∈ rows}
    | _, _ => found
  rejected found st _ := if st.looksUp then ∅ else found

/-- A request may come to assign this skill without another look at it. -/
abbrev MayAssign (g : Uuid) (p : Handler Response) : Prop :=
  Relies gating (fun _ st => st.looksUp = true) (fun g st => g ∈ st.assigns) p g

section Handlers

variable {user : User} {found : Set Uuid} {α : Type}

theorem returned_of_not_looksUp {st : Statement} {rows : st.Rows} (h : st.looksUp = false) :
    gating.returned found st rows = found := by
  cases st <;> first | rfl | cases h

theorem rejected_of_not_looksUp {st : Statement} {e : Failure} (h : st.looksUp = false) :
    gating.rejected found st e = found := by
  simp [gating, h]

theorem rejected_of_looksUp {st : Statement} {e : Failure} (h : st.looksUp = true) :
    gating.rejected found st e = ∅ := by
  simp [gating, h]

/-- What has no part in an assignment leaves the found skills as they are. -/
theorem Only.keeps {p : Handler α} (h : p.Only Statement.Quiet) :
    p.Meets gating (fun _ found' => found' = found) (fun _ _ => True) found := by
  apply h.meets
  · intro st hst
    constructor
    · intro g hg
      rw [show st.assigns = [] from hst.1] at hg
      cases hg
    · exact ⟨fun rows => returned_of_not_looksUp hst.2, fun e => rejected_of_not_looksUp hst.2⟩
  · exact fun _ => rfl
  · exact fun _ => trivial

theorem Only.meets_gating {p : Handler α} (h : p.Only Statement.Unassigning) :
    p.Meets gating (fun _ _ => True) (fun _ _ => True) found := by
  apply h.meets_of_stable (P := fun _ => True)
  · intro m st _ hst
    constructor
    · intro g hg
      rw [show st.assigns = [] from hst] at hg
      cases hg
    · exact ⟨fun _ => trivial, fun _ => trivial⟩
  · trivial

theorem library_validateModelNames (owner : String) (names : List String) :
    (validateModelNames owner names).Only Statement.Library := by
  induction names with
  | nil => exact only_pure _
  | cons name rest ih =>
    apply only_bind (only_query (by trivial))
    intro known
    exact only_ite (fun _ => ih) fun _ => only_pure _

theorem library_inaccessible (owner : String) (names : List String) :
    (inaccessible owner names).Only Statement.Library := by
  induction names with
  | nil => exact only_pure _
  | cons name rest ih =>
    apply only_bind (only_query (by trivial))
    exact fun _ => only_bind ih fun _ => only_pure _

theorem library_checkPolicy (policyId : Option Uuid) (owner : String) :
    (checkPolicy policyId user owner).Only Statement.Library := by
  cases policyId with
  | none => exact only_pure _
  | some id =>
    apply only_bind (only_query (by trivial))
    intro policy
    cases policy with
    | none => exact only_pure _
    | some policy =>
      apply only_ite fun _ => only_pure _
      intro _
      apply only_bind (only_query (by trivial))
      intro policy
      cases policy with
      | none => exact only_pure _
      | some policy => exact only_bind (library_inaccessible _ _) fun _ => only_pure _

theorem library_checkProfile (profileId : Option Uuid) :
    (checkProfile profileId).Only Statement.Library := by
  cases profileId with
  | none => exact only_pure _
  | some id => exact only_bind (only_query (by trivial)) fun _ => only_pure _

theorem library_importProfile (profileId : Option Uuid) :
    (importProfile profileId).Only Statement.Library := by
  cases profileId with
  | none => exact only_pure _
  | some id => exact only_bind (only_query (by trivial)) fun _ => only_pure _

theorem library_resolveAgentModels (policyId : Option Uuid) :
    (resolveAgentModels policyId).Only Statement.Library := by
  cases policyId with
  | none => exact only_pure _
  | some id => exact only_bind (only_query (by trivial)) fun _ => only_pure _

theorem library_planPolicy (existing : Agent) (names : Option (List String)) :
    (planPolicy existing names).Only Statement.Library := by
  obtain _ | _ | ⟨name, rest⟩ := names
  · exact only_pure _
  · exact only_pure _
  · rw [planPolicy]
    · split
      · exact only_pure _
      · apply only_bind (only_query (by trivial))
        exact fun _ => only_ite (fun _ => only_pure _) fun _ => only_pure _
    · exact fun h => nomatch h

theorem library_clonedPolicy (policyId : Option Uuid) :
    (clonedPolicy user policyId).Only Statement.Library := by
  cases policyId with
  | none => exact only_pure _
  | some id => exact only_bind (only_query (by trivial)) fun _ => only_pure _

theorem quiet_of_library {p : Handler α} (h : p.Only Statement.Library) : p.Only Statement.Quiet := by
  apply h.mono
  intro st hst
  cases st <;> first | exact ⟨rfl, rfl⟩ | cases hst

theorem quiet_ask {st : Statement} (h : st.Quiet) : (ask st).Only Statement.Quiet := only_query h

theorem quiet_checkRemoved (id : Uuid) (ids : List Uuid) :
    (checkRemoved user id ids).Only Statement.Quiet :=
  only_ite (fun _ => only_pure _) fun _ => only_bind (quiet_ask ⟨rfl, rfl⟩) fun _ => only_pure _

theorem quiet_checkAgent (id : Uuid) : (checkAgent user id).Only Statement.Quiet := by
  apply only_bind (quiet_ask ⟨rfl, rfl⟩)
  intro agent
  cases agent <;> exact only_pure _

theorem quiet_cloneModels (src cloned : Agent) (policyId : Option Uuid) :
    (cloneModels user src cloned policyId).Only Statement.Quiet := by
  apply only_bind
  · exact only_ite (fun _ => quiet_of_library (library_resolveAgentModels _)) fun _ => only_pure _
  intro models
  apply only_ite
  · exact fun _ => only_bind (quiet_of_library (library_resolveAgentModels _)) fun _ => only_pure _
  · intro _
    apply only_bind
    · apply only_bind (quiet_ask ⟨rfl, rfl⟩)
      intro existing
      cases existing with
      | none => exact quiet_ask ⟨rfl, rfl⟩
      | some id => exact only_bind (quiet_ask ⟨rfl, rfl⟩) fun _ => only_pure _
    · exact fun _ => only_bind (quiet_ask ⟨rfl, rfl⟩) fun _ => only_pure _

theorem Meets.after {p : Handler α} {β : Type} {f : α → Handler β} {found : Set Uuid}
    (hp : p.Meets gating (fun _ _ => True) (fun _ _ => True) found)
    (hf : ∀ a found', (f a).Meets gating (fun _ _ => True) (fun _ _ => True) found') :
    (p >>= f).Meets gating (fun _ _ => True) (fun _ _ => True) found :=
  meets_then _ hp fun a found' _ => hf a found'

theorem Only.passive {p : Handler α} (h : p.Only Statement.Quiet) :
    p.Meets gating (fun _ _ => True) (fun _ _ => True) found :=
  Only.meets_gating (h.mono fun _ hst => hst.1)

theorem meets_unlessAnswered {check : Handler (Option Response)} {rest : Handler Response}
    (hcheck : check.Only Statement.Quiet)
    (hrest : rest.Meets gating (fun _ _ => True) (fun _ _ => True) found) :
    (unlessAnswered check rest).Meets gating (fun _ _ => True) (fun _ _ => True) found := by
  apply meets_then _ (Only.keeps hcheck)
  rintro answer _ rfl
  cases answer with
  | some response => trivial
  | none => exact hrest

section Caught

variable {μ : Type} {D : Discipline Statement Statement.Rows Failure μ} {m : μ}

theorem meets_orConflict {conflict text : String} {p : Handler Response}
    (h : p.Meets D (fun _ _ => True) (fun _ _ => True) m) :
    (orConflict conflict text p).Meets D (fun _ _ => True) (fun _ _ => True) m := by
  rw [orConflict, meets_tryCatch]
  apply h.mono fun _ _ hr => hr
  intro e _ _
  split <;> trivial

theorem meets_orFailed {text : String} {p : Handler Response}
    (h : p.Meets D (fun _ _ => True) (fun _ _ => True) m) :
    (orFailed text p).Meets D (fun _ _ => True) (fun _ _ => True) m := by
  rw [orFailed, meets_tryCatch]
  exact h.mono (fun _ _ hr => hr) fun _ _ _ => trivial

end Caught

/-- Rows with different keys among the given ones, and as many, are all the given ones. -/
theorem perm_keys_of_length {ids : List Uuid} {rows : List Skill} (hnodup : (rows.map (·.id)).Nodup)
    (hsub : ∀ k ∈ rows, k.id ∈ ids) (hlength : rows.length = ids.length) :
    (rows.map (·.id)).Perm ids := by
  have hsubset : rows.map (·.id) ⊆ ids := by
    intro g hg
    obtain ⟨k, hk, rfl⟩ := List.mem_map.mp hg
    exact hsub k hk
  exact (List.Nodup.subperm hnodup hsubset).perm_of_length_le (by simp [hlength])

theorem elevated_of_deniedScope {skills : List Skill} (hu : user.admin = false)
    (h : deniedScope user skills = none) : ∀ k ∈ skills, k.scope.elevated = false := by
  rw [deniedScope, hu] at h
  intro k hk
  simpa using List.find?_eq_none.mp (Option.map_eq_none_iff.mp h) k hk

theorem meets_resolveSkills (hu : user.admin = false) (ids : List Uuid) :
    (resolveSkills user ids).Meets gating
      (fun result found' => ∀ skills, result = .ok skills → ∀ g ∈ ids, g ∈ found') (fun _ _ => True)
      found := by
  apply meets_ite
  · rintro rfl _ _ g hg
    cases hg
  · intro _
    apply meets_ask
    · exact fun _ hg => absurd hg List.not_mem_nil
    · rintro rows ⟨hnodup, hsub⟩
      apply meets_ite
      · exact fun _ _ h => nomatch h
      · intro hlength
        split
        · exact fun _ h => nomatch h
        · rename_i hdenied
          intro _ _ g hg
          have hperm := perm_keys_of_length hnodup hsub (not_not.mp hlength)
          obtain ⟨k, hk, rfl⟩ := List.mem_map.mp (hperm.mem_iff.mpr hg)
          exact ⟨k, hk, rfl, elevated_of_deniedScope hu hdenied k hk⟩
    · exact fun _ => trivial

theorem only_mergeSkills {P : Statement → Prop} (skills : List Skill) : (mergeSkills skills).Only P := by
  unfold mergeSkills
  split
  · exact only_pure _
  · exact only_throw _

theorem only_resolvedToolsConfig {P : Statement → Prop} (given : Option StoredConfig)
    (skills : List Skill) : (resolvedToolsConfig given skills).Only P :=
  only_ite (fun _ => only_pure _) fun _ => only_mergeSkills skills

theorem only_updatedConfig {P : Statement → Prop} (given : Option StoredConfig)
    (skills : List Skill) : (updatedConfig given skills).Only P :=
  only_ite (fun _ => only_pure _) fun _ => only_bind (only_mergeSkills skills) fun _ => only_pure _

theorem meets_create (hu : user.admin = false) (b : AgentBody) :
    (create user b).Meets gating (fun _ _ => True) (fun _ _ => True) found := by
  apply meets_orConflict
  split
  · trivial
  · refine meets_ite (fun _ => trivial) fun _ => ?_
    apply meets_unlessAnswered (quiet_of_library (library_checkPolicy _ _))
    apply meets_unlessAnswered (quiet_of_library (library_validateModelNames _ _))
    apply meets_unlessAnswered (quiet_of_library (library_checkProfile _))
    apply meets_then _ (meets_resolveSkills hu _)
    intro result found' h
    cases result with
    | error response => trivial
    | ok skills =>
      apply meets_then _ (Only.keeps (only_resolvedToolsConfig _ _))
      rintro config _ rfl
      apply meets_ask
      · exact h skills rfl
      · exact fun _ _ => trivial
      · exact fun _ => trivial
  · trivial

theorem meets_importSkills (hu : user.admin = false) (names : List String) :
    (importSkills user names).Meets gating
      (fun result found' => ∀ skills, result = .ok skills → ∀ k ∈ skills, k.id ∈ found')
      (fun _ _ => True) found := by
  apply meets_ite
  · rintro _ _ ⟨⟩ k hk
    cases hk
  · intro _
    apply meets_ask
    · exact fun _ hg => absurd hg List.not_mem_nil
    · intro rows _
      apply meets_ite
      · exact fun _ _ h => nomatch h
      · rintro hnone skills ⟨⟩ k hk
        refine ⟨k, hk, rfl, ?_⟩
        simp only [hu, Bool.not_false, Bool.and_true, List.any_eq_true, not_exists, not_and] at hnone
        simpa using hnone k hk
    · exact fun _ => trivial

theorem meets_importAgent (hu : user.admin = false) (b : AgentBody) :
    (importAgent user b).Meets gating (fun _ _ => True) (fun _ _ => True) found := by
  apply meets_orConflict
  split
  · trivial
  · apply meets_then _ (meets_importSkills hu _)
    intro result found' h
    cases result with
    | error response => trivial
    | ok skills =>
      apply meets_then _ (Only.keeps (only_resolvedToolsConfig _ _))
      rintro config _ rfl
      apply meets_unlessAnswered (quiet_of_library (library_validateModelNames _ _))
      apply meets_then _ (Only.keeps (quiet_of_library (library_importProfile _)))
      rintro profileId _ rfl
      apply meets_ask
      · intro g hg
        obtain ⟨k, hk, rfl⟩ := List.mem_map.mp hg
        exact h skills rfl k hk
      · exact fun _ _ => trivial
      · exact fun _ => trivial
  · trivial

theorem meets_updateSkills (hu : user.admin = false) (id : Uuid) (given : Option StoredConfig)
    (ids : Option (List Uuid)) :
    (updateSkills user id given ids).Meets gating
      (fun result found' => ∀ config, result = .ok config → ∀ g ∈ ids.getD [], g ∈ found')
      (fun _ _ => True) found := by
  cases ids with
  | none => exact fun _ _ g hg => absurd hg List.not_mem_nil
  | some ids =>
    apply meets_then _ (meets_resolveSkills hu ids)
    intro result found' h
    cases result with
    | error response => exact fun _ h => nomatch h
    | ok skills =>
      apply meets_then _ (Only.keeps (only_updatedConfig _ _))
      rintro config _ rfl
      apply meets_then _ (Only.keeps (quiet_checkRemoved id ids))
      rintro removed _ rfl
      cases removed with
      | some response => exact fun _ h => nomatch h
      | none => exact fun _ _ => h skills rfl

theorem meets_update (hu : user.admin = false) (id : Uuid) (b : AgentBody) :
    (update user id b).Meets gating (fun _ _ => True) (fun _ _ => True) found := by
  apply meets_orFailed
  apply Meets.after (Only.passive (quiet_ask ⟨rfl, rfl⟩))
  intro existing _
  cases existing with
  | none => trivial
  | some existing =>
    refine meets_ite (fun _ => trivial) fun _ => ?_
    split
    · trivial
    · refine meets_ite (fun _ => trivial) fun _ => ?_
      apply meets_unlessAnswered (quiet_of_library (library_checkPolicy _ _))
      apply meets_unlessAnswered (quiet_of_library (library_checkProfile _))
      apply meets_unlessAnswered (quiet_of_library (library_validateModelNames _ _))
      apply Meets.after (Only.passive (quiet_of_library (library_planPolicy _ _)))
      intro write _
      apply meets_then _ (meets_updateSkills hu id _ _)
      intro result found' h
      cases result with
      | error response => trivial
      | ok config =>
        apply meets_ask
        · exact h config rfl
        · intro agent _
          apply Meets.after (Only.passive (quiet_ask ⟨rfl, rfl⟩))
          intro skills _
          exact Meets.after (Only.passive (quiet_of_library (library_resolveAgentModels _))) fun _ _ => trivial
        · exact fun _ => trivial

theorem meets_assign (hu : user.admin = false) (id skillId : Uuid) :
    (assign user id skillId).Meets gating (fun _ _ => True) (fun _ _ => True) found := by
  apply meets_orFailed
  apply meets_unlessAnswered (quiet_checkAgent id)
  apply meets_ask
  · exact fun _ hg => absurd hg List.not_mem_nil
  · intro row hrow
    cases row with
    | none => trivial
    | some skill =>
      refine meets_ite (fun _ => trivial) fun hplain => ?_
      have hplain : skill.scope.elevated = false := by simpa [hu] using hplain
      apply Meets.after
      · change Meets _ (tryCatch (ask _ >>= fun _ => pure none) _) _ _ _
        rw [meets_tryCatch]
        apply meets_ask
        · intro g hg
          obtain rfl := List.mem_singleton.mp hg
          exact ⟨skill, by simp, hrow skill rfl, hplain⟩
        · exact fun _ _ => trivial
        · intro e
          split <;> trivial
      · intro answer _
        cases answer with
        | some response => trivial
        | none =>
          apply Meets.after (Only.passive (quiet_ask ⟨rfl, rfl⟩))
          intro skills _
          exact Meets.after (Only.passive (quiet_ask ⟨rfl, rfl⟩)) fun _ _ => trivial
  · exact fun _ => trivial

theorem meets_clone (id : Uuid) (name : Option String) :
    (clone user id name).Meets gating (fun _ _ => True) (fun _ _ => True) found := by
  apply meets_orConflict
  apply Meets.after (Only.passive (quiet_ask ⟨rfl, rfl⟩))
  intro src _
  cases src with
  | none => trivial
  | some src =>
    apply Meets.after (Only.passive (quiet_ask ⟨rfl, rfl⟩))
    intro taken _
    apply Meets.after (Only.passive (quiet_of_library (library_clonedPolicy _)))
    intro policyId _
    apply Meets.after (Only.passive (quiet_ask ⟨rfl, rfl⟩))
    intro cloned _
    apply meets_ask
    · exact fun _ hg => absurd hg List.not_mem_nil
    · intro assigned _
      apply meets_then (fun _ found' => ∀ g ∈ assigned, g ∈ found')
      · apply meets_forM
        · exact fun _ hg => hg
        · intro skillId hskill found' hfound
          refine ⟨?_, fun _ _ => hfound, fun _ => trivial⟩
          intro g hg
          obtain rfl := List.mem_singleton.mp hg
          exact hfound _ hskill
      · intro _ _ _
        apply Meets.after (Only.passive (quiet_cloneModels _ _ _))
        intro result _
        exact Meets.after (Only.passive (quiet_ask ⟨rfl, rfl⟩)) fun _ _ => trivial
    · exact fun _ => trivial

end Handlers

end Hill90.Skills
