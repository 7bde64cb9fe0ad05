import Hill90.Skills.Escalation
import Hill90.Skills.Merging

/-! # What a request merges

A create, an import and a PUT write the merge of the skills they have read, in one transaction with
the assignments.
-/

namespace Hill90.Skills

open Chat (Uuid Failure)
open Policies (User)
open Program Service

abbrev Merge := List Uuid × StoredConfig

def merges (rows : List Skill) : Set Merge :=
  {g | (rows.map (·.id)).Perm g.1 ∧ mergeStored (rows.map (·.toolsConfig)) = some g.2}

def Statement.readsSkills : Statement → Bool
  | selectSkills _ | selectSkillsNamed _ => true
  | _ => false

def Statement.writesMerge (g : Merge) : Statement → Prop
  | createAgent new _ skills => skills ≠ [] ∧ (skills, new.toolsConfig) = g
  | updateAgent _ u _ skills _ => skills.getD [] ≠ [] ∧ u.toolsConfig.map (Prod.mk (skills.getD [])) = some g
  | _ => False

def Request.direct : Request → Bool
  | assign .. | remove .. | clone .. => true
  | _ => false

def reading (q : Request) : Discipline Statement Statement.Rows Failure (Set Merge) where
  may found
    | .createAgent new _ skills => skills ≠ [] → (skills, new.toolsConfig) ∈ found
    | .updateAgent _ u _ skills _ => (skills.getD [] = [] → u.toolsConfig = none) ∧
        (skills.getD [] ≠ [] → ∃ config, u.toolsConfig = some config ∧ (skills.getD [], config) ∈ found)
    | .insertAssignment _ | .deleteAssignment .. | .setToolsConfig .. => q.direct = true
    | _ => True
  returns := gating.returns
  returned found
    | .selectSkills _, rows | .selectSkillsNamed _, rows => merges rows
    | _, _ => found
  rejected found st _ := if st.readsSkills then ∅ else found

section Handlers

variable {q : Request} {user : User} {found : Set Merge} {α : Type}

theorem returned_of_not_readsSkills {st : Statement} {rows : st.Rows} (h : st.readsSkills = false) :
    (reading q).returned found st rows = found := by
  cases st <;> first | rfl | cases h

theorem Only.keeps_reading {p : Handler α} (h : p.Only Statement.Aloof) :
    p.Meets (reading q) (fun _ found' => found' = found) (fun _ _ => True) found := by
  apply h.meets
  · intro st hst
    cases st <;> first | exact ⟨trivial, fun _ => rfl, fun _ => rfl⟩ | cases hst
  · exact fun _ => rfl
  · exact fun _ => trivial

theorem Only.meets_reading {p : Handler α} (h : p.Only Statement.Aloof) :
    p.Meets (reading q) (fun _ _ => True) (fun _ _ => True) found :=
  (Only.keeps_reading h).mono (fun _ _ _ => trivial) fun _ _ _ => trivial

theorem aloof_of_library {p : Handler α} (h : p.Only Statement.Library) : p.Only Statement.Aloof := by
  apply h.mono
  intro st hst
  cases st <;> trivial

theorem aloof_checkRemoved (id : Uuid) (ids : List Uuid) :
    (checkRemoved user id ids).Only Statement.Aloof :=
  only_ite (fun _ => only_pure _) fun _ => only_bind (only_query (by trivial)) fun _ => only_pure _

theorem reading_after {p : Handler α} {β : Type} {f : α → Handler β}
    (hp : p.Only Statement.Aloof)
    (hf : ∀ a, (f a).Meets (reading q) (fun _ _ => True) (fun _ _ => True) found) :
    (p >>= f).Meets (reading q) (fun _ _ => True) (fun _ _ => True) found := by
  apply meets_then _ (Only.keeps_reading hp)
  rintro a _ rfl
  exact hf a

theorem reading_unlessAnswered {check : Handler (Option Response)} {rest : Handler Response}
    (hcheck : check.Only Statement.Aloof)
    (hrest : rest.Meets (reading q) (fun _ _ => True) (fun _ _ => True) found) :
    (unlessAnswered check rest).Meets (reading q) (fun _ _ => True) (fun _ _ => True) found := by
  apply reading_after hcheck
  intro answer
  cases answer with
  | some response => trivial
  | none => exact hrest

theorem reading_mergeSkills (skills : List Skill) :
    (mergeSkills skills).Meets (reading q)
      (fun config found' => found' = found ∧ mergeStored (skills.map (·.toolsConfig)) = some config)
      (fun _ _ => True) found := by
  unfold mergeSkills
  split
  · exact ⟨rfl, ‹_›⟩
  · trivial

theorem reading_resolvedToolsConfig (given : Option StoredConfig) (skills : List Skill) :
    (resolvedToolsConfig given skills).Meets (reading q)
      (fun config found' => found' = found ∧
        (skills ≠ [] → mergeStored (skills.map (·.toolsConfig)) = some config))
      (fun _ _ => True) found := by
  apply meets_ite
  · exact fun hskills => ⟨rfl, absurd hskills⟩
  · exact fun _ => (reading_mergeSkills skills).mono (fun _ _ h => ⟨h.1, fun _ => h.2⟩) fun _ _ h => h

theorem reading_updatedConfig (given : Option StoredConfig) (skills : List Skill) :
    (updatedConfig given skills).Meets (reading q)
      (fun config found' => found' = found ∧ (skills = [] → config = given) ∧
        (skills ≠ [] → ∃ merged, config = some merged ∧
          mergeStored (skills.map (·.toolsConfig)) = some merged))
      (fun _ _ => True) found := by
  apply meets_ite
  · exact fun hskills => ⟨rfl, fun _ => rfl, absurd hskills⟩
  · intro hskills
    apply meets_then _ (reading_mergeSkills skills)
    rintro config _ ⟨rfl, hmerge⟩
    exact ⟨rfl, fun h => absurd h hskills, fun _ => ⟨config, rfl, hmerge⟩⟩

theorem reading_resolveSkills (ids : List Uuid) :
    (resolveSkills user ids).Meets (reading q)
      (fun result found' => ∀ skills, result = .ok skills → (ids = [] ↔ skills = []) ∧
        (ids ≠ [] → ∀ config, mergeStored (skills.map (·.toolsConfig)) = some config →
          (ids, config) ∈ found'))
      (fun _ _ => True) found := by
  apply meets_ite
  · rintro rfl _ ⟨⟩
    exact ⟨⟨fun _ => rfl, fun _ => rfl⟩, fun h => absurd rfl h⟩
  · intro hids
    apply meets_ask
    · trivial
    · rintro rows ⟨hnodup, hsub⟩
      apply meets_ite
      · exact fun _ _ h => nomatch h
      · intro hlength
        have hlength : rows.length = ids.length := not_not.mp hlength
        split
        · exact fun _ h => nomatch h
        · rintro _ ⟨⟩
          refine ⟨?_, fun _ config hmerge => ⟨perm_keys_of_length hnodup hsub hlength, hmerge⟩⟩
          rw [← List.length_eq_zero_iff, ← hlength, List.length_eq_zero_iff]
    · exact fun _ => trivial

theorem reading_create (b : AgentBody) :
    (create user b).Meets (reading q) (fun _ _ => True) (fun _ _ => True) found := by
  apply meets_orConflict
  split
  · trivial
  · refine meets_ite (fun _ => trivial) fun _ => ?_
    apply reading_unlessAnswered (aloof_of_library (library_checkPolicy _ _))
    apply reading_unlessAnswered (aloof_of_library (library_validateModelNames _ _))
    apply reading_unlessAnswered (aloof_of_library (library_checkProfile _))
    apply meets_then _ (reading_resolveSkills _)
    intro result found' h
    cases result with
    | error response => trivial
    | ok skills =>
      obtain ⟨hempty, hfound⟩ := h skills rfl
      apply meets_then _ (reading_resolvedToolsConfig _ skills)
      rintro config _ ⟨rfl, hmerge⟩
      apply meets_ask
      · intro hids
        exact hfound hids config (hmerge fun hnil => hids (hempty.mpr hnil))
      · exact fun _ _ => trivial
      · exact fun _ => trivial
  · trivial

theorem reading_importSkills (names : List String) :
    (importSkills user names).Meets (reading q)
      (fun result found' => ∀ skills, result = .ok skills → skills ≠ [] → 
        ∀ config, mergeStored (skills.map (·.toolsConfig)) = some config →
          (skills.map (·.id), config) ∈ found')
      (fun _ _ => True) found := by
  apply meets_ite
  · rintro _ _ ⟨⟩ hskills
    exact absurd rfl hskills
  · intro _
    apply meets_ask
    · trivial
    · intro rows _
      apply meets_ite
      · exact fun _ _ h => nomatch h
      · rintro _ _ ⟨⟩ _
        exact fun config hmerge => ⟨.refl _, hmerge⟩
    · exact fun _ => trivial

theorem reading_importAgent (b : AgentBody) :
    (importAgent user b).Meets (reading q) (fun _ _ => True) (fun _ _ => True) found := by
  apply meets_orConflict
  split
  · trivial
  · apply meets_then _ (reading_importSkills _)
    intro result found' h
    cases result with
    | error response => trivial
    | ok skills =>
      apply meets_then _ (reading_resolvedToolsConfig _ skills)
      rintro config _ ⟨rfl, hmerge⟩
      apply reading_unlessAnswered (aloof_of_library (library_validateModelNames _ _))
      apply meets_then _ (Only.keeps_reading (aloof_of_library (library_importProfile _)))
      rintro profileId _ rfl
      apply meets_ask
      · intro hids
        have hskills : skills ≠ [] := by
          rintro rfl
          exact hids rfl
        exact h skills rfl hskills config (hmerge hskills)
      · exact fun _ _ => trivial
      · exact fun _ => trivial
  · trivial

/-- A PUT says what the tools are or which skills it wants, not both. -/
def AgentBody.Merged (b : AgentBody) : Prop := b.skillIds.getD [] = [] → b.toolsConfig = none

theorem reading_updateSkills (id : Uuid) {b : AgentBody} (hb : b.Merged) :
    (updateSkills user id b.toolsConfig b.skillIds).Meets (reading q)
      (fun result found' => ∀ config, result = .ok config →
        (b.skillIds.getD [] = [] → config = none) ∧
        (b.skillIds.getD [] ≠ [] → ∃ merged, config = some merged ∧ (b.skillIds.getD [], merged) ∈ found'))
      (fun _ _ => True) found := by
  rw [AgentBody.Merged] at hb
  generalize b.skillIds = ids at hb
  cases ids with
  | none =>
    rintro _ ⟨⟩
    exact ⟨hb, fun h => absurd rfl h⟩
  | some ids =>
    apply meets_then _ (reading_resolveSkills ids)
    intro result found' h
    cases result with
    | error response => exact fun _ h => nomatch h
    | ok skills =>
      obtain ⟨hempty, hfound⟩ := h skills rfl
      apply meets_then _ (reading_updatedConfig _ skills)
      rintro config _ ⟨rfl, hgiven, hmerge⟩
      apply meets_then _ (Only.keeps_reading (aloof_checkRemoved id ids))
      rintro removed _ rfl
      cases removed with
      | some response => exact fun _ h => nomatch h
      | none =>
        rintro _ ⟨⟩
        constructor
        · intro hids
          rw [hgiven (hempty.mp hids)]
          exact hb hids
        · intro hids
          obtain ⟨merged, rfl, hmerged⟩ := hmerge fun hnil => hids (hempty.mpr hnil)
          exact ⟨merged, rfl, hfound hids merged hmerged⟩

theorem reading_update (id : Uuid) {b : AgentBody} (hb : b.Merged) :
    (update user id b).Meets (reading q) (fun _ _ => True) (fun _ _ => True) found := by
  apply meets_orFailed
  apply reading_after (only_query (by trivial))
  intro existing
  cases existing with
  | none => trivial
  | some existing =>
    refine meets_ite (fun _ => trivial) fun _ => ?_
    split
    · trivial
    · refine meets_ite (fun _ => trivial) fun _ => ?_
      apply reading_unlessAnswered (aloof_of_library (library_checkPolicy _ _))
      apply reading_unlessAnswered (aloof_of_library (library_checkProfile _))
      apply reading_unlessAnswered (aloof_of_library (library_validateModelNames _ _))
      apply reading_after (aloof_of_library (library_planPolicy _ _))
      intro write
      apply meets_then _ (reading_updateSkills id hb)
      intro result found' h
      cases result with
      | error response => trivial
      | ok config =>
        apply meets_ask
        · exact h config rfl
        · intro agent _
          apply reading_after (only_query (by trivial))
          intro skills
          exact reading_after (aloof_of_library (library_resolveAgentModels _)) fun _ => trivial
        · exact fun _ => trivial

end Handlers

end Hill90.Skills
