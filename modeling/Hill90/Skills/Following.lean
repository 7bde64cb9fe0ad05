import Hill90.Skills.Owing

/-! # The configuration follows the skills

In every orderly run each configuration is the merge of the agent's skills, as they were at its last
change, or a request in flight owes it.
-/

namespace Hill90.Skills

open Chat (Uuid Failure)
open Program Service

variable {S T : State} {a : SkillMove} {s s' : Store} {x : Uuid}

abbrev MayWrite (q : Request) (g : Merge) (p : Handler Response) : Prop :=
  Relies (reading q) (fun _ st => st.readsSkills = true) (fun g st => st.writesMerge g) p g

structure Orderly (S : State) (a : SkillMove) : Prop where
  /-- No PUT gives tools without skills. -/
  merged : ∀ q, a = .arrive q → q.Merged
  /-- No PUT takes the last skills away. -/
  emptied : ∀ id u w user c, S.taking a = some (.updateAgent id u w (some []) user, c) →
    S.store.assignedTo id = []
  /-- No clone is made of an agent with skills. -/
  cloned : ∀ id c, S.taking a = some (.selectAssigned id, c) → S.store.assignedTo id = []
  /-- No query fails of a request that owes a configuration. -/
  unbroken : ∀ i e q p x, a = .reject i e → S.requests i = some (q, p) → ¬Owes x p
  /-- The skills of an agent whose configuration is owed can be merged. -/
  merges : ∀ i q p x, S.requests i = some (q, p) → Owes x p →
    (mergeStored (S.store.configsOf x)).isSome = true
  /-- No answer is lost of a change of assignments, or of what follows it. -/
  unlost : ∀ i c e q st k r, a = .lose i c e → S.requests i = some (q, .await st k r) →
    (∀ rows, st.changed rows = none) ∧ ∀ x, ¬Owes x (.await st k r)
  /-- The skills of an agent stay as they are while a request owes its configuration. -/
  steady : ∀ T i q p x, service.step S a = some T → S.requests i = some (q, p) → Owes x p →
    T.store.configsOf x = S.store.configsOf x
  /-- No skill is given other tools while a request may write a merge it has read it for. -/
  edited : ∀ id u c, S.taking a = some (.updateSkill id u, c) → u.toolsConfig ≠ none →
    ∀ i q p g, S.requests i = some (q, p) → MayWrite q g p → id ∉ g.1

/-- The skills of these keys still have the configurations that were merged. -/
def Mergeable (s : Store) (g : Merge) : Prop :=
  ∃ rows : List Skill, g ∈ merges rows ∧ Stands s rows

theorem mergeable_of_rows (hs : s.Fresh) {rows : List Skill} (hsub : ∀ k ∈ rows, k ∈ s.skills.rows)
    {g : Merge} (hg : g ∈ merges rows) : Mergeable s g := by
  refine ⟨rows, hg, fun k hk => ⟨hs.1 k (hsub k hk), fun k' hk' hid => ?_⟩⟩
  rw [Table.eq_of_key_eq hk' (hsub k hk) hid]

theorem mergeable_run {c : Unit} {st : Statement} {rows : st.Rows} {g : Merge} (hg : Mergeable s g)
    (h : Statement.run s c st = .ok (rows, s'))
    (hkept : ∀ id u, st = .updateSkill id u → u.toolsConfig ≠ none → id ∉ g.1) : Mergeable s' g := by
  obtain ⟨read, hread, hstands⟩ := hg
  refine ⟨read, hread, fun k hk => ?_⟩
  obtain ⟨hlt, hsame⟩ := hstands k hk
  obtain hframe | ⟨hnext, _, hskills⟩ | ⟨id, u, rfl, hnext, _, hskills⟩ | ⟨hnext, _, hskills⟩ :=
    skills_run h
  · rw [hframe.skills]
    exact ⟨Nat.lt_of_lt_of_le hlt hframe.nextId, hsame⟩
  · refine ⟨Nat.lt_trans hlt hnext, fun k' hk' hid => ?_⟩
    obtain hk' | hnew := hskills k' hk'
    · exact hsame k' hk' hid
    · exact absurd (hid.symm.trans hnew) (Nat.ne_of_lt hlt)
  · refine ⟨by rw [hnext]; exact hlt, fun k' hk' hid => ?_⟩
    obtain ⟨k'', hk'', ⟨_, rfl⟩ | ⟨hkey, rfl⟩⟩ := hskills k' hk'
    · exact hsame _ hk'' hid
    · change k''.id = k.id at hid
      have hlisted : k.id ∈ g.1 := hread.1.mem_iff.mp (List.mem_map_of_mem hk)
      have hnone : u.toolsConfig = none := by
        by_contra hsome
        exact hkept id u rfl hsome (hkey ▸ hid ▸ hlisted)
      change u.toolsConfig.getD k''.toolsConfig = k.toolsConfig
      rw [hnone]
      exact hsame k'' hk'' hid
  · refine ⟨by rw [hnext]; exact hlt, fun k' hk' hid => hsame k' (hskills k' hk') hid⟩

theorem rechecks_reading : service.Rechecks reading Orderly (fun _ st => st.readsSkills = true)
    (fun g st => st.writesMerge g) (fun found g => g ∈ found) (fun g _ s => Mergeable s g) where
  handler _ q hok := ⟨∅, meets_reading q (hok.merged q rfl), fun _ => id⟩
  acts q found st g hmay hact := by
    cases st with
    | createAgent new models skills => exact hact.2 ▸ hmay hact.1
    | updateAgent id u write skills user =>
      obtain ⟨hskills, hmap⟩ := hact
      obtain ⟨config, hconfig, hfound⟩ := hmay.2 hskills
      rw [hconfig] at hmap
      exact Option.some.inj hmap ▸ hfound
    | _ => exact hact.elim
  returned q found st rows g hlook hknows := by
    rwa [returned_of_not_readsSkills (by simpa using hlook)] at hknows
  rejected q found st e g hknows := by
    by_cases hlook : st.readsSkills = true
    · simp [reading, hlook] at hknows
    · simp only [reading, hlook, Bool.false_eq_true, if_false] at hknows
      exact ⟨hlook, hknows⟩
  credible _ c _ _ _ _ _ hrun := returns_run (c := c) hrun
  looked S a c q found st rows s' g hreach hok htaking _ hrun hlook hknows := by
    have hs := fresh_of_reachable hreach
    cases st with
    | selectSkills ids =>
      cases hrun
      exact mergeable_of_rows hs (fun k hk => (List.mem_filter.mp hk).1) hknows
    | selectSkillsNamed names =>
      cases hrun
      exact mergeable_of_rows hs (fun k hk => (List.mem_filter.mp hk).1) hknows
    | _ => cases hlook
  kept S a st c rows s' hok htaking hrun i q p g hi hrelies hholds := by
    apply mergeable_run (c := c) hholds hrun
    rintro id u rfl hu
    exact hok.edited id u c htaking hu i q p g hi hrelies
  around S x s' _ hx i q p g _ _ hholds := by
    cases x with
    | status | deleted | library =>
      cases hx
      exact hholds

def reassigned (S : State) (a : SkillMove) : Option Uuid :=
  match S.taking a with
  | some (st, c) => if (Statement.run S.store c st).toBool then st.reassigns S.store else none
  | none => none

def noted (S T : State) (a : SkillMove) (g : Uuid → Option (List StoredConfig)) (x : Uuid) :
    Option (List StoredConfig) :=
  if T.store.configOf x = none then none
  else if reassigned S a = some x then some (T.store.configsOf x)
  else g x

inductive Recorded (ok : State → SkillMove → Prop) : State → (Uuid → Option (List StoredConfig)) → Prop where
  | initial {S : State} (h : service.machine.initial S) (whole : S.store.Whole) : Recorded ok S fun _ => none
  | step {S T : State} {g : Uuid → Option (List StoredConfig)} {a : SkillMove} (h : Recorded ok S g)
      (allowed : ok S a) (move : service.step S a = some T) : Recorded ok T (noted S T a g)

theorem Recorded.reachable {ok : State → SkillMove → Prop} {g : Uuid → Option (List StoredConfig)}
    (h : Recorded ok S g) : service.machine.ReachableIf ok S := by
  induction h with
  | initial h _ => exact ⟨_, [], h, .nil _⟩
  | step _ hok hmove ih => exact ih.trans (.cons hok hmove (.nil _))

/-- The configuration of an agent is a merge of its skills, as they were at its last change. -/
def Settled (s : Store) (g : Uuid → Option (List StoredConfig)) (x : Uuid) : Prop :=
  ∀ config l, s.configOf x = some config → g x = some l →
    ∃ l' : List StoredConfig, l'.Perm l ∧ mergeStored l' = some config

/-- Each configuration is settled or owed, and what is owed is what the skills are. -/
structure Faithful (S : State) (g : Uuid → Option (List StoredConfig)) : Prop where
  whole : S.store.Whole
  there : ∀ x l, g x = some l → (S.store.configOf x).isSome = true
  duly : ∀ i q p, S.requests i = some (q, p) → Duly p
  owed : ∀ i q p x l, S.requests i = some (q, p) → Owes x p → g x = some l → l = S.store.configsOf x
  read : ∀ i q x config k r, S.requests i = some (q, .await (.setToolsConfig x config) k r) →
    config = mergeStored (S.store.configsOf x)
  settled : ∀ x, Settled S.store g x ∨ ∃ i q p, S.requests i = some (q, p) ∧ Owes x p

theorem noted_eq_some {g : Uuid → Option (List StoredConfig)} {l : List StoredConfig}
    (h : noted S T a g x = some l) : (T.store.configOf x).isSome = true ∧
      (reassigned S a = some x ∧ l = T.store.configsOf x ∨ reassigned S a ≠ some x ∧ g x = some l) := by
  rw [noted] at h
  split at h
  · cases h
  · rename_i hthere
    refine ⟨Option.isSome_iff_ne_none.mpr hthere, ?_⟩
    split at h
    · exact .inl ⟨‹_›, (Option.some.inj h).symm⟩
    · exact .inr ⟨‹_›, h⟩

theorem reassigned_of_run {st : Statement} {c : Unit} {rows : st.Rows} (htaking : S.taking a = some (st, c))
    (hrun : Statement.run S.store c st = .ok (rows, s')) : reassigned S a = st.reassigns S.store := by
  rw [reassigned, htaking]
  dsimp only
  rw [hrun]
  rfl

theorem count_eq_zero_iff {agentId skillId : Uuid} :
    (s.assignments.count fun a => a.key = (agentId, skillId)) = 0 ↔ skillId ∉ s.assignedTo agentId := by
  rw [Table.count_eq_zero_iff, Store.assignedTo, List.mem_map]
  simp only [decide_eq_false_iff_not, List.mem_filter, decide_eq_true_eq, not_exists, not_and]
  constructor
  · rintro h r ⟨hr, hagent⟩ hskill
    exact h r hr (Prod.ext hagent hskill)
  · intro h r hr hkey
    exact h r ⟨hr, congrArg Prod.fst hkey⟩ (congrArg Prod.snd hkey)

theorem reassigns_of_changed {c : Unit} {st : Statement} {rows : st.Rows}
    (hrun : Statement.run s c st = .ok (rows, s')) (h : st.changed rows = some x) :
    st.reassigns s = some x := by
  cases st with
  | insertAssignment a => exact h
  | deleteAssignment agentId skillId =>
    cases hrun
    change (if _ = 0 then none else some agentId) = some x at h
    split at h
    · cases h
    · rename_i hcount
      change (if _ then some agentId else none) = some x
      rw [if_pos (not_not.mp (mt count_eq_zero_iff.mpr hcount))]
      exact h
  | _ => cases h

/-- A change of assignments is one of a row, or comes with its configuration. -/
theorem configured_of_reassigns {q : Request} {found : Set Merge} {c : Unit} {st : Statement}
    {rows : st.Rows} (hs : s.Whole) (hrun : Statement.run s c st = .ok (rows, s'))
    (hmay : (reading q).may found st) (hmerge : ∀ g, st.writesMerge g → Mergeable s g)
    (hemptied : ∀ id u w user, st = .updateAgent id u w (some []) user → s.assignedTo id = [])
    (h : st.reassigns s = some x) : st.changed rows = some x ∨
      ∀ config, s'.configOf x = some config →
        ∃ l' : List StoredConfig, l'.Perm (s'.configsOf x) ∧ mergeStored l' = some config := by
  have hmerged : ∀ g : Merge, Mergeable s g → s'.assignedTo x = g.1 → s'.skills = s.skills →
      (∀ k ∈ g.1, (s.skills.get? k).isSome = true) → s'.configOf x = some g.2 →
      ∀ config, s'.configOf x = some config →
        ∃ l' : List StoredConfig, l'.Perm (s'.configsOf x) ∧ mergeStored l' = some config := by
    rintro g ⟨read, ⟨hids, hg⟩, hstands⟩ hassigned hskills hthere hg' config hconfig
    obtain rfl := Option.some.inj (hg'.symm.trans hconfig)
    refine ⟨read.map (·.toolsConfig), ?_, hg⟩
    rw [configsOf_eq, hassigned, hskills]
    exact perm_of_stands hstands hids hthere
  cases st with
  | createAgent new models skills =>
    right
    change (if skills = [] then none else some s.nextId) = some x at h
    split at h
    · cases h
    · rename_i hskills
      cases h
      have hcreated := created_createAgent hrun
      apply hmerged (skills, new.toolsConfig) (hmerge _ ⟨hskills, rfl⟩)
      · rw [hcreated.assigned, hs.assignedTo_eq_nil hcreated.fresh, List.nil_append]
      · exact hcreated.skills
      · exact hcreated.present
      · rw [hcreated.configs, if_pos rfl]
  | updateAgent id u write skills user =>
    right
    cases skills with
    | none => cases h
    | some skills =>
      change (if skills = [] ∧ s.assignedTo id = [] then none else some id) = some x at h
      split at h
      · cases h
      · rename_i hchanges
        cases h
        have hskills : skills ≠ [] := by
          rintro rfl
          exact hchanges ⟨rfl, hemptied x u write user rfl⟩
        obtain ⟨config, hconfig, _⟩ := hmay.2 hskills
        have hupdated := updated_updateAgent hrun
        obtain ⟨hassigned, hpresent⟩ := hupdated.assigned skills rfl
        intro config' hconfig'
        have hwritten := hupdated.configs x
        obtain ⟨old, hold⟩ : ∃ old, s.configOf x = some old := by
          cases hold : s.configOf x with
          | none =>
            rw [hold] at hwritten
            cases hwritten.symm.trans hconfig'
          | some old => exact ⟨old, rfl⟩
        rw [hold, hconfig] at hwritten
        apply hmerged (skills, config) (hmerge _ ⟨hskills, by rw [hconfig]; rfl⟩) hassigned
          hupdated.skills hpresent _ config' hconfig'
        rw [hwritten]
        simp
  | insertAssignment a => exact .inl h
  | deleteAssignment agentId skillId =>
    left
    change (if _ then some agentId else none) = some x at h
    split at h
    · rename_i hassigned
      cases hrun
      change (if _ = 0 then none else some agentId) = some x
      rw [if_neg fun hzero => count_eq_zero_iff.mp hzero hassigned]
      exact h
    · cases h
  | _ => cases h

section Step

variable {g : Uuid → Option (List StoredConfig)} {i : ℕ} {q : Request} {st : Statement} {c : Unit}
variable {k : st.Rows → Handler Response} {r : Failure → Handler Response} {rows : st.Rows}
variable {p : Handler Response}

/-- A statement takes effect, and its request goes on with `p`. -/
theorem Faithful.proceed (hS : Faithful S g) (hreach : service.machine.ReachableIf Orderly S)
    (hok : Orderly S a) (hwait : S.requests i = some (q, .await st k r))
    (htaking : S.taking a = some (st, c)) (hrun : Statement.run S.store c st = .ok (rows, s'))
    (hstep : service.step S a = some (S.proceed i s' q p)) (hduly : Duly p)
    (hnext : ∀ x, Owes x p →
      (st.changed rows = some x ∧ ∃ k' r', p = .await (.selectAgentSkills x) k' r') ∨
      st = .selectAgentSkills x ∧ Owes x (.await st k r) ∧ p = k rows)
    (hchanged : ∀ x, st.changed rows = some x → Owes x p)
    (hkeeps : ∀ x, Owes x (.await st k r) → (∃ config, st = .setToolsConfig x config) ∨ Owes x p) :
    Faithful (S.proceed i s' q p) (noted S (S.proceed i s' q p) a g) := by
  obtain ⟨_, q', _, found, _, _, hmay, hmerge⟩ := rechecks_reading.taken hreach htaking
  have hreassigned := reassigned_of_run htaking hrun
  have hrequest : ∀ j q₁ p₁, (S.proceed i s' q p).requests j = some (q₁, p₁) →
      p₁ = p ∨ S.requests j = some (q₁, p₁) := by
    intro j q₁ p₁ hj
    rw [System.proceed_requests] at hj
    split at hj
    · cases hj
      exact .inl rfl
    · exact .inr hj
  have hself : (S.proceed i s' q p).requests i = some (q, p) := by
    rw [System.proceed_requests, if_pos rfl]
  have hother : ∀ j q₁ p₁, j ≠ i → S.requests j = some (q₁, p₁) →
      (S.proceed i s' q p).requests j = some (q₁, p₁) := by
    intro j q₁ p₁ hne hj
    rwa [System.proceed_requests, if_neg hne]
  have hsteady : ∀ j q₁ p₁ x, S.requests j = some (q₁, p₁) → Owes x p₁ →
      s'.configsOf x = S.store.configsOf x := fun j q₁ p₁ x hj => hok.steady _ j q₁ p₁ x hstep hj
  refine ⟨whole_run hS.whole hrun, fun x l hl => (noted_eq_some hl).1, ?_, ?_, ?_, ?_⟩
  · intro j q₁ p₁ hj
    obtain rfl | hj := hrequest j q₁ p₁ hj
    · exact hduly
    · exact hS.duly j q₁ p₁ hj
  · intro j q₁ p₁ x l hj howes hl
    obtain ⟨_, ⟨_, rfl⟩ | ⟨hne, hg⟩⟩ := noted_eq_some hl
    · rfl
    obtain rfl | hj := hrequest j q₁ p₁ hj
    · obtain ⟨hx, _⟩ | ⟨_, hread, _⟩ := hnext x howes
      · exact absurd (hreassigned.trans (reassigns_of_changed hrun hx)) hne
      · exact (hS.owed i q _ x l hwait hread hg).trans (hsteady i q _ x hwait hread).symm
    · exact (hS.owed j q₁ p₁ x l hj howes hg).trans (hsteady j q₁ p₁ x hj howes).symm
  · intro j q₁ x config k₁ r₁ hj
    obtain hp | hj := hrequest j q₁ _ hj
    · subst hp
      obtain ⟨_, _, _, h⟩ | ⟨rfl, hread, heq⟩ := hnext x .write
      · cases h
      · have hsame := hsteady i q _ x hwait hread
        cases hread with
        | read next =>
          cases hrun
          obtain ⟨k', r', hk⟩ := next (S.store.skillsOf x)
          cases heq.trans hk
          rfl
    · exact (hS.read j q₁ x config k₁ r₁ hj).trans
        (congrArg mergeStored (hsteady j q₁ _ x hj .write).symm)
  · intro x
    by_cases howes : ∃ j q₁ p₁, (S.proceed i s' q p).requests j = some (q₁, p₁) ∧ Owes x p₁
    · exact .inr howes
    left
    intro config l hconfig hl
    obtain ⟨_, ⟨hx, rfl⟩ | ⟨hne, hg⟩⟩ := noted_eq_some hl
    · obtain hx | hmerged := configured_of_reassigns hS.whole hrun hmay hmerge
        (fun id u w user h => hok.emptied id u w user c (h ▸ htaking)) (hreassigned.symm.trans hx)
      · exact absurd ⟨i, q, p, hself, hchanged x hx⟩ howes
      · exact hmerged config hconfig
    obtain ⟨hsame, heq⟩ | ⟨config', hconfigures, hwritten⟩ := configOf_run hrun x
    · obtain hsettled | ⟨j, q₁, p₁, hj, howes₁⟩ := hS.settled x
      · exact hsettled config l (heq.symm.trans hconfig) hg
      · by_cases hij : j = i
        · subst hij
          cases hwait.symm.trans hj
          obtain ⟨config', rfl⟩ | howes₁ := hkeeps x howes₁
          · obtain ⟨config', rfl, -⟩ := setToolsConfig_eq hrun
            exact absurd rfl (hsame config')
          · exact absurd ⟨j, q, p, hself, howes₁⟩ howes
        · exact absurd ⟨j, q₁, p₁, hother j q₁ p₁ hij hj, howes₁⟩ howes
    · have hthere := hS.there x l hg
      obtain hwritten | ⟨hnone, _⟩ := hwritten
      swap
      · rw [hnone] at hthere
        cases hthere
      obtain rfl := Option.some.inj (hwritten.symm.trans hconfig)
      cases st with
      | createAgent new models skills =>
        cases hconfigures
        rw [(created_createAgent hrun).fresh] at hthere
        cases hthere
      | insertAgent new =>
        cases hconfigures
        rw [(addAgent_eq hrun).2.2.1] at hthere
        cases hthere
      | updateAgent id u write skills user =>
        obtain ⟨config, hu, h⟩ := Option.map_eq_some_iff.mp hconfigures
        cases h
        have hskills : skills.getD [] ≠ [] := by
          intro hnil
          rw [hmay.1 hnil] at hu
          cases hu
        cases skills with
        | none => exact absurd rfl hskills
        | some skills =>
          refine absurd (hreassigned.trans ?_) hne
          exact if_neg fun h => hskills h.1
      | setToolsConfig id config =>
        obtain ⟨config, rfl, -⟩ := setToolsConfig_eq hrun
        cases hconfigures
        refine ⟨l, .refl l, ?_⟩
        rw [hS.read i q x _ k r hwait, hS.owed i q _ x l hwait .write hg]
      | _ => cases hconfigures

theorem Faithful.aside (hS : Faithful S g) (hwhole : T.store.Whole)
    (hconfig : ∀ x config, T.store.configOf x = some config → S.store.configOf x = some config)
    (hsteady : ∀ j q p x, S.requests j = some (q, p) → Owes x p →
      T.store.configsOf x = S.store.configsOf x) (hnone : reassigned S a = none)
    (hrequest : ∀ j q p, T.requests j = some (q, p) → Begins p ∨ S.requests j = some (q, p))
    (hkeeps : ∀ j q p x, S.requests j = some (q, p) → Owes x p → T.requests j = some (q, p)) :
    Faithful T (noted S T a g) := by
  have hnoted : ∀ x l, noted S T a g x = some l → g x = some l := by
    intro x l hl
    obtain ⟨_, ⟨hx, _⟩ | ⟨_, hg⟩⟩ := noted_eq_some hl
    · cases hnone.symm.trans hx
    · exact hg
  refine ⟨hwhole, fun x l hl => (noted_eq_some hl).1, ?_, ?_, ?_, ?_⟩
  · intro j q p hj
    obtain hbegins | hj := hrequest j q p hj
    · exact hbegins.1
    · exact hS.duly j q p hj
  · intro j q p x l hj howes hl
    obtain hbegins | hj := hrequest j q p hj
    · exact absurd howes (hbegins.2 x)
    · exact (hS.owed j q p x l hj howes (hnoted x l hl)).trans (hsteady j q p x hj howes).symm
  · intro j q x config k r hj
    obtain hbegins | hj := hrequest j q _ hj
    · exact absurd .write (hbegins.2 x)
    · exact (hS.read j q x config k r hj).trans
        (congrArg mergeStored (hsteady j q _ x hj .write).symm)
  · intro x
    obtain hsettled | ⟨j, q, p, hj, howes⟩ := hS.settled x
    · exact .inl fun config l hx hl => hsettled config l (hconfig x config hx) (hnoted x l hl)
    · exact .inr ⟨j, q, p, hkeeps j q p x hj howes, howes⟩

theorem Faithful.fail (hS : Faithful S g) (hwait : S.requests i = some (q, .await st k r))
    (hnone : reassigned S a = none) (howes : ∀ x, ¬Owes x (.await st k r)) (e : Failure) :
    Faithful (S.proceed i S.store q (r e)) (noted S (S.proceed i S.store q (r e)) a g) := by
  apply hS.aside (T := S.proceed i S.store q (r e)) hS.whole (fun _ _ h => h)
    (fun _ _ _ _ _ _ => rfl) hnone
  · intro j q₁ p₁ hj
    rw [System.proceed_requests] at hj
    split at hj
    · cases hj
      obtain ⟨howes', hduly⟩ := (hS.duly i q _ hwait).2 e
      exact .inl ⟨hduly, howes'⟩
    · exact .inr hj
  · intro j q₁ p₁ x hj howes₁
    have hne : j ≠ i := by
      rintro rfl
      cases hwait.symm.trans hj
      exact howes x howes₁
    rwa [System.proceed_requests, if_neg hne]

theorem expected_run (hrun : Statement.run s c st = .ok (rows, s'))
    (hcloned : ∀ id, st = .selectAssigned id → s.assignedTo id = []) : Expected st rows := by
  cases st with
  | selectAssigned id =>
    cases hrun
    exact hcloned id rfl
  | _ => exact returns_run hrun

theorem config_of_around {y : Surroundings} (h : y.apply s = some s') {config : StoredConfig}
    (hx : s'.configOf x = some config) : s.configOf x = some config := by
  cases y with
  | status id value =>
    cases h
    rw [Store.configOf, Table.get?_patch_eq, Option.map_map] at hx
    rw [← hx, Store.configOf]
    congr 1
    funext agent
    simp only [Function.comp_apply]
    split <;> rfl
  | deleted id =>
    cases h
    obtain ⟨agent, hagent, rfl⟩ := Option.map_eq_some_iff.mp hx
    rw [Store.configOf, (Table.get?_of_delete hagent).1]
    rfl
  | library policies models profiles =>
    cases h
    exact hx

theorem whole_around {y : Surroundings} (hs : s.Whole) (h : y.apply s = some s') : s'.Whole := by
  cases y with
  | status id value =>
    cases h
    intro row hrow
    have hthere := hs row hrow
    rw [Store.configOf, Option.isSome_map, Table.get?_patch_eq, Option.isSome_map]
    rwa [Store.configOf, Option.isSome_map] at hthere
  | deleted id =>
    cases h
    intro row hrow
    obtain ⟨hrow, hagent⟩ := Table.mem_delete.mp hrow
    have hthere := hs row hrow
    rw [Store.configOf, Option.isSome_map] at hthere ⊢
    obtain ⟨agent, hget⟩ := Option.isSome_iff_exists.mp hthere
    have hkey := Table.key_of_get? hget
    have hkept : agent ∈ (s.agents.delete fun a => a.id = id).rows := by
      refine Table.mem_delete.mpr ⟨Table.mem_of_get? hget, ?_⟩
      rw [hkey]
      exact hagent
    rw [← hkey, Table.mem_iff_get?.mp hkept]
    rfl
  | library policies models profiles =>
    cases h
    exact hs

theorem Faithful.step (hS : Faithful S g) (hreach : service.machine.ReachableIf Orderly S)
    (hok : Orderly S a) (hstep : service.step S a = some T) : Faithful T (noted S T a g) := by
  have hsteady : ∀ j q p x, S.requests j = some (q, p) → Owes x p →
      T.store.configsOf x = S.store.configsOf x := fun j q p x hj => hok.steady T j q p x hstep hj
  cases moved_of_step hstep with
  | arrived q =>
    apply hS.aside (T := S.enter q (service.handler q)) hS.whole (fun _ _ h => h) hsteady rfl
    · intro j q₁ p hj
      rw [System.enter_requests] at hj
      split at hj
      · cases hj
        exact .inl (begins_handler q (hok.merged q rfl))
      · exact .inr hj
    · intro j q₁ p x hj _
      have hne : j ≠ S.arrivals := by
        rintro rfl
        cases (none_of_arrivals_le hreach _ (Nat.le_refl _)).symm.trans hj
      rwa [System.enter_requests, if_neg hne]
  | @answered i c q st k r rows store hwait hrun =>
    have htaking : S.taking (.resume i c : SkillMove) = some (st, c) := by simp [System.taking, hwait]
    have hexpected := expected_run (c := c) hrun fun id h => hok.cloned id c (h ▸ htaking)
    obtain ⟨hchanged, hnext, hduly⟩ := (hS.duly i q _ hwait).1 rows hexpected
    apply hS.proceed hreach hok hwait htaking hrun hstep hduly
    · intro x hx
      obtain hx | ⟨hst, hread⟩ := hnext x hx
      · exact .inl hx
      · exact .inr ⟨hst, hread, rfl⟩
    · exact hchanged
    · intro x hx
      cases hx with
      | read next =>
        obtain ⟨k', r', heq⟩ := next rows
        rw [heq]
        exact .inr .write
      | write => exact .inl ⟨_, rfl⟩
  | @refused i c q st k r e hwait hrun =>
    apply hS.fail hwait
    · rw [reassigned]
      simp only [System.taking, hwait]
      rw [show Statement.run S.store c st = .error e from hrun]
      rfl
    · intro x hx
      have hmerges := hok.merges i q _ x hwait hx
      cases hx with
      | read next => cases hrun
      | @write config =>
        rw [← hS.read i q x config _ _ hwait] at hmerges
        obtain ⟨config, rfl⟩ := Option.isSome_iff_exists.mp hmerges
        cases hrun
  | @rejected i q st k r e hwait =>
    exact hS.fail hwait rfl (fun x => hok.unbroken i e q _ x rfl hwait) e
  | @lost i c q st k r rows store e hwait hrun =>
    have htaking : S.taking (.lose i c e : SkillMove) = some (st, c) := by simp [System.taking, hwait]
    obtain ⟨hchanged, howes⟩ := hok.unlost i c e q st k r rfl hwait
    obtain ⟨hnone, hduly⟩ := (hS.duly i q _ hwait).2 e
    apply hS.proceed hreach hok hwait htaking hrun hstep hduly
    · exact fun x hx => absurd hx (hnone x)
    · intro x hx
      rw [hchanged rows] at hx
      cases hx
    · exact fun x hx => absurd hx (howes x)
  | @around y store hy =>
    exact hS.aside (whole_around hS.whole hy) (fun _ _ => config_of_around hy) hsteady rfl
      (fun _ _ _ hj => .inr hj) fun _ _ _ _ hj _ => hj

end Step

theorem Recorded.faithful {g : Uuid → Option (List StoredConfig)} (h : Recorded Orderly S g) :
    Faithful S g := by
  induction h with
  | @initial S h hwhole =>
    have hnone : ∀ {i q p}, S.requests i ≠ some (q, p) := by
      intro i q p hi
      rw [h.2.1] at hi
      cases hi
    refine ⟨hwhole, fun _ _ h => (nomatch h), fun _ _ _ h => absurd h hnone,
      fun _ _ _ _ _ h => absurd h hnone, fun _ _ _ _ _ _ h => absurd h hnone, ?_⟩
    exact fun x => .inl fun _ _ _ h => nomatch h
  | step h hok hmove ih => exact ih.step h.reachable hok hmove

def record : State → (Uuid → Option (List StoredConfig)) → List SkillMove →
    State × (Uuid → Option (List StoredConfig))
  | S, g, [] => (S, g)
  | S, g, a :: as =>
    match service.step S a with
    | some T => record T (noted S T a g) as
    | none => (S, g)

def orderlyNow (S : State) (a : SkillMove) : Bool :=
  (match a with
    | .arrive (.create ..) | .resume .. => true
    | _ => false) &&
  (List.range S.arrivals).all fun i =>
    match S.waits i with
    | none | some (.selectSkills _) | some (.createAgent ..) => true
    | _ => false

end Hill90.Skills
