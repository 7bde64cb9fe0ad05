import Hill90.Foundation.Interleaving
import Hill90.Models.Routes

/-! # Where the routes of router models lead

The routes live in JSON, without foreign keys.  In every run whose statements meet the
rows their handlers have looked at, the routes of every router model lead to connections
of the model's owner, and an active one has its default route.
-/

namespace Hill90.Models

open Chat (Uuid Failure)
open Program (Meets meets_ask meets_then meets_ite)

def RoutingConfig.Wired (connections : Table Connection.id) (owner : Owner)
    (config : RoutingConfig) : Prop :=
  ∀ r ∈ config.routes, ∃ id ∈ r.connectionId, ∃ c ∈ connections.rows,
    c.id = id.uuid ∧ c.createdBy = owner

def RoutingConfig.Keyed (config : RoutingConfig) : Prop := config.hasKey config.defaultRoute = true

/-- What holds of a router model: its routes are wired, and its default route is one of
them as long as it is active. -/
structure UserModel.Routed (connections : Table Connection.id) (m : UserModel) : Prop where
  wired : ∀ config, m.kind = .router config → config.Wired connections m.createdBy
  keyed : m.isActive = true → ∀ config, m.kind = .router config → config.Keyed

def Catalog.Routed (c : Catalog) : Prop := ∀ m ∈ c.models.rows, m.Routed c.connections

def modelService : Service Statement Statement.Rows Failure Request Response Store Choice Empty where
  fresh s := s.catalog.Routed
  handler := handle
  run := Statement.run
  environment _ x := x.elim

/-- The writes of a cascade fit the models: every router that uses the connection is
written, from the routes it still has, and names the connection as the DELETE does. -/
structure Current (models : Table UserModel.id) (id : UuidText) (writes : List CascadeWrite) :
    Prop where
  spelled : ∀ m ∈ models.rows, ∀ config, m.kind = .router config → ∀ r ∈ config.routes,
    ∀ cid ∈ r.connectionId, cid.uuid = id.uuid → cid = id
  complete : ∀ m ∈ models.rows, ∀ config, m.kind = .router config →
    config.routes.any (Route.refersTo id) = true → scrub id m.id config ∈ writes
  unchanged : ∀ w ∈ writes, ∀ m ∈ models.rows, m.id = w.model →
    ∃ config, m.kind = .router config ∧ w = scrub id m.id config

/-- When a statement takes effect, the rows are as its handler has found them: the
connections it has checked are there under the model's owner, the cascade is current, and
only a model with its default route is activated. -/
def Fits (s : Store) : Statement → Prop
  | .insertModel _ (.router config) owner => config.Wired s.catalog.connections owner
  | .updateModel id update => ∀ m ∈ s.catalog.models.rows, m.id = id.uuid →
    (∀ config, update.routingConfig = some (some config) →
      config.Wired s.catalog.connections m.createdBy) ∧
    (update.isActive = some true → update.routingConfig = none →
      ∀ config, m.kind = .router config → config.Keyed)
  | .commit id writes => Current s.catalog.models id writes
  | _ => True

abbrev ModelSystem := System Statement Statement.Rows Failure Request Response Store

def InStep (S : ModelSystem) (a : Move Failure Request Choice Empty) : Prop :=
  ∀ st c, S.taking a = some (st, c) → Fits S.store st

def validated : Discipline Statement Statement.Rows Failure Unit where
  may _
    | .insertModel _ (.router config) _ => config.Keyed
    | .updateModel _ update => ∀ config, update.routingConfig = some (some config) → config.Keyed
    | _ => True
  returns _ _ := True
  returned _ _ _ := ()
  rejected _ _ _ := ()

theorem keyed_of_validate {config : RoutingConfig} (h : validateRoutingConfig (some config) = none) :
    config.Keyed := by
  simp only [validateRoutingConfig] at h
  split at h
  · cases h
  split at h
  · cases h
  split at h
  · cases h
  split at h
  · cases h
  · rename_i hkey
    simp only [Bool.or_eq_true, not_or] at hkey
    simpa [RoutingConfig.Keyed] using hkey.2

section Meets

variable {Q : Response → Unit → Prop} {E : Failure → Unit → Prop} {m : Unit}

def Valid {α : Type} (p : Handler α) : Prop :=
  Meets validated p (fun _ _ => True) (fun _ _ => True) ()

theorem valid_pure {α : Type} (a : α) : Valid (pure a : Handler α) := trivial

theorem valid_refuse (status : ℕ) (error : String) : Valid (refuse status error) := trivial

theorem valid_ask {st : Statement} (h : validated.may () st) : Valid (ask st) :=
  ⟨h, fun _ _ => trivial, fun _ => trivial⟩

theorem valid_bind {α β : Type} {p : Handler α} {f : α → Handler β} (hp : Valid p)
    (hf : ∀ a, Valid (f a)) : Valid (p >>= f) :=
  meets_then (fun _ _ => True) hp fun a _ _ => hf a

theorem valid_tryCatch {α : Type} {p : Handler α} {h : Failure → Handler α} (hp : Valid p)
    (hh : ∀ e, Valid (h e)) : Valid (tryCatch p h) :=
  (Program.meets_tryCatch p h).mpr (hp.mono (fun _ _ h => h) fun e _ _ => hh e)

theorem valid_ite {α : Type} {c : Prop} [Decidable c] {p q : Handler α} (hp : c → Valid p)
    (hq : ¬c → Valid q) : Valid (if c then p else q) := meets_ite hp hq

theorem valid_forM {α : Type} {xs : List α} {f : α → Handler PUnit} (hf : ∀ x ∈ xs, Valid (f x)) :
    Valid (xs.forM f) :=
  (Program.meets_forM (I := fun _ => True) trivial fun x hx _ _ => hf x hx).mono
    (fun _ _ _ => trivial) fun _ _ _ => trivial

theorem valid_orTaken {name : String} {p : Handler Response} (hp : Valid p) :
    Valid (orTaken name p) := by
  apply valid_tryCatch hp
  intro e
  cases e <;> trivial

theorem valid_routesOwned (routes : List Route) (owner : Owner) : Valid (routesOwned routes owner) :=
  valid_bind (valid_ask (by trivial)) fun _ => valid_pure _

theorem valid_singleOwned (id : Option UuidText) (owner : Owner) :
    Valid (singleModelConnectionOwned id owner) := by
  cases id with
  | none => exact valid_pure _
  | some id => exact valid_bind (valid_ask (by trivial)) fun _ => valid_pure _

theorem valid_insertNamed {name : String} {kind : Kind} {owner : Owner}
    (h : ∀ config, kind = .router config → config.Keyed) :
    Valid (insertNamed name kind owner) := by
  refine valid_bind (valid_ask (by trivial)) ?_
  intro collides
  apply valid_ite <;> intro _
  · exact valid_refuse _ _
  · apply valid_orTaken
    apply valid_bind _ fun _ => valid_pure _
    apply valid_ask
    cases kind with
    | single => trivial
    | router config => exact h config rfl

theorem valid_createModel (user : User) (body : NewModel) : Valid (createModel user body) := by
  unfold createModel
  dsimp only
  apply valid_ite <;> intro _
  · exact valid_refuse _ _
  apply valid_ite <;> intro _
  · exact valid_refuse _ _
  apply valid_ite <;> intro _
  · apply valid_ite <;> intro _
    · exact valid_refuse _ _
    split
    · rename_i config hvalid hconfig
      rw [hconfig] at hvalid
      apply valid_bind (valid_routesOwned _ _)
      intro owned
      apply valid_ite <;> intro _
      · exact valid_refuse _ _
      · apply valid_insertNamed
        intro config' heq
        cases heq
        exact keyed_of_validate hvalid
    · exact valid_refuse _ _
    · exact valid_refuse _ _
  · split
    · apply valid_ite <;> intro _
      · exact valid_refuse _ _
      apply valid_ite <;> intro _
      · exact valid_refuse _ _
      apply valid_bind (valid_singleOwned _ _)
      intro owned
      apply valid_ite <;> intro _
      · exact valid_refuse _ _
      · exact valid_insertNamed (by simp)
    · exact valid_refuse _ _

/-- A PUT that passes the checks sets a validated routing, if any. -/
theorem meets_changesError (existing : ModelRow) (user : User) (b : ModelChanges) :
    Meets validated (changesError existing user b) (fun refused _ => refused = none →
      ∀ config, (b.update existing.isRouter).routingConfig = some (some config) → config.Keyed)
      (fun _ _ => True) () := by
  apply meets_then fun routing _ => routing = none →
    ∀ config, (b.update existing.isRouter).routingConfig = some (some config) → config.Keyed
  · unfold routingError
    split
    · rename_i config hrouter hconfig
      split
      · simp
      · rename_i hvalid
        apply meets_then (fun _ _ => True) (valid_routesOwned _ _)
        intro owned _ _ _ config' heq
        simp only [ModelChanges.update, hrouter, hconfig, if_true, Option.some.injEq] at heq
        rw [heq] at hvalid
        exact keyed_of_validate hvalid
    · rename_i hnone
      intro _ config heq
      simp only [ModelChanges.update] at heq
      split at heq
      · exact (hnone _ ‹_› heq).elim
      · obtain ⟨_, _, hbad⟩ := Option.map_eq_some_iff.mp heq
        cases hbad
  · intro routing _ hrouting
    apply meets_ite <;> intro hsome
    · intro hnone
      rw [hnone] at hsome
      cases hsome
    · have hkeyed := hrouting (by simpa using hsome)
      unfold connectionError
      split
      · apply meets_then (fun _ _ => True) (valid_singleOwned _ _)
        exact fun _ _ _ _ => hkeyed
      · exact fun _ => hkeyed

theorem valid_updateModel (user : User) (id : UuidText) (body : ModelChanges) :
    Valid (updateModel user id body) := by
  refine valid_bind (valid_ask (by trivial)) ?_
  rintro (_ | ⟨existing, rest⟩)
  · exact valid_refuse _ _
  apply valid_ite <;> intro _
  · exact valid_refuse _ _
  apply meets_then _ (meets_changesError existing user body)
  rintro (_ | response) _ hkeyed
  · apply valid_bind
    · unfold nameError
      split
      · exact valid_pure _
      · exact valid_bind (valid_ask (by trivial)) fun _ => valid_pure _
    rintro (_ | response)
    · apply valid_ite <;> intro _
      · exact valid_refuse _ _
      · apply valid_orTaken
        have hmay : validated.may () (.updateModel id (body.update existing.isRouter)) := hkeyed rfl
        refine valid_bind (valid_ask hmay) ?_
        intro count
        apply valid_ite <;> intro _ <;> trivial
    · exact valid_pure _
  · exact valid_pure _

theorem valid_deleteConnection (user : User) (id : UuidText) :
    Valid (deleteConnection user id) := by
  apply valid_tryCatch
  · refine valid_bind (valid_ask (by trivial)) ?_
    intro _
    refine valid_bind (valid_ask (by trivial)) ?_
    rintro (_ | ⟨owner, rest⟩)
    · exact valid_bind (valid_ask (by trivial)) fun _ => valid_refuse _ _
    · apply valid_bind
      · unfold routersOf
        split
        · exact valid_pure _
        · exact valid_ask (by trivial)
      intro routers
      apply valid_bind (valid_forM fun _ _ => valid_ask (by trivial))
      intro _
      exact valid_bind (valid_ask (by trivial)) fun _ => valid_pure _
  · intro e
    exact valid_bind (valid_tryCatch (valid_ask (by trivial)) fun _ => valid_pure _) fun _ =>
      valid_refuse _ _

theorem valid_handle (q : Request) : Valid (handle q) := by
  cases q with
  | createModel user body => exact valid_createModel user body
  | updateModel user id body => exact valid_updateModel user id body
  | deleteModel user id =>
    refine valid_bind (valid_ask (by trivial)) ?_
    intro count
    apply valid_ite <;> intro _ <;> trivial
  | createConnection user body =>
    apply valid_ite <;> intro _
    · exact valid_refuse _ _
    apply valid_ite <;> intro _
    · exact valid_refuse _ _
    · exact valid_bind (valid_ask (by trivial)) fun _ => valid_pure _
  | updateConnection user id apiBaseUrl =>
    refine valid_bind (valid_ask (by trivial)) ?_
    intro count
    apply valid_ite <;> intro _
    · exact valid_refuse _ _
    · exact valid_bind (valid_ask (by trivial)) fun _ => valid_pure _
  | deleteConnection user id => exact valid_deleteConnection user id

end Meets

section Effect

variable {s s' : Store}

theorem tables_of_setTables {α : Type} {answer answer' : α} {models : Table UserModel.id}
    {connections : Table Connection.id} {nextId : Uuid}
    (h : Store.setTables answer models connections nextId = .ok (answer', s')) :
    s'.catalog.models = models ∧ s'.catalog.connections = connections := by
  unfold Store.setTables at h
  split at h <;> cases h
  rename_i catalog hcatalog
  unfold Catalog.ofTables at hcatalog
  split at hcatalog
  · split at hcatalog <;> cases hcatalog
    exact ⟨rfl, rfl⟩
  · cases hcatalog

/-- Every connection is still there, with its owner. -/
def Keeps (connections connections' : Table Connection.id) : Prop :=
  ∀ c ∈ connections.rows, ∃ c' ∈ connections'.rows, c'.id = c.id ∧ c'.createdBy = c.createdBy

variable {connections connections' : Table Connection.id}

theorem RoutingConfig.Wired.mono {config : RoutingConfig} {owner : Owner}
    (h : config.Wired connections owner) (hkeeps : Keeps connections connections') :
    config.Wired connections' owner := by
  intro r hr
  obtain ⟨id, hid, c, hc, hcid, howner⟩ := h r hr
  obtain ⟨c', hc', hid', howner'⟩ := hkeeps c hc
  exact ⟨id, hid, c', hc', hid'.trans hcid, howner'.trans howner⟩

theorem UserModel.Routed.mono {m : UserModel} (h : m.Routed connections)
    (hkeeps : Keeps connections connections') : m.Routed connections' :=
  ⟨fun config hkind => (h.wired config hkind).mono hkeeps, h.keyed⟩

theorem Catalog.Routed.insertModel (hs : s.catalog.Routed) {name : String} {kind : Kind}
    {owner : Owner} {c : Choice} {id : Uuid} (hfits : Fits s (.insertModel name kind owner))
    (hmay : validated.may () (.insertModel name kind owner))
    (h : (Statement.insertModel name kind owner).run s c = .ok (id, s')) : s'.catalog.Routed := by
  simp only [Statement.run] at h
  split at h
  · rename_i models hinsert
    obtain ⟨hmodels, hconnections⟩ := tables_of_setTables h
    intro m hm
    rw [hmodels] at hm
    rw [hconnections]
    obtain hold | rfl := (Table.mem_of_insert hinsert).mp hm
    · exact hs m hold
    · cases kind with
      | single => exact ⟨by simp, by simp⟩
      | router config =>
        constructor
        · intro config' heq
          cases heq
          exact hfits
        · intro _ config' heq
          cases heq
          exact hmay
  · cases h

/-- The kind after an UPDATE: a routing is the one that was set, or the one that was there. -/
theorem routing_of_apply {u : ModelUpdate} {m m' : UserModel} (h : u.apply m = some m')
    {config : RoutingConfig} (hkind : m'.kind = .router config) :
    u.routingConfig = some (some config) ∨ (u.routingConfig = none ∧ m.kind = .router config) := by
  obtain ⟨f, hf, hrest⟩ := Option.bind_eq_some_iff.mp h
  obtain ⟨kind, hk, rfl⟩ := Option.map_eq_some_iff.mp hrest
  subst hkind
  have hconfig : f.isRouter = true ∧ f.routingConfig = some config := by
    unfold Fields.kind? at hk
    split at hk <;> simp_all
  have hset : f.routingConfig = u.routingConfig.getD m.kind.fields.routingConfig := by
    simp only [ModelUpdate.fields] at hf
    split at hf
    · cases hf
      rfl
    split at hf
    · split at hf <;> cases hf
      rfl
    · split at hf <;> cases hf
      cases hconfig.2
  rw [hset] at hconfig
  cases hu : u.routingConfig with
  | some set =>
    rw [hu] at hconfig
    exact .inl (by simpa using hconfig.2)
  | none =>
    rw [hu] at hconfig
    refine .inr ⟨rfl, ?_⟩
    cases hm : m.kind with
    | single => simp [hm, Kind.fields] at hconfig
    | router config' => simpa [hm, Kind.fields] using hconfig.2

theorem facts_of_apply {u : ModelUpdate} {m m' : UserModel} (h : u.apply m = some m') :
    m'.createdBy = m.createdBy ∧ m'.isActive = u.isActive.getD m.isActive := by
  obtain ⟨f, _, hrest⟩ := Option.bind_eq_some_iff.mp h
  obtain ⟨kind, _, rfl⟩ := Option.map_eq_some_iff.mp hrest
  exact ⟨rfl, rfl⟩

theorem UserModel.Routed.apply {u : ModelUpdate} {m m' : UserModel} (hm : m.Routed connections)
    (hwired : ∀ config, u.routingConfig = some (some config) → config.Wired connections m.createdBy)
    (hactive : u.isActive = some true → u.routingConfig = none →
      ∀ config, m.kind = .router config → config.Keyed)
    (hmay : ∀ config, u.routingConfig = some (some config) → config.Keyed)
    (h : u.apply m = some m') : m'.Routed connections := by
  obtain ⟨howner, hisActive⟩ := facts_of_apply h
  constructor
  · intro config hkind
    rw [howner]
    obtain hset | ⟨_, hold⟩ := routing_of_apply h hkind
    · exact hwired config hset
    · exact hm.wired config hold
  · intro htrue config hkind
    obtain hset | ⟨hnone, hold⟩ := routing_of_apply h hkind
    · exact hmay config hset
    · rw [hisActive] at htrue
      cases hu : u.isActive with
      | none =>
        rw [hu] at htrue
        exact hm.keyed htrue config hold
      | some active =>
        rw [hu] at htrue
        have htrue : active = true := htrue
        subst htrue
        exact hactive hu hnone config hold

theorem Catalog.Routed.updateModel (hs : s.catalog.Routed) {id : UuidText} {u : ModelUpdate}
    {c : Choice} {count : ℕ} (hfits : Fits s (.updateModel id u))
    (hmay : validated.may () (.updateModel id u))
    (h : (Statement.updateModel id u).run s c = .ok (count, s')) : s'.catalog.Routed := by
  simp only [Statement.run] at h
  split at h
  · rename_i hall
    obtain ⟨hmodels, hconnections⟩ := tables_of_setTables h
    intro m' hm'
    rw [hmodels] at hm'
    rw [hconnections]
    obtain ⟨m, hm, ⟨_, rfl⟩ | ⟨hid, _, _, _, rfl⟩⟩ := Table.mem_patch hm'
    · exact hs m' hm
    · have hid : m.id = id.uuid := of_decide_eq_true hid
      have happly := List.all_eq_true.mp hall m hm
      simp only [hid, ne_eq, not_true_eq_false, decide_false, Bool.false_or] at happly
      obtain ⟨m', hm'⟩ := Option.isSome_iff_exists.mp happly
      rw [hm']
      obtain ⟨hwired, hactive⟩ := hfits m hm hid
      exact (hs m hm).apply hwired hactive hmay hm'
  · cases h

section Cascade

variable {id : UuidText} {models : Table UserModel.id} {writes : List CascadeWrite}

/-- A router model without the routes to a connection. -/
def UserModel.without (id : UuidText) (config : RoutingConfig) (m : UserModel) : UserModel :=
  let routes := config.routes.filter fun r => !r.refersTo id
  { m with
    kind := .router { config with routes }
    isActive := m.isActive && routes.any fun r => r.key = some config.defaultRoute }

theorem without_without {config : RoutingConfig} {m : UserModel} :
    (m.without id config).without id config = m.without id config := by
  simp [UserModel.without]

theorem mem_setRouting {model : Uuid} {config : RoutingConfig} {deactivate : Bool} {m' : UserModel}
    (h : m' ∈ ((CascadeWrite.setRouting model config deactivate).run models).rows) :
    ∃ m ∈ models.rows, (m.id ≠ model ∧ m' = m) ∨ (m.id = model ∧
      m' = { m with kind := .router config, isActive := m.isActive && !deactivate }) := by
  obtain ⟨m, hm, ⟨hne, rfl⟩ | ⟨heq, _, _, _, rfl⟩⟩ := Table.mem_patchRows h
  · exact ⟨m', hm, .inl ⟨by simpa using hne, rfl⟩⟩
  · exact ⟨m, hm, .inr ⟨of_decide_eq_true heq, rfl⟩⟩

theorem mem_run_of_scrub {config : RoutingConfig} {model : Uuid} {m' : UserModel}
    (h : m' ∈ ((scrub id model config).run models).rows) :
    ∃ m ∈ models.rows, (m.id ≠ model ∧ m' = m) ∨ (m.id = model ∧ m' = m.without id config) := by
  unfold scrub at h
  dsimp only at h
  split at h
  · obtain ⟨hm, hne⟩ := Table.mem_delete.mp h
    exact ⟨m', hm, .inl ⟨by simpa using hne, rfl⟩⟩
  · obtain ⟨m, hm, hold | ⟨heq, rfl⟩⟩ := mem_setRouting h
    · exact ⟨m, hm, .inl hold⟩
    · exact ⟨m, hm, .inr ⟨heq, by simp [UserModel.without]⟩⟩

/-- How far the cascade has come with a row: not written yet, or written from the routes it
had. -/
def Cascading (models : Table UserModel.id) (id : UuidText) (done : List CascadeWrite)
    (m' : UserModel) : Prop :=
  ∃ m ∈ models.rows, (m' = m ∧ ∀ w ∈ done, w.model ≠ m.id) ∨
    ∃ config, m.kind = .router config ∧ m' = m.without id config

theorem model_scrub (model : Uuid) (config : RoutingConfig) : (scrub id model config).model = model := by
  unfold scrub
  dsimp only
  split <;> rfl

theorem cascading_step {now : Table UserModel.id} {done : List CascadeWrite} {w : CascadeWrite}
    (hw : ∀ m ∈ models.rows, m.id = w.model → ∃ config, m.kind = .router config ∧
      w = scrub id m.id config)
    (hnow : ∀ m ∈ now.rows, Cascading models id done m) :
    ∀ m ∈ (w.run now).rows, Cascading models id (done ++ [w]) m := by
  intro m' hm'
  by_cases hany : ∃ m ∈ models.rows, m.id = w.model
  · obtain ⟨m₀, hm₀, hid₀⟩ := hany
    obtain ⟨config, hkind, rfl⟩ := hw m₀ hm₀ hid₀
    obtain ⟨m₁, hm₁, ⟨hne, rfl⟩ | ⟨heq, rfl⟩⟩ := mem_run_of_scrub hm'
    · obtain ⟨m, hm, ⟨rfl, hdone⟩ | hwritten⟩ := hnow m' hm₁
      · refine ⟨m', hm, .inl ⟨rfl, fun w' hw' => ?_⟩⟩
        obtain hold | hlast := List.mem_append.mp hw'
        · exact hdone w' hold
        · rw [List.mem_singleton.mp hlast, model_scrub]
          exact fun h => hne h.symm
      · exact ⟨m, hm, .inr hwritten⟩
    · obtain ⟨m, hm, ⟨rfl, _⟩ | ⟨config', hkind', rfl⟩⟩ := hnow m₁ hm₁
      · have hsame : m₁ = m₀ := models.eq_of_key_eq hm hm₀ heq
        subst hsame
        exact ⟨m₁, hm, .inr ⟨config, hkind, rfl⟩⟩
      · have hsame : m = m₀ := models.eq_of_key_eq hm hm₀ heq
        subst hsame
        cases hkind.symm.trans hkind'
        exact ⟨m, hm, .inr ⟨config, hkind, without_without⟩⟩
  · have hnone : ∀ m ∈ models.rows, m.id ≠ w.model := fun m hm heq => hany ⟨m, hm, heq⟩
    have hold : m' ∈ now.rows ∨ ∃ m ∈ now.rows, m.id = w.model := by
      cases w with
      | deleteModel model => exact .inl (Table.mem_delete.mp hm').1
      | setRouting model config deactivate =>
        obtain ⟨m, hm, ⟨_, rfl⟩ | ⟨heq, _⟩⟩ := mem_setRouting hm'
        · exact .inl hm
        · exact .inr ⟨m, hm, heq⟩
    obtain hold | ⟨m₁, hm₁, heq⟩ := hold
    · obtain ⟨m, hm, ⟨rfl, hdone⟩ | hwritten⟩ := hnow m' hold
      · refine ⟨m', hm, .inl ⟨rfl, fun w' hw' => ?_⟩⟩
        obtain hold | hlast := List.mem_append.mp hw'
        · exact hdone w' hold
        · rw [List.mem_singleton.mp hlast]
          exact fun h => hnone m' hm h.symm
      · exact ⟨m, hm, .inr hwritten⟩
    · obtain ⟨m, hm, ⟨rfl, _⟩ | ⟨_, _, rfl⟩⟩ := hnow m₁ hm₁
      · exact (hnone m₁ hm heq).elim
      · exact (hnone m hm heq).elim

theorem cascading_fold {now : Table UserModel.id} (hcurrent : ∀ w ∈ writes, ∀ m ∈ models.rows,
      m.id = w.model → ∃ config, m.kind = .router config ∧ w = scrub id m.id config)
    {done : List CascadeWrite} (hnow : ∀ m ∈ now.rows, Cascading models id done m) :
    ∀ m ∈ (writes.foldl CascadeWrite.run now).rows, Cascading models id (done ++ writes) m := by
  induction writes generalizing now done with
  | nil => simpa using hnow
  | cons w writes ih =>
    have hstep := cascading_step (hcurrent w (by simp)) hnow
    have hrest := ih (fun w' hw' => hcurrent w' (List.mem_cons_of_mem w hw')) hstep
    simpa using hrest

/-- Without the routes to a connection that is gone, the routes lead to what is left. -/
theorem wired_without {config : RoutingConfig} {owner : Owner}
    (h : config.Wired connections owner)
    (hspelled : ∀ r ∈ config.routes, ∀ cid ∈ r.connectionId, cid.uuid = id.uuid → cid = id) :
    RoutingConfig.Wired (connections.delete fun c => c.id = id.uuid) owner
      { config with routes := config.routes.filter fun r => !r.refersTo id } := by
  intro r hr
  obtain ⟨hr, hrefers⟩ := List.mem_filter.mp hr
  obtain ⟨cid, hcid, c, hc, huuid, howner⟩ := h r hr
  refine ⟨cid, hcid, c, Table.mem_delete.mpr ⟨hc, ?_⟩, huuid, howner⟩
  rw [decide_eq_false_iff_not]
  intro hgone
  have hsame : cid = id := hspelled r hr cid hcid (huuid.symm.trans hgone)
  subst hsame
  have hsome : r.connectionId = some cid := hcid
  simp [Route.refersTo, hsome] at hrefers

theorem Catalog.Routed.commit (hs : s.catalog.Routed) {c : Choice}
    (hfits : Current s.catalog.models id writes)
    (h : (Statement.commit id writes).run s c = .ok ((), s')) : s'.catalog.Routed := by
  simp only [Statement.run] at h
  split at h
  · obtain ⟨hmodels, hconnections⟩ := tables_of_setTables h
    intro m' hm'
    rw [hmodels] at hm'
    rw [hconnections]
    have hstart (gone : UserModel → Bool) : ∀ m ∈ (s.catalog.models.delete gone).rows,
        Cascading s.catalog.models id [] m := fun m hm =>
      ⟨m, (Table.mem_delete.mp hm).1, .inl ⟨rfl, by simp⟩⟩
    obtain ⟨m, hm, ⟨rfl, hdone⟩ | ⟨config, hkind, rfl⟩⟩ :=
      cascading_fold hfits.unchanged (hstart _) m' hm'
    · have hunused : ∀ config, m'.kind = .router config → ∀ r ∈ config.routes,
          r.refersTo id = false := by
        intro config hkind r hr
        cases hrefers : r.refersTo id with
        | false => rfl
        | true =>
          have hwrite := hfits.complete m' hm config hkind
            (List.any_eq_true.mpr ⟨r, hr, hrefers⟩)
          exact (hdone _ (by simpa using hwrite) (model_scrub _ _)).elim
      constructor
      · intro config hkind
        have hwired := wired_without ((hs m' hm).wired config hkind)
          fun r hr cid hcid => hfits.spelled m' hm config hkind r hr cid hcid
        have hfilter : (config.routes.filter fun r => !r.refersTo id) = config.routes :=
          List.filter_eq_self.mpr fun r hr => by rw [hunused config hkind r hr]; rfl
        rwa [hfilter] at hwired
      · exact (hs m' hm).keyed
    · constructor
      · intro config' heq
        cases heq
        exact wired_without ((hs m hm).wired config hkind)
          fun r hr cid hcid => hfits.spelled m hm config hkind r hr cid hcid
      · intro hactive config' heq
        cases heq
        exact (Bool.and_eq_true_iff.mp hactive).2
  · cases h

end Cascade

theorem Catalog.Routed.run (hs : s.catalog.Routed) {st : Statement} {c : Choice} {rows : st.Rows}
    (hfits : Fits s st) (hmay : validated.may () st) (h : st.run s c = .ok (rows, s')) :
    s'.catalog.Routed := by
  cases st with
  | insertModel name kind owner => exact hs.insertModel hfits hmay h
  | updateModel id u => exact hs.updateModel hfits hmay h
  | commit id writes => exact hs.commit hfits h
  | deleteModel id user admin =>
    obtain ⟨hmodels, hconnections⟩ := tables_of_setTables h
    intro m hm
    rw [hmodels] at hm
    rw [hconnections]
    exact hs m (Table.mem_delete.mp hm).1
  | insertConnection createdBy apiKeyEncrypted apiKeyNonce apiBaseUrl =>
    simp only [Statement.run] at h
    split at h
    · rename_i connections hinsert
      obtain ⟨hmodels, hconnections⟩ := tables_of_setTables h
      intro m hm
      rw [hmodels] at hm
      rw [hconnections]
      exact (hs m hm).mono fun c hc => ⟨c, (Table.mem_of_insert hinsert).mpr (.inl hc), rfl, rfl⟩
    · cases h
  | updateConnection id apiBaseUrl =>
    obtain ⟨hmodels, hconnections⟩ := tables_of_setTables h
    intro m hm
    rw [hmodels] at hm
    rw [hconnections]
    apply (hs m hm).mono
    intro c hc
    have hkey : ∀ (_ : ℕ) (c : Connection), { c with apiBaseUrl }.id = c.id := fun _ _ => rfl
    obtain ⟨c', hc', hid⟩ := Table.exists_of_mem_patch (p := fun c => c.id = id.uuid) hkey hc
    obtain ⟨c₀, hc₀, ⟨_, rfl⟩ | ⟨_, _, _, _, rfl⟩⟩ := Table.mem_patchRows hc'
    · exact ⟨c', hc', hid, by rw [Table.eq_of_key_eq hc₀ hc hid]⟩
    · have hsame : c₀ = c := Table.eq_of_key_eq hc₀ hc hid
      subst hsame
      exact ⟨_, hc', rfl, rfl⟩
  | _ =>
    cases h
    exact hs

end Effect

theorem guards_routing :
    modelService.Guards validated InStep (fun _ => ()) (fun _ _ _ => True) (fun _ _ => True)
      (fun s => s.catalog.Routed) fun _ _ => True where
  handler := valid_handle
  fresh _ h := h
  arrive _ _ _ := trivial
  fail _ _ _ _ _ _ := trivial
  effect _ _ st c _ _ _ _ hok htaking hmay hs _ h :=
    ⟨hs.run (hok st c htaking) hmay h, fun _ _ _ _ _ _ _ => trivial, trivial, trivial⟩
  around _ x := x.elim

/-- In every run whose statements are in step, the routes of every router model lead to
connections of its owner, and an active one has its default route. -/
theorem routers_routed {S : ModelSystem} (h : modelService.machine.ReachableIf InStep S) :
    ∀ m ∈ S.store.catalog.models.rows, m.Routed S.store.catalog.connections :=
  (guards_routing.reachable h).1

def RoutingConfig.wired (config : RoutingConfig) (connections : Table Connection.id)
    (owner : Owner) : Bool :=
  config.routes.all fun r => r.connectionId.any fun id =>
    connections.rows.any fun c => c.id = id.uuid && c.createdBy = owner

/-- The check of one model against the writes of a cascade. -/
def UserModel.current (id : UuidText) (writes : List CascadeWrite) (m : UserModel) : Bool :=
  match m.kind with
  | .single .. => writes.all fun w => w.model ≠ m.id
  | .router config =>
    (config.routes.all fun r => r.connectionId.all fun cid => cid.uuid ≠ id.uuid || cid = id) &&
      (!config.routes.any (Route.refersTo id) || scrub id m.id config ∈ writes) &&
      writes.all fun w => w.model ≠ m.id || w = scrub id m.id config

def fits (s : Store) : Statement → Bool
  | .insertModel _ (.router config) owner => config.wired s.catalog.connections owner
  | .updateModel .. => false
  | .commit id writes => s.catalog.models.rows.all (UserModel.current id writes)
  | _ => true

theorem wired_spec {config : RoutingConfig} {connections : Table Connection.id} {owner : Owner}
    (h : config.wired connections owner = true) : config.Wired connections owner := by
  intro r hr
  have hr := List.all_eq_true.mp h r hr
  obtain ⟨id, hid, hany⟩ := (Option.any_eq_true _ _).mp hr
  obtain ⟨c, hc, hboth⟩ := List.any_eq_true.mp hany
  simp only [Bool.and_eq_true, decide_eq_true_eq] at hboth
  exact ⟨id, hid, c, hc, hboth.1, hboth.2⟩

theorem current_spec {models : Table UserModel.id} {id : UuidText} {writes : List CascadeWrite}
    (h : models.rows.all (UserModel.current id writes) = true) : Current models id writes := by
  have hrow : ∀ m ∈ models.rows, ∀ config, m.kind = .router config →
      (∀ r ∈ config.routes, ∀ cid ∈ r.connectionId, cid.uuid = id.uuid → cid = id) ∧
      (config.routes.any (Route.refersTo id) = true → scrub id m.id config ∈ writes) ∧
      ∀ w ∈ writes, w.model = m.id → w = scrub id m.id config := by
    intro m hm config hkind
    have hm := List.all_eq_true.mp h m hm
    simp only [UserModel.current, hkind, Bool.and_eq_true, Bool.or_eq_true, List.all_eq_true,
      Bool.not_eq_true', decide_eq_true_eq, decide_not] at hm
    obtain ⟨⟨hspelled, hcomplete⟩, hunchanged⟩ := hm
    refine ⟨fun r hr cid hcid huuid => ?_, fun hany => ?_, fun w hw hmodel => ?_⟩
    · have hcid' : r.connectionId = some cid := hcid
      have hr := hspelled r hr
      simpa [hcid', huuid] using hr
    · obtain hnone | hmem := hcomplete
      · rw [hany] at hnone
        cases hnone
      · exact hmem
    · obtain hne | heq := hunchanged w hw
      · simp [hmodel] at hne
      · exact heq
  constructor
  · exact fun m hm config hkind => (hrow m hm config hkind).1
  · exact fun m hm config hkind => (hrow m hm config hkind).2.1
  · intro w hw m hm hmodel
    cases hkind : m.kind with
    | single connectionId litellm =>
      have hm := List.all_eq_true.mp h m hm
      simp only [UserModel.current, hkind, List.all_eq_true] at hm
      simpa [hmodel] using hm w hw
    | router config => exact ⟨config, rfl, (hrow m hm config hkind).2.2 w hw hmodel.symm⟩

theorem fits_spec {s : Store} {st : Statement} (h : fits s st = true) : Fits s st := by
  unfold fits at h
  split at h
  · exact wired_spec h
  · cases h
  · exact current_spec h
  · unfold Fits
    split <;> simp_all

def inStep (S : ModelSystem) (a : Move Failure Request Choice Empty) : Bool :=
  match S.taking a with
  | some (st, _) => fits S.store st
  | none => true

theorem inStep_spec {S : ModelSystem} {a : Move Failure Request Choice Empty}
    (h : inStep S a = true) : InStep S a := by
  intro st c htaking
  rw [inStep, htaking] at h
  exact fits_spec h

def emptyCatalog : Catalog := ⟨Table.empty, Table.empty, by simp [Table.empty], by simp [Table.empty]⟩

def sampleSystem : ModelSystem := ⟨⟨emptyCatalog, 0⟩, fun _ => none, 0⟩

theorem sample_fresh : modelService.machine.initial sampleSystem :=
  ⟨by simp [modelService, sampleSystem, emptyCatalog, Table.empty, Catalog.Routed], rfl, rfl⟩

def sampleRoute (key : String) (connection : Uuid) : Route :=
  { key := some key, connectionId := some ⟨connection, 0⟩, litellmModel := some "openai/gpt-4o" }

/-- Two connections, a router model over both, and the first connection deleted. -/
def scrubbed : List (Move Failure Request Choice Empty) :=
  [.arrive (.createConnection ⟨"ada", false⟩ {}), .resume 0 {},
    .arrive (.createConnection ⟨"ada", false⟩ {}), .resume 1 {},
    .arrive (.createModel ⟨"ada", false⟩ ⟨some "both", true, none, none,
      some ⟨"fallback", "b", [sampleRoute "a" 0, sampleRoute "b" 1]⟩, false⟩),
    .resume 2 {}, .resume 2 {}, .resume 2 {},
    .arrive (.deleteConnection ⟨"ada", false⟩ ⟨0, 0⟩),
    .resume 3 {}, .resume 3 {}, .resume 3 {}, .resume 3 {}, .resume 3 {}]

theorem routers_routed_sample :
    let S := modelService.machine.after sampleSystem scrubbed
    ∀ m ∈ S.store.catalog.models.rows, m.Routed S.store.catalog.connections :=
  routers_routed ⟨sampleSystem, scrubbed, sample_fresh,
    Machine.runIf_of_accepts (I := fun _ => True) (fun _ _ _ h => inStep_spec h)
      (fun _ _ _ _ _ _ => trivial) trivial (by decide +kernel)⟩

/-- The platform's connection goes, and the platform's router model over it stays. -/
def platformDelete : List (Move Failure Request Choice Empty) :=
  [.arrive (.createConnection ⟨"root", true⟩ { platform := true }), .resume 0 {},
    .arrive (.createModel ⟨"root", true⟩ ⟨some "fleet", true, none, none,
      some ⟨"fallback", "a", [sampleRoute "a" 0]⟩, true⟩),
    .resume 1 {}, .resume 1 {}, .resume 1 {},
    .arrive (.deleteConnection ⟨"root", true⟩ ⟨0, 0⟩),
    .resume 2 {}, .resume 2 {}, .resume 2 {}]

theorem platform_router_dangles :
    ∃ S, modelService.machine.Reachable S ∧ S.Idle ∧
      ∃ m ∈ S.store.catalog.models.rows, m.isActive = true ∧
        ¬m.Routed S.store.catalog.connections := by
  have hreach : modelService.machine.Reachable
      (modelService.machine.after sampleSystem platformDelete) :=
    ⟨sampleSystem, platformDelete, sample_fresh, Machine.run_after (by decide +kernel)⟩
  refine ⟨_, hreach, Service.idle_of_ended hreach (by decide +kernel),
    ⟨1, "fleet", .router ⟨"fallback", "a", [sampleRoute "a" 0]⟩, true, none⟩, by decide +kernel, rfl, ?_⟩
  intro hrouted
  obtain ⟨id, hid, c, hc, _⟩ := hrouted.wired _ rfl (sampleRoute "a" 0) (by simp)
  have hgone : (modelService.machine.after sampleSystem platformDelete).store.catalog.connections.rows =
      [] := by decide +kernel
  rw [hgone] at hc
  cases hc

end Hill90.Models
