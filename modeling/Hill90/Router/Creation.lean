import Hill90.Foundation.Fate
import Hill90.Router.Conduct

/-! # Delegations that are created whole

`create_delegation_endpoint` inserts a row, has a token signed and writes the token's `jti` into
the row.  Which failures of these steps leave a row behind an error?
-/

namespace Hill90.Router

open Program
open Policies (AgentPolicy)

def Delegation.usable (d : Delegation) (now : ℚ) : Bool :=
  d.revokedAt.isNone && decide (⌊now⌋ < d.expiresAt)

/-- How the steps of a creation come back; no step is taken twice. -/
structure Fates where
  assigned : Outcome Choice Failure := .answered {}
  fallback : Outcome Choice Failure := .answered {}
  insert : Outcome Choice Failure := .answered {}
  sign : Outcome Choice Failure := .answered {}
  cleanup : Outcome Choice Failure := .answered {}
  update : Outcome Choice Failure := .answered {}

def Fates.of (f : Fates) : Statement → Outcome Choice Failure
  | .selectAssigned _ => f.assigned
  | .selectDefault => f.fallback
  | .insertDelegation _ => f.insert
  | .signToken .. => f.sign
  | .deleteDelegation _ => f.cleanup
  | .updateChildJti .. => f.update
  | _ => .answered {}

def Offers (f : Fates) (s : Store) (identity : Payload) (body : DelegateRequest)
    (d : Delegation) : Prop :=
  identity.isDelegation = false ∧
    ∃ parent, (resolveAgentPolicy identity.sub).against Statement.run f.of s = (.ok parent, s) ∧
      validateNarrowing parent (body.allowedModels.map fun m => resolveAlias m parent)
        body.maxRequestsPerMinute body.maxTokensPerDay = [] ∧
      d = pendingDelegation identity body (body.allowedModels.map fun m => resolveAlias m parent)
        s.nextId

/-- There is a client to call the API with, and a token that is signed is written into the row,
and a row without one is deleted. -/
def Completed (cfg : Config) (f : Fates) : Prop :=
  cfg.httpClient = true ∧
    match f.sign with
    | .failed e | .lost _ e => e.isException = true ∧ f.cleanup.takesEffect = true
    | .answered c =>
      match c.sign with
      | .signed => f.update.isAnswered = true
      | .refused _ | .malformed => f.cleanup.takesEffect = true

/-- The insertion fails without an effect, or it is answered and its row is seen to. -/
def Settled (cfg : Config) (f : Fates) : Prop :=
  match f.insert with
  | .failed _ => True
  | .lost .. => False
  | .answered _ => Completed cfg f

/-- What a creation that came back so should have done to the delegations. -/
def AllOrNothing (s t : Store) : Except Failure Response → Prop
  | .error _ => ∀ d ∈ t.delegations.rows, d.usable t.now = true → d ∈ s.delegations.rows
  | .ok (.delegated token id _) => ∃ d ∈ t.delegations.rows, d.id = id ∧ d.childJti = token.jti
  | .ok _ => False

variable {cfg : Config} {f : Fates} {s t : Store} {d : Delegation}

theorem settle_reads {st : Statement} (hst : st = .selectDefault ∨ ∃ a, st = .selectAssigned a)
    (o : Outcome Choice Failure) : (o.settle Statement.run s st).2 = s := by
  obtain rfl | ⟨a, rfl⟩ := hst <;> cases o <;> rfl

theorem store_of_resolve (agentId : String) :
    ((resolveAgentPolicy agentId).against Statement.run f.of s).2 = s := by
  have honly : Only (fun st => st = .selectDefault ∨ ∃ a, st = .selectAssigned a)
      (resolveAgentPolicy agentId) := by
    refine ⟨.inr ⟨_, rfl⟩, fun own => ?_, fun _ => trivial⟩
    cases own with
    | some p => trivial
    | none => exact ⟨.inl rfl, fun _ => trivial, fun _ => trivial⟩
  exact honly.store_of_against fun st hst => settle_reads hst _

variable (cfg f s) in
theorem create_cases (identity : Payload) (body : DelegateRequest) :
    ((∀ d, ¬Offers f s identity body d) ∧
      ∃ e, (createDelegationEndpoint cfg identity body).against Statement.run f.of s = (.error e, s)) ∨
    ∃ d, Offers f s identity body d ∧
      (createDelegationEndpoint cfg identity body).against Statement.run f.of s =
        (ask (.insertDelegation d) >>= fun _ => signChild cfg d).against Statement.run f.of
          { s with nextId := s.nextId + 1 } := by
  unfold createDelegationEndpoint
  cases hparent : identity.isDelegation with
  | true => exact .inl ⟨fun d hd => by simp [Offers, hparent] at hd, _, rfl⟩
  | false =>
    have hstore : ((resolveAgentPolicy identity.sub).against Statement.run f.of s).2 = s :=
      store_of_resolve identity.sub
    simp only [Bool.false_eq_true, if_false]
    rw [against_bind]
    cases hresolve : (resolveAgentPolicy identity.sub).against Statement.run f.of s with
    | mk result u =>
    rw [hresolve] at hstore
    cases hstore
    cases result with
    | error e =>
      refine .inl ⟨fun d hd => ?_, e, rfl⟩
      obtain ⟨_, parent, hok, _⟩ := hd
      rw [hresolve] at hok
      cases hok
    | ok parent =>
      cases hnarrow : validateNarrowing parent (body.allowedModels.map fun m => resolveAlias m parent)
          body.maxRequestsPerMinute body.maxTokensPerDay with
      | nil =>
        refine .inr ⟨_, ⟨hparent, parent, hresolve, hnarrow, rfl⟩, ?_⟩
        simp only [hnarrow]
        rfl
      | cons v violations =>
        refine .inl ⟨fun d hd => ?_, ?_⟩
        · obtain ⟨_, parent', hok, hnone, _⟩ := hd
          rw [hresolve] at hok
          cases hok
          rw [hnarrow] at hnone
          cases hnone
        · simp only [hnarrow]
          exact ⟨_, rfl⟩

/-- The row with this `id` is still there, as usable as it was, and no other row has come. -/
structure Remains (d : Delegation) (s u : Store) : Prop where
  row : ∃ r ∈ u.delegations.rows,
    r.id = d.id ∧ r.revokedAt = d.revokedAt ∧ r.expiresAt = d.expiresAt
  others : ∀ r ∈ u.delegations.rows,
    r ∈ s.delegations.rows ∧ r.id ≠ d.id ∨ r.expiresAt = d.expiresAt

theorem remains_self {u : Store} (hd : d ∈ s.delegations.rows) (hu : u.delegations = s.delegations) :
    Remains d s u := by
  rw [← hu] at hd
  refine ⟨⟨d, hd, rfl, rfl, rfl⟩, fun r hr => ?_⟩
  by_cases hid : r.id = d.id
  · exact .inr (by rw [Table.eq_of_key_eq hr hd hid])
  · exact .inl ⟨hu ▸ hr, hid⟩

theorem mem_of_update {u : Store} (hd : d ∈ s.delegations.rows) (hu : u.delegations = s.delegations)
    (childJti : String) : { d with childJti } ∈ (u.rewriteDelegation (fun r => r.id = d.id)
      (fun r => { r with childJti }) fun _ => rfl).delegations.rows := by
  obtain ⟨i, hi⟩ := Table.mem_patch_of_mem (p := fun r : Delegation => decide (r.id = d.id))
    (f := fun _ r => { r with childJti }) (n := 0) (fun _ _ => rfl) (hu ▸ hd)
  rwa [decide_eq_true rfl, if_pos rfl] at hi

theorem remains_update {u : Store} (hd : d ∈ s.delegations.rows) (hu : u.delegations = s.delegations)
    (childJti : String) : Remains d s (u.rewriteDelegation (fun r => r.id = d.id)
      (fun r => { r with childJti }) fun _ => rfl) := by
  refine ⟨⟨_, mem_of_update hd hu childJti, rfl, rfl, rfl⟩, fun r hr => ?_⟩
  have hr : r ∈ (u.delegations.patch (fun r => decide (r.id = d.id))
      (fun _ r => { r with childJti }) 0 fun _ _ => rfl).rows := hr
  obtain ⟨r', hr', ⟨hid, rfl⟩ | ⟨hid, _, _, _, rfl⟩⟩ := Table.mem_patch hr
  · exact .inl ⟨hu ▸ hr', of_decide_eq_false hid⟩
  · rw [hu] at hr'
    exact .inr (by rw [Table.eq_of_key_eq hr' hd (of_decide_eq_true hid)])

theorem abandon_against (id : Chat.Uuid) :
    ∃ e, (abandon id).against Statement.run f.of s = (.error e,
      if f.cleanup.takesEffect then
        { s with delegations := s.delegations.delete fun d => d.id = id }
      else s) := by
  unfold abandon catchException
  cases hcleanup : f.cleanup with
  | answered c =>
    refine ⟨.http 502 "Failed to sign delegation token", ?_⟩
    simp [against_bind, against_tryCatch, ask, Fates.of, hcleanup, Outcome.settle, Statement.run,
      Outcome.takesEffect]
  | failed e =>
    cases he : e.isException with
    | true =>
      refine ⟨.http 502 "Failed to sign delegation token", ?_⟩
      simp [against_bind, against_tryCatch, ask, Fates.of, hcleanup, Outcome.settle, he,
        Outcome.takesEffect]
    | false =>
      refine ⟨e, ?_⟩
      simp [against_bind, against_tryCatch, ask, Fates.of, hcleanup, Outcome.settle, he,
        Outcome.takesEffect]
  | lost c e =>
    cases he : e.isException with
    | true =>
      refine ⟨.http 502 "Failed to sign delegation token", ?_⟩
      simp [against_bind, against_tryCatch, ask, Fates.of, hcleanup, Outcome.settle, he,
        Statement.run, Outcome.takesEffect]
    | false =>
      refine ⟨e, ?_⟩
      simp [against_bind, against_tryCatch, ask, Fates.of, hcleanup, Outcome.settle, he,
        Statement.run, Outcome.takesEffect]

theorem abandon_cases (hd : d ∈ s.delegations.rows) :
    ∃ e u, (abandon d.id).against Statement.run f.of s = (.error e, u) ∧ u.now = s.now ∧
      (f.cleanup.takesEffect = true → ∀ r ∈ u.delegations.rows, r ∈ s.delegations.rows ∧ r.id ≠ d.id) ∧
      (f.cleanup.takesEffect = false → Remains d s u) := by
  obtain ⟨e, he⟩ := abandon_against (f := f) (s := s) d.id
  cases heffect : f.cleanup.takesEffect with
  | true =>
    rw [heffect, if_pos rfl] at he
    refine ⟨e, _, he, rfl, fun _ r hr => ?_, by simp⟩
    obtain ⟨hmem, hid⟩ := Table.mem_delete.mp hr
    exact ⟨hmem, by simpa using hid⟩
  | false =>
    rw [heffect] at he
    exact ⟨e, s, he, rfl, by simp, fun _ => remains_self hd rfl⟩

inductive Followed (cfg : Config) (f : Fates) (d : Delegation) (s : Store) :
    Except Failure Response × Store → Prop where
  | delegated {token : Payload} {u : Store} (completed : Completed cfg f)
      (written : ∃ r ∈ u.delegations.rows, r.id = d.id ∧ r.childJti = token.jti) :
    Followed cfg f d s (.ok (.delegated token d.id d.expiresAt), u)
  | undone {e : Failure} {u : Store} (completed : Completed cfg f)
      (gone : ∀ r ∈ u.delegations.rows, r ∈ s.delegations.rows ∧ r.id ≠ d.id) :
    Followed cfg f d s (.error e, u)
  | stranded {e : Failure} {u : Store} (broken : ¬Completed cfg f) (now : u.now = s.now)
      (remains : Remains d s u) : Followed cfg f d s (.error e, u)

theorem followed_of_abandon (hd : d ∈ s.delegations.rows) {s' : Store}
    (hs : s'.delegations = s.delegations ∧ s'.now = s.now)
    (hiff : Completed cfg f ↔ f.cleanup.takesEffect = true) :
    Followed cfg f d s ((abandon d.id).against Statement.run f.of s') := by
  obtain ⟨e, u, he, hnow, hgone, hremains⟩ := abandon_cases (f := f) (s := s') (hs.1 ▸ hd)
  rw [he]
  cases heffect : f.cleanup.takesEffect with
  | true => exact .undone (hiff.mpr heffect) (hs.1 ▸ hgone heffect)
  | false =>
    refine .stranded (fun h => ?_) (hnow.trans hs.2) ⟨(hremains heffect).row, ?_⟩
    · rw [hiff.mp h] at heffect
      cases heffect
    · exact hs.1 ▸ (hremains heffect).others

theorem attempt_against (st : Statement) :
    (attempt st).against Statement.run f.of s =
      (.ok ((f.of st).settle Statement.run s st).1, ((f.of st).settle Statement.run s st).2) := by
  have hmap : (Except.ok <$> ask st : Handler (Except Failure st.Rows)) =
      ask st >>= fun rows => pure (Except.ok rows) := rfl
  rw [attempt, hmap, against_tryCatch, against_bind, ask, against_query]
  rcases (f.of st).settle Statement.run s st with ⟨_ | _, u⟩ <;> rfl

theorem followed_of_update (hd : d ∈ s.delegations.rows) {s' : Store} {token : Payload}
    (hs : s'.delegations = s.delegations ∧ s'.now = s.now)
    (hiff : Completed cfg f ↔ f.update.isAnswered = true) :
    Followed cfg f d s ((ask (.updateChildJti d.id token.jti) >>= fun _ =>
      (pure (.delegated token d.id d.expiresAt) : Handler Response)).against
        Statement.run f.of s') := by
  rw [against_bind, ask, against_query]
  cases hupdate : f.update with
  | answered c =>
    simp only [Fates.of, hupdate, Outcome.settle, Statement.run]
    exact .delegated (hiff.mpr (by rw [hupdate]; rfl)) ⟨_, mem_of_update hd hs.1 token.jti, rfl, rfl⟩
  | failed e =>
    simp only [Fates.of, hupdate, Outcome.settle]
    refine .stranded (fun h => ?_) hs.2 (remains_self hd hs.1)
    have hanswered := hiff.mp h
    rw [hupdate] at hanswered
    cases hanswered
  | lost c e =>
    simp only [Fates.of, hupdate, Outcome.settle, Statement.run]
    refine .stranded (fun h => ?_) hs.2 (remains_update hd hs.1 token.jti)
    have hanswered := hiff.mp h
    rw [hupdate] at hanswered
    cases hanswered

variable (cfg) in
theorem followed_signChild (hd : d ∈ s.delegations.rows) :
    Followed cfg f d s ((signChild cfg d).against Statement.run f.of s) := by
  unfold signChild
  cases hclient : cfg.httpClient with
  | false =>
    exact .stranded (fun h => by simp [Completed, hclient] at h) rfl (remains_self hd rfl)
  | true =>
    simp only [Bool.not_true, Bool.false_eq_true, if_false]
    rw [against_bind, attempt_against]
    cases hsign : f.sign with
    | failed e =>
      simp only [Fates.of, hsign, Outcome.settle]
      cases he : e.isException with
      | true => exact followed_of_abandon hd ⟨rfl, rfl⟩ (by simp [Completed, hclient, hsign, he])
      | false =>
        exact .stranded (fun h => by simp [Completed, hsign, he] at h) rfl (remains_self hd rfl)
    | lost c e =>
      simp only [Fates.of, hsign, Outcome.settle, Statement.run]
      cases he : e.isException with
      | true => exact followed_of_abandon hd ⟨rfl, rfl⟩ (by simp [Completed, hclient, hsign, he])
      | false =>
        exact .stranded (fun h => by simp [Completed, hsign, he] at h) rfl (remains_self hd rfl)
    | answered c =>
      simp only [Fates.of, hsign, Outcome.settle, Statement.run]
      cases hshape : c.sign with
      | signed =>
        exact followed_of_update hd ⟨rfl, rfl⟩ (by simp [Completed, hclient, hsign, hshape])
      | refused n =>
        exact followed_of_abandon hd ⟨rfl, rfl⟩ (by simp [Completed, hclient, hsign, hshape])
      | malformed =>
        exact followed_of_abandon hd ⟨rfl, rfl⟩ (by simp [Completed, hclient, hsign, hshape])

theorem signChild_createdAt (cfg : Config) (d : Delegation) (now : ℚ) :
    signChild cfg { d with createdAt := now } = signChild cfg d := by
  simp only [signChild]
  split
  · rfl
  · congr 1
    funext reply
    rcases reply with e | (n | _ | token) <;> rfl

theorem offers_unique {identity : Payload} {body : DelegateRequest} {d d' : Delegation}
    (h : Offers f s identity body d) (h' : Offers f s identity body d') : d = d' := by
  obtain ⟨_, parent, hparent, _, rfl⟩ := h
  obtain ⟨_, parent', hparent', _, rfl⟩ := h'
  rw [hparent] at hparent'
  cases hparent'
  rfl

theorem allOrNothing_iff_of_remains {s₂ u : Store} {e : Failure} (hrevoked : d.revokedAt = none)
    (hfresh : ∀ r ∈ s.delegations.rows, r.id ≠ d.id)
    (hrows : ∀ r ∈ s₂.delegations.rows, r ∈ s.delegations.rows ∨ r = d)
    (hnow : u.now = s.now) (h : Remains d s₂ u) :
    AllOrNothing s u (.error e) ↔ ¬⌊s.now⌋ < d.expiresAt := by
  constructor
  · intro hnone hexpires
    obtain ⟨r, hr, hid, hrev, hexp⟩ := h.row
    have husable : r.usable u.now = true := by
      simp [Delegation.usable, hrev, hexp, hnow, hrevoked, hexpires]
    exact hfresh r (hnone r hr husable) hid
  · intro hexpired r hr husable
    obtain ⟨hmem, hid⟩ | hexp := h.others r hr
    · obtain hmem | rfl := hrows r hmem
      · exact hmem
      · exact absurd rfl hid
    · simp only [Delegation.usable, hexp, hnow, Bool.and_eq_true, decide_eq_true_eq] at husable
      exact absurd husable.2 hexpired

/-- A creation whose insertion comes back so leaves no half of it exactly where it is settled. -/
theorem allOrNothing_of_insert (hrevoked : d.revokedAt = none) :
    AllOrNothing s
        ((ask (.insertDelegation d) >>= fun _ => signChild cfg d).against Statement.run f.of
          { s with nextId := s.nextId + 1 }).2
        ((ask (.insertDelegation d) >>= fun _ => signChild cfg d).against Statement.run f.of
          { s with nextId := s.nextId + 1 }).1 ↔
      ((∀ r ∈ s.delegations.rows, r.id ≠ d.id) → ⌊s.now⌋ < d.expiresAt → Settled cfg f) := by
  rw [against_bind, ask, against_query]
  cases hinsert : s.delegations.insert { d with createdAt := s.now } with
  | none =>
    have htaken : ¬∀ r ∈ s.delegations.rows, r.id ≠ d.id := by
      unfold Table.insert at hinsert
      split at hinsert
      · rename_i hmem
        obtain ⟨r, hr, hid⟩ := List.mem_map.mp hmem
        exact fun hfresh => hfresh r hr hid
      · cases hinsert
    refine iff_of_true ?_ fun hfresh => absurd hfresh htaken
    cases hfate : f.insert <;>
      simp only [Fates.of, hfate, Outcome.settle, Statement.run, hinsert] <;> exact fun r hr _ => hr
  | some rows =>
    have hmem : ∀ r, r ∈ rows.rows ↔ r ∈ s.delegations.rows ∨ r = { d with createdAt := s.now } :=
      fun _ => Table.mem_of_insert hinsert
    have hnone : s.delegations.get? ({ d with createdAt := s.now } : Delegation).id = none :=
      Table.fresh_of_insert hinsert
    have hfresh : ∀ r ∈ s.delegations.rows, r.id ≠ d.id := Table.get?_eq_none_iff.mp hnone
    have hremains : ∀ {u : Store} {e : Failure}, u.now = s.now →
        Remains { d with createdAt := s.now }
          { s with delegations := rows, nextId := s.nextId + 1 } u →
        (AllOrNothing s u (.error e) ↔ ¬⌊s.now⌋ < d.expiresAt) :=
      fun hnow h => allOrNothing_iff_of_remains (d := { d with createdAt := s.now }) hrevoked hfresh
        (fun r hr => (hmem r).mp hr) hnow h
    cases hfate : f.insert with
    | failed e =>
      simp only [Fates.of, hfate, Outcome.settle]
      exact iff_of_true (fun r hr _ => hr) fun _ _ => by simp [Settled, hfate]
    | lost c e =>
      simp only [Fates.of, hfate, Outcome.settle, Statement.run, hinsert]
      rw [hremains (by rfl) (remains_self ((hmem _).mpr (.inr rfl)) rfl)]
      exact ⟨fun hold _ hlt => absurd hlt hold, fun h hlt => by simpa [Settled, hfate] using h hfresh hlt⟩
    | answered c =>
      simp only [Fates.of, hfate, Outcome.settle, Statement.run, hinsert]
      have hsettled : Settled cfg f ↔ Completed cfg f := by simp [Settled, hfate]
      rw [hsettled]
      have hfollowed := followed_signChild cfg (f := f) (d := { d with createdAt := s.now })
        (s := { s with delegations := rows, nextId := s.nextId + 1 }) ((hmem _).mpr (.inr rfl))
      rw [signChild_createdAt] at hfollowed
      revert hfollowed
      generalize (signChild cfg d).against Statement.run f.of
        { s with delegations := rows, nextId := s.nextId + 1 } = ending
      intro hfollowed
      cases hfollowed with
      | delegated completed written => exact iff_of_true written fun _ _ => completed
      | undone completed gone =>
        refine iff_of_true (fun r hr _ => ?_) fun _ _ => completed
        obtain ⟨hr, hid⟩ := gone r hr
        obtain hr | rfl := (hmem r).mp hr
        · exact hr
        · exact absurd rfl hid
      | stranded broken now remains =>
        rw [hremains now ⟨remains.row, remains.others⟩]
        exact ⟨fun hold _ hlt => absurd hlt hold, fun h hlt => broken (h hfresh hlt)⟩

/-- A creation is all or nothing exactly where the row it offers, if it offers one that can be
inserted and is not expired, is settled. -/
theorem created_whole_iff (cfg : Config) (f : Fates) (s : Store) (identity : Payload)
    (body : DelegateRequest) :
    AllOrNothing s ((createDelegationEndpoint cfg identity body).against Statement.run f.of s).2
        ((createDelegationEndpoint cfg identity body).against Statement.run f.of s).1 ↔
      ∀ d, Offers f s identity body d → (∀ r ∈ s.delegations.rows, r.id ≠ d.id) →
        ⌊s.now⌋ < d.expiresAt → Settled cfg f := by
  obtain ⟨hnone, e, he⟩ | ⟨d, hd, hcreate⟩ := create_cases cfg f s identity body
  · rw [he]
    exact iff_of_true (fun r hr _ => hr) fun d hd => absurd hd (hnone d)
  · have hrevoked : d.revokedAt = none := by
      obtain ⟨_, _, _, _, rfl⟩ := hd
      rfl
    rw [hcreate, allOrNothing_of_insert hrevoked]
    constructor
    · intro h d' hd'
      rw [offers_unique hd' hd]
      exact h
    · exact fun h => h d hd

def scoutToken : Payload := { sub := "scout", exp := 3600, iat := 0, jti := "a1" }

def helperBody : DelegateRequest := { childLabel := "helper", allowedModels := ["gpt"] }

def scoutPolicy : Policies.Policy :=
  { id := 0, name := "default", allowedModels := ["gpt"], createdBy := none }

/-- The `UPDATE` of the row fails: the caller has an error and the row stays, under its
placeholder. -/
theorem update_strands_row :
    ¬∀ (cfg : Config) (f : Fates) (s : Store) (identity : Payload) (body : DelegateRequest),
      AllOrNothing s ((createDelegationEndpoint cfg identity body).against Statement.run f.of s).2
        ((createDelegationEndpoint cfg identity body).against Statement.run f.of s).1 := by
  intro h
  have hwhole := h unkeyed { update := .failed (.exception "connection was closed") }
    (onePolicy scoutPolicy) scoutToken helperBody
  obtain ⟨e, he⟩ : ∃ e, ((createDelegationEndpoint unkeyed scoutToken helperBody).against Statement.run
      ({ update := .failed (.exception "connection was closed") } : Fates).of
      (onePolicy scoutPolicy)).1 = .error e := ⟨_, rfl⟩
  rw [he] at hwhole
  revert hwhole
  change ¬∀ d ∈ _, _ → d ∈ []
  decide +kernel

end Hill90.Router
